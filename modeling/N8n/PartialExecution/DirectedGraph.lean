import N8n.Workflow.Interfaces
import N8n.Lib.Transition

/-!
The `DirectedGraph` of partial executions. A node is an object: two of them may carry the same name, and the graph
binds each name to one of them. Both of its fields are a `Map`, whose entries keep the order they were added in.
-/

namespace N8n.PartialExecution

open Lib

/-- Objects with a name; equal objects are the same object. -/
class Named (N : Type) where
  name : N → String

export Named (name)

instance : Named INode := ⟨INode.name⟩

structure GraphConnection (N : Type) where
  fromNode : N
  toNode : N
  type : String
  outputIndex : Nat
  inputIndex : Nat
deriving DecidableEq

/-- The input of `addConnection`; what it leaves out has a default. -/
structure ConnectionInput (N : Type) where
  fromNode : N
  toNode : N
  type : Option String := none
  outputIndex : Option Nat := none
  inputIndex : Option Nat := none
deriving DecidableEq

inductive GraphError where
  | assertion (message : String)
  | typeError
deriving DecidableEq

section

variable {N : Type} [Named N]

def makeKey (c : GraphConnection N) : String :=
  name c.fromNode ++ "-" ++ c.type ++ "-" ++ toString c.outputIndex ++ "-" ++ toString c.inputIndex ++ "-" ++ name c.toNode

structure DirectedGraph (N : Type) [Named N] where
  nodes : ObjectMap String N
  nodes_named : ∀ {nodeName : String} {node : N}, nodes.get? nodeName = some node → name node = nodeName
  connections : ObjectMap String (GraphConnection N)
  connections_keyed : ∀ {key : String} {c : GraphConnection N}, connections.get? key = some c → makeKey c = key

namespace DirectedGraph

def empty : DirectedGraph N := ⟨.empty, (fun h => nomatch h), .empty, (fun h => nomatch h)⟩

def hasNode (g : DirectedGraph N) (nodeName : String) : Bool := g.nodes.has nodeName

def getConnections (g : DirectedGraph N) : List (GraphConnection N) := g.connections.entries.map Prod.snd

def addNode (g : DirectedGraph N) (node : N) : DirectedGraph N :=
  { g with
    nodes := g.nodes.set (name node) node
    nodes_named := by
      intro nodeName node' h
      rw [ObjectMap.get?_set] at h
      split at h
      · next he => exact Option.some.inj h ▸ he.symm
      · exact g.nodes_named h }

def addNodes (g : DirectedGraph N) (nodes : List N) : DirectedGraph N := nodes.foldl addNode g

def setConnection (g : DirectedGraph N) (c : GraphConnection N) : DirectedGraph N :=
  { g with
    connections := g.connections.set (makeKey c) c
    connections_keyed := by
      intro key c' h
      rw [ObjectMap.get?_set] at h
      split at h
      · next he => exact Option.some.inj h ▸ he.symm
      · exact g.connections_keyed h }

def setConnections (g : DirectedGraph N) (cs : List (GraphConnection N)) : DirectedGraph N := cs.foldl setConnection g

def deleteNode (g : DirectedGraph N) (nodeName : String) : DirectedGraph N :=
  { g with
    nodes := g.nodes.erase nodeName
    nodes_named := by
      intro nodeName' node h
      rw [ObjectMap.get?_erase] at h
      split at h
      · cases h
      · exact g.nodes_named h }

variable [DecidableEq N]

def addConnection (g : DirectedGraph N) (i : ConnectionInput N) : Except GraphError (DirectedGraph N) :=
  if g.nodes.get? (name i.fromNode) ≠ some i.fromNode then
    .error (.assertion
      ("Cannot add connection: source node \"" ++ name i.fromNode ++ "\" is not part of this graph."))
  else if g.nodes.get? (name i.toNode) ≠ some i.toNode then
    .error (.assertion ("Cannot add connection: target node \"" ++ name i.toNode ++ "\" is not part of this graph."))
  else
    .ok (g.setConnection
      { fromNode := i.fromNode, toNode := i.toNode, type := i.type.getD "main", outputIndex := i.outputIndex.getD 0,
        inputIndex := i.inputIndex.getD 0 })

def getDirectChildConnections (g : DirectedGraph N) (node : N) : Except GraphError (List (GraphConnection N)) :=
  if g.nodes.get? (name node) ≠ some node then
    .error (.assertion ("Node \"" ++ name node ++ "\" is not part of this graph."))
  else .ok (g.getConnections.filter fun c => c.fromNode = node)

def getDirectParentConnections (g : DirectedGraph N) (node : N) : Except GraphError (List (GraphConnection N)) :=
  if g.nodes.get? (name node) ≠ some node then
    .error (.assertion ("Node \"" ++ name node ++ "\" is not part of this graph."))
  else .ok (g.getConnections.filter fun c => c.toNode = node)

structure RemoveNodeOptions (N : Type) where
  reconnectConnections : Bool := false
  skipConnectionFn : Option (GraphConnection N → Bool) := none

def RemoveNodeOptions.skips (options : RemoveNodeOptions N) (c : GraphConnection N) : Bool :=
  (options.skipConnectionFn.map fun skip => skip c).getD false

def newConnections (options : RemoveNodeOptions N) (incomingConnections outgoingConnections : List (GraphConnection N)) :
    List (GraphConnection N) :=
  (incomingConnections.filter fun c => !options.skips c).flatMap fun incomingConnection =>
    (outgoingConnections.filter fun c => !options.skips c).map fun outgoingConnection =>
      { incomingConnection with toNode := outgoingConnection.toNode, inputIndex := outgoingConnection.inputIndex }

def deleteConnections (g : DirectedGraph N) (node : N) : DirectedGraph N :=
  { g with
    connections := g.connections.filterValues fun c => !(c.toNode = node || c.fromNode = node)
    connections_keyed := fun h => g.connections_keyed ((ObjectMap.get?_filterValues _ _ _).1 h).1 }

omit [DecidableEq N] in
/-- By default the connections of the node go; on request its parents are connected to its children. -/
def removeNode (g : DirectedGraph N) (node : N) (options : RemoveNodeOptions N) :
    Except GraphError (DirectedGraph N × Option (List (GraphConnection N))) :=
  if options.reconnectConnections then
    match g.getDirectParentConnections node with
    | .error e => .error e
    | .ok incomingConnections =>
      match g.getDirectChildConnections node with
      | .error e => .error e
      | .ok outgoingConnections =>
        let added := newConnections options incomingConnections outgoingConnections
        .ok (((g.deleteConnections node).setConnections added).deleteNode (name node), some added)
  else .ok ((g.deleteConnections node).deleteNode (name node), none)

end DirectedGraph

end

namespace DirectedGraph

variable {N : Type} [Named N]

def Bound (g : DirectedGraph N) (node : N) : Prop := g.nodes.get? (name node) = some node

def Closed (g : DirectedGraph N) : Prop := ∀ c ∈ g.getConnections, g.Bound c.fromNode ∧ g.Bound c.toNode

def Mentions (c : GraphConnection N) (node : N) : Prop := c.fromNode = node ∨ c.toNode = node

variable {g g' : DirectedGraph N} {node node' : N} {c c' : GraphConnection N} {options : RemoveNodeOptions N}

theorem Bound.unique (h : g.Bound node) (h' : g.Bound node') (he : name node = name node') : node = node' := by
  rw [Bound, he] at h
  exact Option.some.inj (h.symm.trans h')

theorem mem_nodes : node ∈ g.nodes.entries.map Prod.snd ↔ g.Bound node := by
  rw [List.mem_map]
  constructor
  · rintro ⟨⟨nodeName, node'⟩, he, rfl⟩
    have hget := (ObjectMap.mem_entries _).1 he
    rwa [Bound, g.nodes_named hget]
  · intro h
    exact ⟨(name node, node), (ObjectMap.mem_entries _).2 h, rfl⟩

theorem mem_getConnections : c ∈ g.getConnections ↔ ∃ key, g.connections.get? key = some c := by
  rw [getConnections, List.mem_map]
  constructor
  · rintro ⟨⟨key, c'⟩, he, rfl⟩
    exact ⟨key, (ObjectMap.mem_entries _).1 he⟩
  · rintro ⟨key, hk⟩
    exact ⟨(key, c), (ObjectMap.mem_entries _).2 hk, rfl⟩

theorem mem_setConnection (h : c ∈ (g.setConnection c').getConnections) : c = c' ∨ c ∈ g.getConnections := by
  obtain ⟨key, hk⟩ := mem_getConnections.1 h
  rw [setConnection, ObjectMap.get?_set] at hk
  split at hk
  · exact .inl (Option.some.inj hk).symm
  · exact .inr (mem_getConnections.2 ⟨key, hk⟩)

@[simp] theorem setConnection_nodes : (g.setConnection c).nodes = g.nodes := rfl

theorem setConnections_nodes (cs : List (GraphConnection N)) : (g.setConnections cs).nodes = g.nodes := by
  induction cs generalizing g with
  | nil => rfl
  | cons c cs ih => exact (ih (g := g.setConnection c)).trans setConnection_nodes

theorem mem_setConnections {cs : List (GraphConnection N)} (h : c ∈ (g.setConnections cs).getConnections) :
    c ∈ cs ∨ c ∈ g.getConnections := by
  induction cs generalizing g with
  | nil => exact .inr h
  | cons c' cs ih =>
    rcases ih (g := g.setConnection c') h with h | h
    · exact .inl (List.mem_cons_of_mem _ h)
    · rcases mem_setConnection h with rfl | h
      · exact .inl List.mem_cons_self
      · exact .inr h

theorem get?_setConnections_of {cs : List (GraphConnection N)} (hinj : ∀ c' ∈ cs, makeKey c' = makeKey c → c' = c)
    (h : c ∈ cs ∨ g.connections.get? (makeKey c) = some c) :
    (g.setConnections cs).connections.get? (makeKey c) = some c := by
  induction cs generalizing g with
  | nil => exact h.resolve_left (fun hm => nomatch hm)
  | cons c₁ cs ih =>
    refine ih (g := g.setConnection c₁) (fun c' hc' => hinj c' (List.mem_cons_of_mem _ hc')) ?_
    by_cases he : makeKey c = makeKey c₁
    · obtain rfl := hinj c₁ List.mem_cons_self he.symm
      exact .inr (ObjectMap.get?_set_self _ _ _)
    · rcases h with h | h
      · rcases List.mem_cons.1 h with rfl | h
        · exact absurd rfl he
        · exact .inl h
      · exact .inr ((ObjectMap.get?_set_ne _ he _).trans h)

theorem get?_makeKey (h : c ∈ g.getConnections) : g.connections.get? (makeKey c) = some c := by
  obtain ⟨key, hk⟩ := mem_getConnections.1 h
  rw [g.connections_keyed hk]
  exact hk

theorem makeKey_inj (h : c ∈ g.getConnections) (h' : c' ∈ g.getConnections) (he : makeKey c = makeKey c') : c = c' := by
  have hk := get?_makeKey h
  rw [he, get?_makeKey h'] at hk
  exact (Option.some.inj hk).symm

theorem bound_addNode (h : g.Bound node') (hn : ∀ other, g.nodes.get? (name node) = some other → other = node) :
    (g.addNode node).Bound node' := by
  rw [Bound, addNode, ObjectMap.get?_set]
  split
  · next he =>
    rw [Bound, he] at h
    rw [hn node' h]
  · exact h

theorem bound_deleteNode (h : g.Bound node') (hn : ∀ other, g.nodes.get? (name node) = some other → other ≠ node') :
    (g.deleteNode (name node)).Bound node' := by
  rw [Bound, deleteNode, ObjectMap.get?_erase]
  split
  · next he =>
    rw [Bound, he] at h
    exact absurd rfl (hn node' h)
  · exact h

theorem addNode_closed (h : g.Closed) (hn : ∀ other, g.nodes.get? (name node) = some other → other = node) :
    (g.addNode node).Closed := by
  intro c hc
  obtain ⟨hf, ht⟩ := h c hc
  exact ⟨bound_addNode hf hn, bound_addNode ht hn⟩

omit [Named N] in
theorem mem_newConnections {cs cs' : List (GraphConnection N)} (h : c ∈ newConnections options cs cs') :
    (∃ i ∈ cs, options.skips i = false ∧ c.fromNode = i.fromNode) ∧
      ∃ o ∈ cs', options.skips o = false ∧ c.toNode = o.toNode := by
  rw [newConnections, List.mem_flatMap] at h
  obtain ⟨i, hi, h⟩ := h
  obtain ⟨o, ho, rfl⟩ := List.mem_map.1 h
  rw [List.mem_filter] at hi ho
  exact ⟨⟨i, hi.1, by simpa using hi.2, rfl⟩, ⟨o, ho.1, by simpa using ho.2, rfl⟩⟩

variable [DecidableEq N]

instance (g : DirectedGraph N) (node : N) : Decidable (g.Bound node) :=
  inferInstanceAs (Decidable (g.nodes.get? (name node) = some node))

instance (g : DirectedGraph N) : Decidable g.Closed :=
  inferInstanceAs (Decidable (∀ c ∈ g.getConnections, g.Bound c.fromNode ∧ g.Bound c.toNode))

instance (c : GraphConnection N) (node : N) : Decidable (Mentions c node) :=
  inferInstanceAs (Decidable (c.fromNode = node ∨ c.toNode = node))

inductive Edit (N : Type) where
  | addNode (node : N)
  | addConnection (input : ConnectionInput N)
  | removeNode (node : N) (options : RemoveNodeOptions N)

/-- No name is bound a second time. A call that throws leaves the graph as it is. -/
def edit (g : DirectedGraph N) : Edit N → Option (DirectedGraph N)
  | .addNode node =>
    match g.nodes.get? (name node) with
    | none => some (g.addNode node)
    | some other => if other = node then some (g.addNode node) else none
  | .addConnection input =>
    match g.addConnection input with
    | .ok g' => some g'
    | .error _ => some g
  | .removeNode node options =>
    match g.removeNode node options with
    | .ok r => some r.1
    | .error _ => some g

def edits (N : Type) [Named N] [DecidableEq N] : TransitionSystem (DirectedGraph N) (Edit N) :=
  ⟨fun g => g = empty, edit⟩

/-- A removal takes the node that its name is bound to (or one whose namesake in the graph has no connections), and
one that reconnects skips the connections of the node to itself. -/
def Clean (g : DirectedGraph N) : Edit N → Prop
  | .removeNode node options =>
    (options.reconnectConnections = false → ∀ other ∈ g.nodes.get? (name node), other ≠ node →
      ∀ c ∈ g.getConnections, ¬ Mentions c other) ∧
    (options.reconnectConnections = true → g.Bound node →
      ∀ c ∈ g.getConnections, c.fromNode = node → c.toNode = node → options.skips c = true)
  | _ => True

instance (g : DirectedGraph N) : (e : Edit N) → Decidable (Clean g e)
  | .addNode _ | .addConnection _ => .isTrue trivial
  | .removeNode _ _ => by dsimp only [Clean]; infer_instance

theorem mem_deleteConnections : c ∈ (g.deleteConnections node).getConnections ↔
    c ∈ g.getConnections ∧ ¬ Mentions c node := by
  rw [mem_getConnections, mem_getConnections]
  simp only [deleteConnections, ObjectMap.get?_filterValues]
  constructor
  · rintro ⟨key, hk, hm⟩
    exact ⟨⟨key, hk⟩, by simpa [Mentions, not_or, and_comm] using hm⟩
  · rintro ⟨⟨key, hk⟩, hm⟩
    exact ⟨key, hk, by simpa [Mentions, not_or, and_comm] using hm⟩

theorem addConnection_ok {i : ConnectionInput N} (h : g.addConnection i = .ok g') :
    g.Bound i.fromNode ∧ g.Bound i.toNode ∧ g' = g.setConnection
      { fromNode := i.fromNode, toNode := i.toNode, type := i.type.getD "main", outputIndex := i.outputIndex.getD 0,
        inputIndex := i.inputIndex.getD 0 } := by
  rw [addConnection] at h
  split at h
  · cases h
  · next hf =>
    split at h
    · cases h
    · next ht => exact ⟨not_not.1 hf, not_not.1 ht, (Except.ok.inj h).symm⟩

def connectionInput (c : GraphConnection N) : ConnectionInput N :=
  ⟨c.fromNode, c.toNode, some c.type, some c.outputIndex, some c.inputIndex⟩

theorem addConnection_of_bound (hf : g.Bound c.fromNode) (ht : g.Bound c.toNode) :
    g.addConnection (connectionInput c) = .ok (g.setConnection c) := by
  have hf' : g.nodes.get? (name (connectionInput c).fromNode) = some (connectionInput c).fromNode := hf
  have ht' : g.nodes.get? (name (connectionInput c).toNode) = some (connectionInput c).toNode := ht
  rw [addConnection, if_neg (not_not.2 hf'), if_neg (not_not.2 ht')]
  rfl

theorem addConnection_closed {i : ConnectionInput N} (h : g.Closed) (hi : g.addConnection i = .ok g') : g'.Closed := by
  obtain ⟨hf, ht, rfl⟩ := addConnection_ok hi
  intro c hc
  rcases mem_setConnection hc with rfl | hc
  · exact ⟨hf, ht⟩
  · exact h c hc

theorem removeNode_ok {r : Option (List (GraphConnection N))} (h : g.removeNode node options = .ok (g', r)) :
    (g' = (g.deleteConnections node).deleteNode (name node) ∧ options.reconnectConnections = false) ∨
      (g.Bound node ∧ options.reconnectConnections = true ∧
        g' = ((g.deleteConnections node).setConnections (newConnections options
          (g.getConnections.filter fun c => c.toNode = node)
          (g.getConnections.filter fun c => c.fromNode = node))).deleteNode (name node)) := by
  rw [removeNode, getDirectParentConnections, getDirectChildConnections] at h
  split at h
  · next hr =>
    by_cases hb : g.nodes.get? (name node) = some node
    · simp only [hb, ne_eq, not_true, if_false] at h
      cases h
      exact .inr ⟨hb, hr, rfl⟩
    · simp only [ne_eq, hb, not_false_eq_true, if_true] at h
      cases h
  · next hr =>
    cases h
    exact .inl ⟨rfl, Bool.eq_false_iff.2 hr⟩

theorem newConnections_clean (hc : c ∈ newConnections options (g.getConnections.filter fun c => c.toNode = node)
      (g.getConnections.filter fun c => c.fromNode = node))
    (hloop : ∀ c ∈ g.getConnections, c.fromNode = node → c.toNode = node → options.skips c = true) :
    (∃ i ∈ g.getConnections, c.fromNode = i.fromNode ∧ i.fromNode ≠ node) ∧
      ∃ o ∈ g.getConnections, c.toNode = o.toNode ∧ o.toNode ≠ node := by
  obtain ⟨⟨i, hi, hsi, hf⟩, o, ho, hso, ht⟩ := mem_newConnections hc
  rw [List.mem_filter, decide_eq_true_eq] at hi ho
  refine ⟨⟨i, hi.1, hf, fun he => ?_⟩, o, ho.1, ht, fun he => ?_⟩
  · exact absurd (hloop i hi.1 he hi.2) (by rw [hsi]; exact Bool.false_ne_true)
  · exact absurd (hloop o ho.1 ho.2 he) (by rw [hso]; exact Bool.false_ne_true)

theorem removeNode_unmentioned {r : Option (List (GraphConnection N))}
    (hclean : Clean g (.removeNode node options)) (h : g.removeNode node options = .ok (g', r)) :
    ∀ c ∈ g'.getConnections, ¬ Mentions c node := by
  intro c hc
  rcases removeNode_ok h with ⟨rfl, -⟩ | ⟨hb, hr, rfl⟩
  · exact (mem_deleteConnections.1 hc).2
  · rcases mem_setConnections hc with hc | hc
    · obtain ⟨⟨i, -, hf, hi⟩, o, -, ht, ho⟩ := newConnections_clean hc (hclean.2 hr hb)
      rintro (he | he)
      · exact hi (hf ▸ he)
      · exact ho (ht ▸ he)
    · exact (mem_deleteConnections.1 hc).2

theorem removeNode_closed {r : Option (List (GraphConnection N))} (hg : g.Closed)
    (hclean : Clean g (.removeNode node options)) (h : g.removeNode node options = .ok (g', r)) : g'.Closed := by
  intro c hc
  rcases removeNode_ok h with ⟨rfl, hr⟩ | ⟨hb, hr, rfl⟩
  · obtain ⟨hc, hm⟩ := mem_deleteConnections.1 hc
    have hother : ∀ node', Mentions c node' → ∀ other, g.nodes.get? (name node) = some other → other ≠ node' := by
      rintro node' hm' other ho rfl
      by_cases he : other = node
      · exact hm (he ▸ hm')
      · exact hclean.1 hr other ho he c hc hm'
    obtain ⟨hf, ht⟩ := hg c hc
    exact ⟨bound_deleteNode hf (hother _ (.inl rfl)), bound_deleteNode ht (hother _ (.inr rfl))⟩
  · have hkeep : ∀ node', g.Bound node' → node' ≠ node → (((g.deleteConnections node).setConnections (newConnections
        options (g.getConnections.filter fun c => c.toNode = node)
        (g.getConnections.filter fun c => c.fromNode = node))).deleteNode (name node)).Bound node' := by
      intro node' hb' hne
      apply bound_deleteNode
      · rw [Bound, setConnections_nodes]
        exact hb'
      · intro other ho he
        rw [setConnections_nodes] at ho
        have hn : some node = some other := hb.symm.trans ho
        exact hne (he ▸ (Option.some.inj hn).symm)
    rcases mem_setConnections hc with hc | hc
    · obtain ⟨⟨i, hi, hf, hin⟩, o, ho, ht, hon⟩ := newConnections_clean hc (hclean.2 hr hb)
      rw [hf, ht]
      exact ⟨hkeep _ (hg i hi).1 hin, hkeep _ (hg o ho).2 hon⟩
    · obtain ⟨hc, hm⟩ := mem_deleteConnections.1 hc
      obtain ⟨hf, ht⟩ := hg c hc
      exact ⟨hkeep _ hf (fun he => hm (.inl he)), hkeep _ ht (fun he => hm (.inr he))⟩

theorem edit_closed {e : Edit N} (hg : g.Closed) (hclean : Clean g e) (h : g.edit e = some g') : g'.Closed := by
  cases e with
  | addNode node =>
    simp only [edit] at h
    split at h
    · next hn =>
      cases h
      exact addNode_closed hg (fun other ho => by rw [hn] at ho; cases ho)
    · next other hn =>
      split at h
      · next he =>
        cases h
        exact addNode_closed hg (fun other' ho => by rw [hn] at ho; exact Option.some.inj ho ▸ he)
      · cases h
  | addConnection input =>
    simp only [edit] at h
    split at h
    · next g₁ hi =>
      cases h
      exact addConnection_closed hg hi
    · cases h
      exact hg
  | removeNode node options =>
    simp only [edit] at h
    split at h
    · next r hr =>
      cases h
      exact removeNode_closed hg hclean hr
    · cases h
      exact hg

/-- Graphs stay closed under clean edits, and no connection mentions a node after its removal. -/
theorem edits_closed (h : (edits N).Reachable Clean g) :
    g.Closed ∧ ∀ node options g' r, Clean g (.removeNode node options) → g.removeNode node options = .ok (g', r) →
      ∀ c ∈ g'.getConnections, ¬ Mentions c node := by
  refine ⟨?_, fun node options g' r hclean hr => removeNode_unmentioned hclean hr⟩
  refine h.invariant (fun g hg => ?_) (fun g e g' hclean hg hs => edit_closed hg hclean hs)
  intro c hc
  rw [show g = empty from hg] at hc
  cases hc

def plainNode (nodeName : String) : INode :=
  { name := nodeName, type := "set", typeVersion := 1, position := (0, 0) }

def loopEdits : List (Edit INode) :=
  [.addNode (plainNode "A"), .addNode (plainNode "B"),
    .addConnection { fromNode := plainNode "A", toNode := plainNode "A" },
    .addConnection { fromNode := plainNode "A", toNode := plainNode "B" }]

def skipLoops : RemoveNodeOptions INode :=
  { reconnectConnections := true, skipConnectionFn := some fun c => decide (c.fromNode = c.toNode) }

theorem edits_closed_loop :
    ∃ g, (edits INode).Reachable Clean g ∧ g.hasNode "B" = true ∧ g.Closed := by
  have hrun : ((edits INode).run (fun g e => decide (Clean g e)) empty
      (loopEdits ++ [.removeNode (plainNode "A") skipLoops])).any (fun g => g.hasNode "B") = true := by
    decide +kernel
  obtain ⟨g, hg, hb⟩ := (Option.any_eq_true _ _).1 hrun
  have hr : (edits INode).Reachable Clean g :=
    ⟨empty, rfl, (TransitionSystem.run_leads hg).mono fun _ _ h => of_decide_eq_true h⟩
  exact ⟨g, hr, hb, (edits_closed hr).1⟩

/-- Removing a node with a loop puts the loop back among the new connections. -/
theorem loop_put_back :
    ∃ g, (edits INode).Reachable TransitionSystem.Any g ∧ ¬ g.Closed ∧
      ∃ c ∈ g.getConnections, g.hasNode "A" = false ∧ Mentions c (plainNode "A") := by
  have hrun : ((edits INode).run (fun _ _ => true) empty
      (loopEdits ++ [.removeNode (plainNode "A") { reconnectConnections := true }])).any (fun g =>
        !decide g.Closed && !g.hasNode "A" && g.getConnections.any fun c => decide (Mentions c (plainNode "A"))) = true := by
    decide +kernel
  obtain ⟨g, hg, hp⟩ := (Option.any_eq_true _ _).1 hrun
  simp only [Bool.and_eq_true, Bool.not_eq_true', decide_eq_false_iff_not, List.any_eq_true, decide_eq_true_eq] at hp
  obtain ⟨⟨hclosed, hnode⟩, c, hc, hm⟩ := hp
  exact ⟨g, ⟨empty, rfl, (TransitionSystem.run_leads hg).mono fun _ _ _ => trivial⟩, hclosed, c, hc, hnode, hm⟩

end DirectedGraph

end N8n.PartialExecution
