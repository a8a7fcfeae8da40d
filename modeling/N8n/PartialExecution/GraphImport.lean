import N8n.Workflow.ConnectionReversal
import N8n.PartialExecution.DirectedGraph

namespace N8n.PartialExecution

open Lib

section

variable {N : Type} [Named N]

/-- The part of a `Workflow` that holds its graph. -/
structure GraphWorkflow (N : Type) [Named N] where
  nodes : ObjectMap String N
  nodes_named : ∀ {nodeName : String} {node : N}, nodes.get? nodeName = some node → name node = nodeName
  connectionsBySourceNode : IConnections
  connectionsByDestinationNode : ConnectionsObject

structure Wire where
  source : String
  type : String
  outputIndex : Nat
  target : String
  inputIndex : Nat
deriving DecidableEq

def Wire.key (w : Wire) : String :=
  w.source ++ "-" ++ w.type ++ "-" ++ toString w.outputIndex ++ "-" ++ toString w.inputIndex ++ "-" ++ w.target

def wireOf (c : GraphConnection N) : Wire :=
  ⟨name c.fromNode, c.type, c.outputIndex, name c.toNode, c.inputIndex⟩

def wireOfVisit (v : Visit) : Wire := ⟨v.source, v.type, v.outputIndex, v.connection.node, v.connection.index⟩

/-- `nodes[node.name] = node`, which for `__proto__` adds no property. -/
def bindNode (acc : ObjectMap String N) (node : N) : ObjectMap String N :=
  if name node = "__proto__" then acc else acc.set (name node) node

def workflowNodes (nodes : List N) : ObjectMap String N := nodes.foldl bindNode .empty

theorem get?_bindNode (acc : ObjectMap String N) (node : N) (nodeName : String) :
    (bindNode acc node).get? nodeName =
      if nodeName = name node ∧ nodeName ≠ "__proto__" then some node else acc.get? nodeName := by
  rw [bindNode]
  by_cases hp : name node = "__proto__"
  · rw [if_pos hp, if_neg]
    rintro ⟨he, hn⟩
    exact hn (he.trans hp)
  · rw [if_neg hp, ObjectMap.get?_set]
    by_cases he : nodeName = name node
    · rw [if_pos he, if_pos ⟨he, he ▸ hp⟩]
    · rw [if_neg he, if_neg (fun h => he h.1)]

theorem get?_foldl_bindNode {nodes : List N} {acc : ObjectMap String N} {nodeName : String} {node : N}
    (h : (nodes.foldl bindNode acc).get? nodeName = some node) :
    acc.get? nodeName = some node ∨ node ∈ nodes ∧ name node = nodeName ∧ nodeName ≠ "__proto__" := by
  induction nodes generalizing acc with
  | nil => exact .inl h
  | cons n nodes ih =>
    rcases ih h with h | ⟨hm, hn⟩
    · rw [get?_bindNode] at h
      split at h
      · next he =>
        cases h
        exact .inr ⟨List.mem_cons_self, he.1.symm, he.2⟩
      · exact .inl h
    · exact .inr ⟨List.mem_cons_of_mem _ hm, hn⟩

theorem get?_workflowNodes {nodes : List N} {nodeName : String} {node : N}
    (h : (workflowNodes nodes).get? nodeName = some node) :
    node ∈ nodes ∧ name node = nodeName ∧ nodeName ≠ "__proto__" := by
  rcases get?_foldl_bindNode h with h | h
  · cases h
  · exact h

/-- The constructor of `Workflow`, as far as it builds the graph. -/
def makeWorkflow (nodes : List N) (connections : IConnections) : Except GraphError (GraphWorkflow N) :=
  match mapByDestination ⟨connections, false⟩ with
  | .ok byDestination => .ok ⟨workflowNodes nodes, (fun h => (get?_workflowNodes h).2.1), connections, byDestination⟩
  | .error _ => .error .typeError

namespace DirectedGraph

/-- `outputs[outputIndex] ?? []` with the new connection, and holes before it. -/
def pushOutput (outputs : NodeInputConnections) (outputIndex : Nat) (c : IConnection) : NodeInputConnections :=
  let padded := outputs ++ List.replicate (outputIndex + 1 - outputs.length) none
  padded.modify outputIndex fun group => some (group.getD [] ++ [c])

def exported (c : GraphConnection N) : IConnection := ⟨name c.toNode, c.type, c.inputIndex⟩

/-- A name that `result` inherits reads as a member without buckets; a second type finds no bucket. Where a member of the
prototype has the name of the missing bucket, the source fills that instead of throwing: the connection is lost too. -/
def exportConnection (result : IConnections) (c : GraphConnection N) : Except GraphError IConnections :=
  match result.get? (name c.fromNode) with
  | none =>
    if name c.fromNode ∈ inheritedNames then .error .typeError
    else .ok (result.set (name c.fromNode) (ObjectMap.empty.set c.type (pushOutput [] c.outputIndex (exported c))))
  | some byType =>
    match byType.get? c.type with
    | none => .error .typeError
    | some outputs =>
      .ok (result.set (name c.fromNode) (byType.set c.type (pushOutput outputs c.outputIndex (exported c))))

def toIConnections (g : DirectedGraph N) : Except GraphError IConnections :=
  g.getConnections.foldlM exportConnection .empty

def toWorkflow (g : DirectedGraph N) : Except GraphError (GraphWorkflow N) :=
  match g.toIConnections with
  | .ok connections => makeWorkflow (g.nodes.entries.map Prod.snd) connections
  | .error e => .error e

variable [DecidableEq N]

def falsy (expression : String) : GraphError :=
  .assertion ("The expression evaluated to a falsy value:\n\n  a.ok(" ++ expression ++ ")\n")

/-- What `name` reads on a member that every object inherits. -/
def memberName : String → String
  | "constructor" => "Object"
  | "__proto__" => "undefined"
  | member => member

def notInGraph (role nodeName : String) : GraphError :=
  .assertion ("Cannot add connection: " ++ role ++ " node \"" ++ nodeName ++ "\" is not part of this graph.")

def importConnection (w : GraphWorkflow N) (fromNode : N) (g : DirectedGraph N) (v : Visit) :
    Except GraphError (DirectedGraph N) :=
  match w.nodes.get? v.connection.node with
  | none =>
    if v.connection.node ∈ inheritedNames then .error (notInGraph "target" (memberName v.connection.node))
    else .error (falsy "to")
  | some toNode =>
    g.addConnection
      { fromNode := fromNode, toNode := toNode, type := some v.type, outputIndex := some v.outputIndex,
        inputIndex := some v.connection.index }

/-- `getNode` finds an inherited member as the source of connections, none of which the graph then takes. -/
def importMember (w : GraphWorkflow N) (g : DirectedGraph N) (member : String) :
    List Visit → Except GraphError (DirectedGraph N)
  | [] => .ok g
  | v :: _ =>
    if (w.nodes.get? v.connection.node).isSome || decide (v.connection.node ∈ inheritedNames) then
      .error (notInGraph "source" (memberName member))
    else .error (falsy "to")

def importNode (w : GraphWorkflow N) (g : DirectedGraph N) (fromNodeName : String) :
    Except GraphError (DirectedGraph N) :=
  let connections := nodeVisits fromNodeName ((w.connectionsBySourceNode.get? fromNodeName).getD .empty)
  match w.nodes.get? fromNodeName with
  | none => if fromNodeName ∈ inheritedNames then importMember w g fromNodeName connections else .error (falsy "from")
  | some fromNode => connections.foldlM (importConnection w fromNode) g

def fromWorkflow (w : GraphWorkflow N) : Except GraphError (DirectedGraph N) :=
  w.connectionsBySourceNode.keys.foldlM (importNode w) (empty.addNodes w.nodes.values)

end DirectedGraph

end

variable {v : Visit}

namespace DirectedGraph

variable {N : Type} [Named N] {g : DirectedGraph N} {w : GraphWorkflow N} {c c' : GraphConnection N}

omit [Named N] in
theorem mem_values {m : ObjectMap String N} {node : N} : node ∈ m.values ↔ ∃ nodeName, m.get? nodeName = some node := by
  rw [ObjectMap.values, List.mem_filterMap]
  constructor
  · rintro ⟨k, -, hk⟩
    exact ⟨k, hk⟩
  · rintro ⟨k, hk⟩
    exact ⟨k, m.mem_keys.2 (by rw [hk]; rfl), hk⟩

def bindAll (nodes : List N) (acc : ObjectMap String N) : ObjectMap String N :=
  nodes.foldl (fun acc node => acc.set (name node) node) acc

theorem get?_bindAll {nodes : List N} {acc : ObjectMap String N} {nodeName : String} {node : N}
    (h : (bindAll nodes acc).get? nodeName = some node) :
    acc.get? nodeName = some node ∨ node ∈ nodes ∧ name node = nodeName := by
  induction nodes generalizing acc with
  | nil => exact .inl h
  | cons n nodes ih =>
    rcases ih h with h | ⟨hm, hn⟩
    · rw [ObjectMap.get?_set] at h
      split at h
      · next he =>
        cases h
        exact .inr ⟨List.mem_cons_self, he.symm⟩
      · exact .inl h
    · exact .inr ⟨List.mem_cons_of_mem _ hm, hn⟩

theorem get?_bindAll_some {nodes : List N} {acc : ObjectMap String N} {node : N}
    (hinj : ∀ n ∈ nodes, name n = name node → n = node)
    (h : node ∈ nodes ∨ acc.get? (name node) = some node) : (bindAll nodes acc).get? (name node) = some node := by
  induction nodes generalizing acc with
  | nil => exact h.resolve_left (fun hm => nomatch hm)
  | cons n nodes ih =>
    refine ih (fun n' hn' => hinj n' (List.mem_cons_of_mem _ hn')) ?_
    by_cases he : name node = name n
    · obtain rfl := hinj n List.mem_cons_self he.symm
      exact .inr (ObjectMap.get?_set_self _ _ _)
    · rcases h with h | h
      · rcases List.mem_cons.1 h with rfl | h
        · exact absurd rfl he
        · exact .inl h
      · exact .inr ((ObjectMap.get?_set_ne _ he _).trans h)

theorem get?_bindAll_values {m : ObjectMap String N} {nodes : List N}
    (hnamed : ∀ {nodeName : String} {node : N}, m.get? nodeName = some node → name node = nodeName)
    (hnodes : ∀ node, node ∈ nodes ↔ ∃ nodeName, m.get? nodeName = some node) (nodeName : String) :
    (bindAll nodes .empty).get? nodeName = m.get? nodeName := by
  have hget : ∀ node ∈ nodes, m.get? (name node) = some node := by
    intro node hn
    obtain ⟨k, hk⟩ := (hnodes node).1 hn
    exact hnamed hk ▸ hk
  cases hm : m.get? nodeName with
  | none =>
    cases hb : (bindAll nodes .empty).get? nodeName with
    | none => rfl
    | some node =>
      rcases get?_bindAll hb with h | ⟨hn, he⟩
      · cases h
      · rw [← he, hget node hn] at hm
        cases hm
  | some node =>
    obtain rfl := hnamed hm
    refine get?_bindAll_some (fun n hn he => ?_) (.inl ((hnodes node).2 ⟨_, hm⟩))
    have hn' := hget n hn
    rw [he, hm] at hn'
    exact (Option.some.inj hn').symm

theorem addNodes_nodes (nodes : List N) : (g.addNodes nodes).nodes = bindAll nodes g.nodes := by
  induction nodes generalizing g with
  | nil => rfl
  | cons node nodes ih => exact ih (g := g.addNode node)

theorem addNodes_connections (nodes : List N) : (g.addNodes nodes).connections = g.connections := by
  induction nodes generalizing g with
  | nil => rfl
  | cons node nodes ih => exact ih (g := g.addNode node)

/-- The connection that a place in the workflow's connections stands for. -/
def resolve (w : GraphWorkflow N) (v : Visit) : Option (GraphConnection N) :=
  (w.nodes.get? v.source).bind fun fromNode =>
    (w.nodes.get? v.connection.node).map fun toNode =>
      ⟨fromNode, toNode, v.type, v.outputIndex, v.connection.index⟩

theorem resolve_eq {fromNode toNode : N} (hf : w.nodes.get? v.source = some fromNode)
    (ht : w.nodes.get? v.connection.node = some toNode) :
    resolve w v = some ⟨fromNode, toNode, v.type, v.outputIndex, v.connection.index⟩ := by
  simp [resolve, hf, ht]

theorem wireOf_resolve (h : resolve w v = some c) : wireOf c = wireOfVisit v := by
  obtain ⟨fromNode, hf, h⟩ := Option.bind_eq_some_iff.1 h
  obtain ⟨toNode, ht, rfl⟩ := Option.map_eq_some_iff.1 h
  rw [wireOf, wireOfVisit, w.nodes_named hf, w.nodes_named ht]

theorem resolve_inj {v' : Visit} (h : resolve w v = some c) (h' : resolve w v' = some c')
    (he : wireOf c = wireOf c') : c = c' := by
  rw [wireOf_resolve h, wireOf_resolve h', wireOfVisit, wireOfVisit] at he
  injection he with h₁ h₂ h₃ h₄ h₅
  have hr : resolve w v = resolve w v' := by
    simp only [resolve, h₁, h₂, h₃, h₄, h₅]
  rw [hr, h'] at h
  exact (Option.some.inj h).symm

theorem outputVisits_source {source type : String} {outputs : NodeInputConnections}
    (h : v ∈ outputVisits source type outputs) : v.source = source := by
  obtain ⟨place, -, h⟩ := List.mem_flatMap.1 h
  obtain ⟨_, -, rfl⟩ := List.mem_map.1 h
  rfl

theorem nodeVisits_source {source : String} {byType : INodeConnections} (h : v ∈ nodeVisits source byType) :
    v.source = source := by
  obtain ⟨type, -, h⟩ := List.mem_flatMap.1 h
  exact outputVisits_source h

theorem setConnections_append (cs cs' : List (GraphConnection N)) :
    g.setConnections (cs ++ cs') = (g.setConnections cs).setConnections cs' := List.foldl_append

variable [DecidableEq N]

theorem importConnection_ok {fromNode toNode : N} (hn : ∀ k, g.nodes.get? k = w.nodes.get? k)
    (hf : w.nodes.get? v.source = some fromNode) (ht : w.nodes.get? v.connection.node = some toNode) :
    importConnection w fromNode g v =
      .ok (g.setConnection ⟨fromNode, toNode, v.type, v.outputIndex, v.connection.index⟩) := by
  have hbf : g.nodes.get? (name fromNode) = some fromNode := by rw [hn, w.nodes_named hf, hf]
  have hbt : g.nodes.get? (name toNode) = some toNode := by rw [hn, w.nodes_named ht, ht]
  simp [importConnection, ht, addConnection, hbf, hbt]

theorem importConnections_ok {source : String} {fromNode : N} (hf : w.nodes.get? source = some fromNode)
    (vs : List Visit) (hv : ∀ v ∈ vs, v.source = source ∧ (w.nodes.get? v.connection.node).isSome = true)
    (hn : ∀ k, g.nodes.get? k = w.nodes.get? k) :
    vs.foldlM (importConnection w fromNode) g = .ok (g.setConnections (vs.filterMap (resolve w))) := by
  induction vs generalizing g with
  | nil => rfl
  | cons v vs ih =>
    obtain ⟨hs, ht⟩ := hv v List.mem_cons_self
    obtain ⟨toNode, ht⟩ := Option.isSome_iff_exists.1 ht
    rw [← hs] at hf
    rw [List.foldlM_cons, importConnection_ok hn hf ht, List.filterMap_cons_some (resolve_eq hf ht)]
    rw [hs] at hf
    exact ih (fun v' hv' => hv v' (List.mem_cons_of_mem _ hv')) hn

theorem importNodes_ok (sources : List String) (hs : ∀ source ∈ sources, (w.nodes.get? source).isSome = true)
    (ht : ∀ source ∈ sources, ∀ v ∈ nodeVisits source ((w.connectionsBySourceNode.get? source).getD .empty),
      (w.nodes.get? v.connection.node).isSome = true)
    (hn : ∀ k, g.nodes.get? k = w.nodes.get? k) :
    sources.foldlM (importNode w) g = .ok (g.setConnections ((sources.flatMap fun source =>
      nodeVisits source ((w.connectionsBySourceNode.get? source).getD .empty)).filterMap (resolve w))) := by
  induction sources generalizing g with
  | nil => rfl
  | cons source sources ih =>
    obtain ⟨fromNode, hf⟩ := Option.isSome_iff_exists.1 (hs source List.mem_cons_self)
    have hi : importNode w g source = .ok (g.setConnections ((nodeVisits source
        ((w.connectionsBySourceNode.get? source).getD .empty)).filterMap (resolve w))) := by
      rw [importNode, hf]
      exact importConnections_ok hf _ (fun v hv => ⟨nodeVisits_source hv, ht source List.mem_cons_self v hv⟩) hn
    rw [List.foldlM_cons, hi, List.flatMap_cons, List.filterMap_append, setConnections_append]
    refine ih (fun s h => hs s (List.mem_cons_of_mem _ h)) (fun s h => ht s (List.mem_cons_of_mem _ h)) ?_
    intro k
    rw [setConnections_nodes]
    exact hn k

def ConnectionsNamed (w : GraphWorkflow N) : Prop :=
  (∀ source ∈ w.connectionsBySourceNode.keys, (w.nodes.get? source).isSome = true) ∧
    ∀ v ∈ visits w.connectionsBySourceNode, (w.nodes.get? v.connection.node).isSome = true

theorem fromWorkflow_ok (h : ConnectionsNamed w) :
    fromWorkflow w = .ok ((empty.addNodes w.nodes.values).setConnections
      ((visits w.connectionsBySourceNode).filterMap (resolve w))) := by
  refine importNodes_ok _ h.1 (fun s hs v hv => h.2 v (List.mem_flatMap.2 ⟨s, hs, hv⟩)) ?_
  intro k
  rw [addNodes_nodes]
  exact get?_bindAll_values w.nodes_named (fun _ => mem_values) k

def Wires (w : GraphWorkflow N) : List Wire := (visits w.connectionsBySourceNode).map wireOfVisit

def KeptOnce (w : GraphWorkflow N) : Prop :=
  ∃ g, fromWorkflow w = .ok g ∧ (g.getConnections.map wireOf).Nodup ∧ ∀ t, t ∈ g.getConnections.map wireOf ↔ t ∈ Wires w

def DistinctKeys (w : GraphWorkflow N) : Prop := ∀ t ∈ Wires w, ∀ t' ∈ Wires w, t.key = t'.key → t = t'

omit [DecidableEq N] in
theorem wires_nodup : (g.getConnections.map wireOf).Nodup := by
  have hkeys : g.connections.entries.map Prod.fst = (g.getConnections.map wireOf).map Wire.key := by
    rw [getConnections, List.map_map, List.map_map]
    apply List.map_congr_left
    rintro ⟨key, c⟩ he
    exact (g.connections_keyed ((ObjectMap.mem_entries _).1 he)).symm
  have hn := g.connections.nodup
  rw [hkeys] at hn
  exact hn.of_map _

omit [DecidableEq N] in
theorem resolved_wires (h : ConnectionsNamed w) {t : Wire} :
    t ∈ Wires w ↔ ∃ c ∈ (visits w.connectionsBySourceNode).filterMap (resolve w), wireOf c = t := by
  rw [Wires, List.mem_map]
  constructor
  · rintro ⟨v, hv, rfl⟩
    obtain ⟨source, hs, hvs⟩ := List.mem_flatMap.1 hv
    obtain ⟨fromNode, hf⟩ := Option.isSome_iff_exists.1 (h.1 source hs)
    obtain ⟨toNode, ht⟩ := Option.isSome_iff_exists.1 (h.2 v hv)
    rw [← nodeVisits_source hvs] at hf
    exact ⟨_, List.mem_filterMap.2 ⟨v, hv, resolve_eq hf ht⟩, wireOf_resolve (resolve_eq hf ht)⟩
  · rintro ⟨c, hc, rfl⟩
    obtain ⟨v, hv, hr⟩ := List.mem_filterMap.1 hc
    exact ⟨v, hv, (wireOf_resolve hr).symm⟩

theorem keptOnce_iff (h : ConnectionsNamed w) : KeptOnce w ↔ DistinctKeys w := by
  constructor
  · rintro ⟨g, -, -, hmem⟩ t ht t' ht' he
    obtain ⟨c, hc, rfl⟩ := List.mem_map.1 ((hmem t).2 ht)
    obtain ⟨c', hc', rfl⟩ := List.mem_map.1 ((hmem t').2 ht')
    rw [makeKey_inj hc hc' he]
  · intro hd
    refine ⟨_, fromWorkflow_ok h, wires_nodup, fun t => ?_⟩
    rw [resolved_wires h, List.mem_map]
    constructor
    · rintro ⟨c, hc, rfl⟩
      rcases mem_setConnections hc with hc | hc
      · exact ⟨c, hc, rfl⟩
      · rw [getConnections, addNodes_connections] at hc
        cases hc
    · rintro ⟨c, hc, rfl⟩
      refine ⟨c, mem_getConnections.2 ⟨makeKey c, get?_setConnections_of (fun c' hc' he => ?_) (.inl hc)⟩, rfl⟩
      have hw := hd _ ((resolved_wires h).2 ⟨c', hc', rfl⟩) _ ((resolved_wires h).2 ⟨c, hc, rfl⟩) he
      obtain ⟨v, -, hv⟩ := List.mem_filterMap.1 hc
      obtain ⟨v', -, hv'⟩ := List.mem_filterMap.1 hc'
      exact resolve_inj hv' hv hw

end DirectedGraph

end N8n.PartialExecution
