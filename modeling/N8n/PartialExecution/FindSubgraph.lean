import N8n.PartialExecution.GraphSearch
import N8n.Lib.Loop

namespace N8n.PartialExecution

open Lib Relation DirectedGraph

section Model

variable {N : Type} [Named N] [DecidableEq N]

def keepConnection (newGraph : DirectedGraph N) (c : GraphConnection N) : Except GraphError (DirectedGraph N) :=
  (newGraph.addNodes [c.fromNode, c.toNode]).addConnection (connectionInput c)

def keepBranch (newGraph : DirectedGraph N) (branch : List (GraphConnection N)) :
    Except GraphError (DirectedGraph N) :=
  branch.foldlM keepConnection newGraph

def nodesOffBranch (g : DirectedGraph N) (branch : List (GraphConnection N)) : List (String × N) :=
  g.nodes.entries.filter fun e => !branch.any (·.toNode = e.2)

theorem nodesOffBranch_lt {g : DirectedGraph N} {branch : List (GraphConnection N)} {c : GraphConnection N}
    (hb : g.Bound c.toNode) (hnew : branch.any (·.toNode = c.toNode) = false) :
    (nodesOffBranch g (branch ++ [c])).length < (nodesOffBranch g branch).length := by
  have hfilter : nodesOffBranch g (branch ++ [c]) = (nodesOffBranch g branch).filter fun e => !(c.toNode = e.2) := by
    rw [nodesOffBranch, nodesOffBranch, List.filter_filter]
    apply List.filter_congr
    intro e _
    simp [List.any_append, Bool.and_comm]
  rw [hfilter]
  refine List.length_filter_lt_length_iff_exists.2 ⟨(name c.toNode, c.toNode), ?_, by simp⟩
  exact List.mem_filter.2 ⟨(ObjectMap.mem_entries _).2 hb, by simpa using hnew⟩

def findSubgraphRecursive (g : DirectedGraph N) (destinationNode trigger current : N) (newGraph : DirectedGraph N)
    (currentBranch : List (GraphConnection N)) : Except GraphError (DirectedGraph N) :=
  if current = trigger then keepBranch (newGraph.addNode trigger) currentBranch
  else
    match _h : g.getDirectParentConnections current with
    | .error e => .error e
    | .ok parentConnections =>
      if parentConnections.length = 0 then .ok newGraph
      else if current = destinationNode ∧ currentBranch.any (·.toNode = destinationNode) = true then .ok newGraph
      else if currentBranch.any (·.toNode = current) = true then keepBranch newGraph currentBranch
      else
        parentConnections.attach.foldlM (fun acc parentConnection =>
          if parentConnection.1.type ≠ "main" then .ok acc
          else
            findSubgraphRecursive g destinationNode trigger parentConnection.1.fromNode acc
              (currentBranch ++ [parentConnection.1])) newGraph
termination_by (nodesOffBranch g currentBranch).length
decreasing_by
  obtain ⟨hb, rfl⟩ := getDirectParentConnections_ok _h
  have hto : parentConnection.1.toNode = current := by simpa using (List.mem_filter.1 parentConnection.2).2
  exact nodesOffBranch_lt (by rw [hto]; exact hb) (by rw [hto]; exact Bool.eq_false_iff.2 ‹¬ currentBranch.any _ =
    true›)

def addSubNodes (g : DirectedGraph N) (subgraph : DirectedGraph N) (node : N) : Except GraphError (DirectedGraph N) :=
  match g.getParentConnections node with
  | .error e => .error e
  | .ok parentConnections =>
    (parentConnections.items.filter fun connection => connection.type ≠ "main").foldlM keepConnection subgraph

def findSubgraph (g : DirectedGraph N) (destination trigger : N) : Except GraphError (DirectedGraph N) :=
  match findSubgraphRecursive g destination trigger destination .empty [] with
  | .error e => .error e
  | .ok subgraph => (subgraph.nodes.entries.map Prod.snd).foldlM (addSubNodes g) subgraph

end Model

section Growth

variable {N : Type} [Named N] {g before middle after : DirectedGraph N} {nodes nodes' : N → Prop}
  {kept kept' : GraphConnection N → Prop} {node : N} {c : GraphConnection N}

structure PartOf (g part : DirectedGraph N) : Prop where
  bound : ∀ {node}, part.Bound node → g.Bound node
  connections : ∀ {key c}, part.connections.get? key = some c → g.connections.get? key = some c
  closed : part.Closed

structure Grows (g before after : DirectedGraph N) (nodes : N → Prop) (kept : GraphConnection N → Prop) : Prop where
  part : PartOf g after
  bound : ∀ node, after.Bound node ↔ before.Bound node ∨ nodes node
  connections : ∀ c, c ∈ after.getConnections ↔ c ∈ before.getConnections ∨ kept c

namespace Grows

theorem refl (h : PartOf g before) : Grows g before before (fun _ => False) fun _ => False :=
  ⟨h, fun _ => by simp, fun _ => by simp⟩

theorem trans (h : Grows g before middle nodes kept) (h' : Grows g middle after nodes' kept') :
    Grows g before after (fun node => nodes node ∨ nodes' node) fun c => kept c ∨ kept' c where
  part := h'.part
  bound node := by rw [h'.bound, h.bound, or_assoc]
  connections c := by rw [h'.connections, h.connections, or_assoc]

theorem congr (h : Grows g before after nodes kept) (hn : ∀ node, nodes node ↔ nodes' node)
    (hk : ∀ c, kept c ↔ kept' c) : Grows g before after nodes' kept' where
  part := h.part
  bound node := (h.bound node).trans (or_congr Iff.rfl (hn node))
  connections c := (h.connections c).trans (or_congr Iff.rfl (hk c))

theorem foldlM {α : Type} {f : DirectedGraph N → α → Except GraphError (DirectedGraph N)} {turnNodes : α → N → Prop}
    {turnKept : α → GraphConnection N → Prop} {as : List α}
    (h : ∀ a ∈ as, ∀ part, PartOf g part → ∃ after, f part a = .ok after ∧
      Grows g part after (turnNodes a) (turnKept a)) (hb : PartOf g before) :
    ∃ after, as.foldlM f before = .ok after ∧
      Grows g before after (fun node => ∃ a ∈ as, turnNodes a node) fun c => ∃ a ∈ as, turnKept a c := by
  refine foldlM_rule (fun pre after => Grows g before after (fun node => ∃ a ∈ pre, turnNodes a node)
    fun c => ∃ a ∈ pre, turnKept a c) ((refl hb).congr (fun node => by simp) fun c => by simp) ?_
  intro pre a hp middle hpre
  obtain ⟨after, ha, hturn⟩ := h a (hp.subset List.mem_concat_self) middle hpre.part
  refine ⟨after, ha, (hpre.trans hturn).congr (fun node => ?_) fun c => ?_⟩
  · simp [or_and_right, exists_or]
  · simp [or_and_right, exists_or]

end Grows

theorem partOf_empty (g : DirectedGraph N) : PartOf g (.empty : DirectedGraph N) :=
  ⟨nofun, nofun, fun _ hc => by cases hc⟩

theorem PartOf.mem (h : PartOf g before) (hc : c ∈ before.getConnections) : c ∈ g.getConnections := by
  obtain ⟨key, hk⟩ := mem_getConnections.1 hc
  exact mem_getConnections.2 ⟨key, h.connections hk⟩

theorem bound_addNode_iff (h : PartOf g before) (hb : g.Bound node) (other : N) :
    (before.addNode node).Bound other ↔ before.Bound other ∨ other = node := by
  rw [DirectedGraph.Bound, addNode, ObjectMap.get?_set, DirectedGraph.Bound]
  split
  · next he =>
    constructor
    · intro hn
      exact .inr (Option.some.inj hn).symm
    · rintro (hn | rfl)
      · exact congrArg some ((h.bound hn).unique hb he).symm
      · rfl
  · next he =>
    refine (or_iff_left ?_).symm
    rintro rfl
    exact he rfl

theorem grows_addNode (h : PartOf g before) (hb : g.Bound node) :
    Grows g before (before.addNode node) (· = node) fun _ => False := by
  have hbound := bound_addNode_iff h hb
  refine ⟨⟨fun hn => ?_, fun hk => h.connections hk, fun c hc => ?_⟩, hbound, fun c => (or_false _).symm.to_iff⟩
  · rcases (hbound _).1 hn with hn | rfl
    · exact h.bound hn
    · exact hb
  · obtain ⟨hf, ht⟩ := h.closed c hc
    exact ⟨(hbound _).2 (.inl hf), (hbound _).2 (.inl ht)⟩

theorem grows_setConnection (h : PartOf g before) (hc : c ∈ g.getConnections) (hf : before.Bound c.fromNode)
    (ht : before.Bound c.toNode) : Grows g before (before.setConnection c) (fun _ => False) (· = c) := by
  have hmem : ∀ d, d ∈ (before.setConnection c).getConnections ↔ d ∈ before.getConnections ∨ d = c := by
    intro d
    refine ⟨fun hd => (mem_setConnection hd).symm, fun hd => mem_getConnections.2 ⟨makeKey d, ?_⟩⟩
    have hinj : ∀ c' ∈ [c], makeKey c' = makeKey d → c' = d := by
      intro c' hc' he
      obtain rfl := List.mem_singleton.1 hc'
      rcases hd with hd | rfl
      · exact makeKey_inj hc (h.mem hd) he
      · rfl
    exact get?_setConnections_of hinj (hd.elim (fun hd => .inr (get?_makeKey hd)) fun hd => .inl (by simp [hd]))
  refine ⟨⟨fun hn => h.bound hn, fun {key d} hk => ?_, fun d hd => ?_⟩, fun node => (or_false _).symm.to_iff, hmem⟩
  · rw [setConnection, ObjectMap.get?_set] at hk
    split at hk
    · next he =>
      cases hk
      rw [he]
      exact get?_makeKey hc
    · exact h.connections hk
  · rcases (hmem d).1 hd with hd | rfl
    · exact h.closed d hd
    · exact ⟨hf, ht⟩

def EndOf (c : GraphConnection N) (node : N) : Prop := node = c.fromNode ∨ node = c.toNode

variable [DecidableEq N]

theorem keepConnection_grows (hg : g.Closed) (h : PartOf g before) (hc : c ∈ g.getConnections) :
    ∃ after, keepConnection before c = .ok after ∧ Grows g before after (EndOf c) (· = c) := by
  obtain ⟨hf, ht⟩ := hg c hc
  have hfirst := grows_addNode h hf
  have hnodes := hfirst.trans (grows_addNode hfirst.part ht)
  have hadded : ∀ node, EndOf c node → ((before.addNode c.fromNode).addNode c.toNode).Bound node :=
    fun node hn => (hnodes.bound node).2 (.inr hn)
  have hset := grows_setConnection hnodes.part hc (hadded _ (.inl rfl)) (hadded _ (.inr rfl))
  refine ⟨_, addConnection_of_bound (hadded _ (.inl rfl)) (hadded _ (.inr rfl)), (hnodes.trans hset).congr ?_ ?_⟩
  · intro node
    simp [EndOf]
  · intro d
    simp

theorem keepBranch_grows (hg : g.Closed) (h : PartOf g before) {branch : List (GraphConnection N)}
    (hbranch : ∀ c ∈ branch, c ∈ g.getConnections) :
    ∃ after, keepBranch before branch = .ok after ∧
      Grows g before after (fun node => ∃ c ∈ branch, EndOf c node) (· ∈ branch) := by
  have hturn := fun c (hc : c ∈ branch) part (hp : PartOf g part) => keepConnection_grows hg hp (hbranch c hc)
  obtain ⟨after, ha, hgrows⟩ := Grows.foldlM hturn h
  exact ⟨after, ha, hgrows.congr (fun _ => Iff.rfl) fun d => by simp⟩

end Growth

section Calls

variable {N : Type} [Named N] {g before : DirectedGraph N} {destination trigger : N}
  {p q : N × List (GraphConnection N)}
  {c : GraphConnection N}

def MainChild (g : DirectedGraph N) (a b : N) : Prop :=
  ∃ c ∈ g.getConnections, c.type = "main" ∧ c.fromNode = a ∧ c.toNode = b

def Revisits (branch : List (GraphConnection N)) (node : N) : Prop := ∃ c ∈ branch, c.toNode = node

def Calls (g : DirectedGraph N) (trigger : N) (p q : N × List (GraphConnection N)) : Prop :=
  p.1 ≠ trigger ∧ ¬ Revisits p.2 p.1 ∧
    ∃ c ∈ g.getConnections, c.toNode = p.1 ∧ c.type = "main" ∧ q = (c.fromNode, p.2 ++ [c])

def KeepsBranch (destination trigger : N) (p : N × List (GraphConnection N)) : Prop :=
  p.1 = trigger ∨ p.1 ≠ destination ∧ Revisits p.2 p.1

def KeepsFrom (g : DirectedGraph N) (destination trigger : N) (p q : N × List (GraphConnection N)) : Prop :=
  ReflTransGen (Calls g trigger) p q ∧ KeepsBranch destination trigger q

/-- The nodes of a branch that is kept; the trigger is kept even if the branch is empty. -/
def KeepsNode (trigger : N) (q : N × List (GraphConnection N)) (node : N) : Prop :=
  q.1 = trigger ∧ node = trigger ∨ ∃ c ∈ q.2, EndOf c node

theorem keepsFrom_last (h : ∀ q, ¬ Calls g trigger p q) :
    KeepsFrom g destination trigger p q ↔ q = p ∧ KeepsBranch destination trigger p := by
  constructor
  · rintro ⟨hr, hq⟩
    rcases ReflTransGen.cases_head hr with rfl | ⟨r, hpr, -⟩
    · exact ⟨rfl, hq⟩
    · exact absurd hpr (h r)
  · rintro ⟨rfl, hp⟩
    exact ⟨.refl, hp⟩

theorem keepsFrom_next (h : ¬ KeepsBranch destination trigger p) :
    KeepsFrom g destination trigger p q ↔ ∃ r, Calls g trigger p r ∧ KeepsFrom g destination trigger r q := by
  constructor
  · rintro ⟨hr, hq⟩
    rcases ReflTransGen.cases_head hr with rfl | ⟨r, hpr, hrq⟩
    · exact absurd hq h
    · exact ⟨r, hpr, hrq, hq⟩
  · rintro ⟨r, hpr, hrq, hq⟩
    exact ⟨.head hpr hrq, hq⟩

variable [DecidableEq N]

omit [Named N] in
theorem revisits_iff {branch : List (GraphConnection N)} {node : N} :
    branch.any (·.toNode = node) = true ↔ Revisits branch node := by
  simp [Revisits]

def CallGrows (g : DirectedGraph N) (destination trigger : N) (p : N × List (GraphConnection N))
    (before : DirectedGraph N) : Prop :=
  ∃ after, findSubgraphRecursive g destination trigger p.1 before p.2 = .ok after ∧
    Grows g before after (fun node => ∃ q, KeepsFrom g destination trigger p q ∧ KeepsNode trigger q node)
      fun c => ∃ q, KeepsFrom g destination trigger p q ∧ c ∈ q.2

omit [DecidableEq N] in
theorem Grows.last {after : DirectedGraph N} {nodes : N → Prop} {kept : GraphConnection N → Prop}
    (h : Grows g before after nodes kept) (hlast : ∀ q, ¬ Calls g trigger p q)
    (hn : ∀ node, nodes node ↔ KeepsBranch destination trigger p ∧ KeepsNode trigger p node)
    (hk : ∀ c, kept c ↔ KeepsBranch destination trigger p ∧ c ∈ p.2) :
    Grows g before after (fun node => ∃ q, KeepsFrom g destination trigger p q ∧ KeepsNode trigger q node)
      fun c => ∃ q, KeepsFrom g destination trigger p q ∧ c ∈ q.2 := by
  refine h.congr (fun node => ?_) fun c => ?_
  · simp only [keepsFrom_last hlast, hn, and_assoc, exists_eq_left]
  · simp only [keepsFrom_last hlast, hk, and_assoc, exists_eq_left]

theorem callGrows_trigger (hg : g.Closed) {branch : List (GraphConnection N)} (hb : g.Bound trigger)
    (hpart : PartOf g before) (hbranch : ∀ c ∈ branch, c ∈ g.getConnections) :
    CallGrows g destination trigger (trigger, branch) before := by
  have hfirst := grows_addNode hpart hb
  obtain ⟨after, ha, hrest⟩ := keepBranch_grows hg hfirst.part hbranch
  refine ⟨after, ?_, (hfirst.trans hrest).last (fun q hq => hq.1 rfl) (fun node => ?_) fun c => ?_⟩
  · rw [findSubgraphRecursive, if_pos rfl]
    exact ha
  · rw [and_iff_right (.inl rfl), KeepsNode, and_iff_right rfl]
  · rw [and_iff_right (.inl rfl), false_or]

theorem callGrows_nothing (hpart : PartOf g before)
    (hr : findSubgraphRecursive g destination trigger p.1 before p.2 = .ok before)
    (hlast : ∀ q, ¬ Calls g trigger p q) (hkeeps : ¬ KeepsBranch destination trigger p) :
    CallGrows g destination trigger p before := by
  refine ⟨before, hr, (Grows.refl hpart).last hlast (fun node => ?_) fun c => ?_⟩
  · exact iff_of_false id fun h => hkeeps h.1
  · exact iff_of_false id fun h => hkeeps h.1

theorem callGrows_parents (hpart : PartOf g before) (htrigger : p.1 ≠ trigger) (hnew : ¬ Revisits p.2 p.1)
    {parents : List (GraphConnection N)} (hparents : ∀ c, c ∈ parents ↔ c ∈ g.getConnections ∧ c.toNode = p.1)
    (hr : findSubgraphRecursive g destination trigger p.1 before p.2 =
      parents.attach.foldlM (fun acc c => if c.1.type ≠ "main" then .ok acc
        else findSubgraphRecursive g destination trigger c.1.fromNode acc (p.2 ++ [c.1])) before)
    (hcalls : ∀ c ∈ parents, c.type = "main" → ∀ part, PartOf g part →
      CallGrows g destination trigger (c.fromNode, p.2 ++ [c]) part) :
    CallGrows g destination trigger p before := by
  have hturn : ∀ c ∈ parents.attach, ∀ part, PartOf g part → ∃ after,
      (if c.1.type ≠ "main" then .ok part
        else findSubgraphRecursive g destination trigger c.1.fromNode part (p.2 ++ [c.1])) = .ok after ∧
      Grows g part after
        (fun node => c.1.type = "main" ∧
          ∃ q, KeepsFrom g destination trigger (c.1.fromNode, p.2 ++ [c.1]) q ∧ KeepsNode trigger q node)
        fun d => c.1.type = "main" ∧
          ∃ q, KeepsFrom g destination trigger (c.1.fromNode, p.2 ++ [c.1]) q ∧ d ∈ q.2 := by
    intro c _ part hp
    by_cases hmain : c.1.type = "main"
    · obtain ⟨after, ha, hgrows⟩ := hcalls c.1 c.2 hmain part hp
      exact ⟨after, (if_neg (not_not.2 hmain)).trans ha,
        hgrows.congr (fun node => (and_iff_right hmain).symm) fun d => (and_iff_right hmain).symm⟩
    · exact ⟨part, if_pos hmain, (Grows.refl hp).congr (fun node => iff_of_false id fun h => hmain h.1)
        fun d => iff_of_false id fun h => hmain h.1⟩
  obtain ⟨after, ha, hgrows⟩ := Grows.foldlM hturn hpart
  have hkeeps : ¬ KeepsBranch destination trigger p := by
    rintro (h | ⟨-, h⟩)
    · exact htrigger h
    · exact hnew h
  have hnext : ∀ P : N × List (GraphConnection N) → Prop,
      (∃ c ∈ parents.attach, c.1.type = "main" ∧
        ∃ q, KeepsFrom g destination trigger (c.1.fromNode, p.2 ++ [c.1]) q ∧ P q) ↔
      ∃ q, KeepsFrom g destination trigger p q ∧ P q := by
    intro P
    constructor
    · rintro ⟨c, -, hmain, q, hq, hP⟩
      obtain ⟨hc, hto⟩ := (hparents c.1).1 c.2
      exact ⟨q, (keepsFrom_next hkeeps).2 ⟨_, ⟨htrigger, hnew, c.1, hc, hto, hmain, rfl⟩, hq⟩, hP⟩
    · rintro ⟨q, hq, hP⟩
      obtain ⟨_, ⟨-, -, c, hc, hto, hmain, rfl⟩, hq⟩ := (keepsFrom_next hkeeps).1 hq
      exact ⟨⟨c, (hparents c).2 ⟨hc, hto⟩⟩, List.mem_attach _ _, hmain, q, hq, hP⟩
  exact ⟨after, hr.trans ha, hgrows.congr (fun node => hnext fun q => KeepsNode trigger q node)
    fun d => hnext fun q => d ∈ q.2⟩

theorem findSubgraphRecursive_parents (destination : N) {current : N} (before : DirectedGraph N)
    (branch : List (GraphConnection N)) {parents : List (GraphConnection N)} (htrigger : current ≠ trigger)
    (hparents : g.getDirectParentConnections current = .ok parents) :
    findSubgraphRecursive g destination trigger current before branch =
      if parents.length = 0 then .ok before
      else if current = destination ∧ branch.any (·.toNode = destination) = true then .ok before
      else if branch.any (·.toNode = current) = true then keepBranch before branch
      else parents.attach.foldlM (fun acc c => if c.1.type ≠ "main" then .ok acc
        else findSubgraphRecursive g destination trigger c.1.fromNode acc (branch ++ [c.1])) before := by
  rw [findSubgraphRecursive, if_neg htrigger]
  split
  · next e he => exact absurd (he.symm.trans hparents) (by simp)
  · next parents' hp =>
    obtain rfl := Except.ok.inj (hp.symm.trans hparents)
    rfl

theorem findSubgraphRecursive_grows (hg : g.Closed) (p : N × List (GraphConnection N)) (before : DirectedGraph N)
    (hcurrent : g.Bound p.1) (hpart : PartOf g before) (hbranch : ∀ c ∈ p.2, c ∈ g.getConnections) :
    CallGrows g destination trigger p before := by
  induction hn : (nodesOffBranch g p.2).length using Nat.strongRecOn generalizing p before with
  | ind n ih =>
    obtain ⟨current, branch⟩ := p
    by_cases htrigger : current = trigger
    · subst htrigger
      exact callGrows_trigger hg hcurrent hpart hbranch
    · have hparents := getDirectParentConnections_of_bound hcurrent
      have hmem : ∀ c, c ∈ g.getConnections.filter (fun c => c.toNode = current) ↔
          c ∈ g.getConnections ∧ c.toNode = current := by
        intro c
        rw [List.mem_filter, decide_eq_true_eq]
      have hrec := findSubgraphRecursive_parents destination before branch htrigger hparents
      by_cases hnone : (g.getConnections.filter fun c => c.toNode = current).length = 0
      · rw [if_pos hnone] at hrec
        have hno : ∀ c ∈ g.getConnections, c.toNode ≠ current := fun c hc hto =>
          List.ne_nil_of_mem ((hmem c).2 ⟨hc, hto⟩) (List.length_eq_zero_iff.1 hnone)
        refine callGrows_nothing hpart hrec (fun q hq => ?_) ?_
        · obtain ⟨-, -, c, hc, hto, -⟩ := hq
          exact hno c hc hto
        · rintro (h | ⟨-, c, hc, hto⟩)
          · exact htrigger h
          · exact hno c (hbranch c hc) hto
      rw [if_neg hnone] at hrec
      by_cases hrevisits : Revisits branch current
      · have hlast : ∀ q, ¬ Calls g trigger (current, branch) q := fun q hq => hq.2.1 hrevisits
        by_cases hdestination : current = destination
        · subst hdestination
          rw [if_pos ⟨rfl, revisits_iff.2 hrevisits⟩] at hrec
          refine callGrows_nothing hpart hrec hlast ?_
          rintro (h | ⟨h, -⟩)
          · exact htrigger h
          · exact h rfl
        · rw [if_neg fun h => hdestination h.1, if_pos (revisits_iff.2 hrevisits)] at hrec
          obtain ⟨after, ha, hgrows⟩ := keepBranch_grows hg hpart hbranch
          have hkeeps : KeepsBranch destination trigger (current, branch) := .inr ⟨hdestination, hrevisits⟩
          refine ⟨after, hrec.trans ha, hgrows.last hlast (fun node => ?_) fun c => ?_⟩
          · rw [and_iff_right hkeeps, KeepsNode, or_iff_right fun h => htrigger h.1]
          · rw [and_iff_right hkeeps]
      · have hnot : ¬ (current = destination ∧ branch.any (·.toNode = destination) = true) := by
          rintro ⟨rfl, h⟩
          exact hrevisits (revisits_iff.1 h)
        rw [if_neg hnot, if_neg fun h => hrevisits (revisits_iff.1 h)] at hrec
        refine callGrows_parents hpart htrigger hrevisits hmem hrec fun c hc _ part hp => ?_
        obtain ⟨hc, hto⟩ := (hmem c).1 hc
        refine ih _ ?_ (c.fromNode, branch ++ [c]) part (hg c hc).1 hp
          (List.forall_mem_append.2 ⟨hbranch, List.forall_mem_singleton.2 hc⟩) rfl
        rw [← hn]
        refine nodesOffBranch_lt (hto.symm ▸ hcurrent) ?_
        rw [hto]
        exact Bool.eq_false_iff.2 fun h => hrevisits (revisits_iff.1 h)

end Calls

end N8n.PartialExecution
