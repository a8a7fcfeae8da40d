import N8n.Lib.MarkedSearch
import N8n.PartialExecution.DirectedGraph

namespace N8n.PartialExecution

open Lib Relation

namespace DirectedGraph

variable {N : Type} [Named N] [DecidableEq N]

def directChildren (g : DirectedGraph N) (node : N) : Except GraphError (List N) :=
  (g.getDirectChildConnections node).map fun connections => connections.map (·.toNode)

def connectionTargets (g : DirectedGraph N) : List N := g.getConnections.map (·.toNode)

theorem directChildren_ok {g : DirectedGraph N} {node : N} {children : List N}
    (h : g.directChildren node = .ok children) :
    g.Bound node ∧ children = (g.getConnections.filter fun c => c.fromNode = node).map (·.toNode) := by
  rw [directChildren, getDirectChildConnections] at h
  split at h
  · cases h
  · next hb => exact ⟨not_not.1 hb, (Except.ok.inj h).symm⟩

theorem getDirectParentConnections_ok {g : DirectedGraph N} {node : N} {cs : List (GraphConnection N)}
    (h : g.getDirectParentConnections node = .ok cs) :
    g.Bound node ∧ cs = g.getConnections.filter fun c => c.toNode = node := by
  rw [getDirectParentConnections] at h
  split at h
  · cases h
  · next hb => exact ⟨not_not.1 hb, (Except.ok.inj h).symm⟩

theorem directChildren_bounded (g : DirectedGraph N) (node : N) (children : List N)
    (h : g.directChildren node = .ok children) : ∀ child ∈ children, child ∈ g.connectionTargets := by
  intro child hc
  rw [(directChildren_ok h).2] at hc
  obtain ⟨c, hm, rfl⟩ := List.mem_map.1 hc
  exact List.mem_map_of_mem (List.mem_filter.1 hm).1

/-- A child that is in the set already is passed over, and so are its children. -/
def getChildrenRecursive (g : DirectedGraph N) (children : OrderedSet N) : List N → Except GraphError (OrderedSet N) :=
  markAll g.directChildren g.connectionTargets g.directChildren_bounded children

def getChildren (g : DirectedGraph N) (node : N) : Except GraphError (OrderedSet N) :=
  match g.directChildren node with
  | .error e => .error e
  | .ok children => g.getChildrenRecursive .empty children

theorem parentConnections_bounded (g : DirectedGraph N) (c : GraphConnection N) (cs : List (GraphConnection N))
    (h : g.getDirectParentConnections c.fromNode = .ok cs) : ∀ d ∈ cs, d ∈ g.getConnections := by
  intro d hd
  rw [(getDirectParentConnections_ok h).2] at hd
  exact (List.mem_filter.1 hd).1

/-- A connection that is in the set already is passed over, and the search goes on from the source of a new one. -/
def getParentConnectionsRecursive (g : DirectedGraph N) (connections : OrderedSet (GraphConnection N)) :
    List (GraphConnection N) → Except GraphError (OrderedSet (GraphConnection N)) :=
  markAll (fun c => g.getDirectParentConnections c.fromNode) g.getConnections g.parentConnections_bounded connections

def getParentConnections (g : DirectedGraph N) (node : N) : Except GraphError (OrderedSet (GraphConnection N)) :=
  match g.getDirectParentConnections node with
  | .error e => .error e
  | .ok connections => g.getParentConnectionsRecursive .empty connections

def unseen (g : DirectedGraph N) (seen : OrderedSet N) : List (String × N) := g.nodes.entries.filter fun e => e.2 ∉ seen

theorem unseen_lt {g : DirectedGraph N} {seen : OrderedSet N} {node : N} (hb : g.Bound node) (hnew : ¬ node ∈ seen) :
    (g.unseen (seen.insert node)).length < (g.unseen seen).length := by
  have hfilter : g.unseen (seen.insert node) = (g.unseen seen).filter fun e => e.2 ≠ node := by
    rw [unseen, unseen, List.filter_filter]
    apply List.filter_congr
    intro e _
    simp [OrderedSet.mem_insert]
  rw [hfilter]
  refine List.length_filter_lt_length_iff_exists.2 ⟨(name node, node), ?_, by simp⟩
  exact List.mem_filter.2 ⟨(ObjectMap.mem_entries _).2 hb, by simpa using hnew⟩

theorem unseen_mono (g : DirectedGraph N) {seen seen' : OrderedSet N} (h : ∀ node ∈ seen, node ∈ seen') :
    (g.unseen seen').length ≤ (g.unseen seen).length := by
  refine (List.monotone_filter_right _ fun e he => ?_).length_le
  simp only [decide_eq_true_eq] at he ⊢
  exact fun hm => he (h _ hm)

section Reached

variable {g : DirectedGraph N} {node a b : N} {c : GraphConnection N}

omit [DecidableEq N] in
def Child (g : DirectedGraph N) (a b : N) : Prop := ∃ c ∈ g.getConnections, c.fromNode = a ∧ c.toNode = b

theorem getDirectChildConnections_of_bound (h : g.Bound node) :
    g.getDirectChildConnections node = .ok (g.getConnections.filter fun c => c.fromNode = node) := by
  rw [getDirectChildConnections, if_neg (not_not.2 (show g.nodes.get? (name node) = some node from h))]

theorem directChildren_of_bound (h : g.Bound node) :
    ∃ children, g.directChildren node = .ok children ∧ ∀ child, child ∈ children ↔ g.Child node child := by
  refine ⟨(g.getConnections.filter fun c => c.fromNode = node).map (·.toNode), ?_, fun child => ?_⟩
  · rw [directChildren, getDirectChildConnections_of_bound h]
    rfl
  · simp [Child, and_assoc]

theorem getDirectParentConnections_of_bound (h : g.Bound node) :
    g.getDirectParentConnections node = .ok (g.getConnections.filter fun c => c.toNode = node) := by
  rw [getDirectParentConnections, if_neg (not_not.2 (show g.nodes.get? (name node) = some node from h))]

omit [DecidableEq N] in
theorem Closed.child (hg : g.Closed) (h : g.Child a b) : g.Bound a ∧ g.Bound b := by
  obtain ⟨c, hc, rfl, rfl⟩ := h
  exact hg c hc

omit [DecidableEq N] in
theorem Closed.bound_of_leads (hg : g.Closed) (h : g.Bound a) (hl : ReflTransGen g.Child a b) : g.Bound b := by
  cases hl with
  | refl => exact h
  | tail _ hc => exact (hg.child hc).2

theorem finds_children (hg : g.Closed) : Finds g.directChildren a b ↔ g.Child a b := by
  constructor
  · rintro ⟨children, hchildren, hb⟩
    obtain ⟨hbound, -⟩ := directChildren_ok hchildren
    obtain ⟨children', hchildren', hmem⟩ := directChildren_of_bound hbound
    obtain rfl := Except.ok.inj (hchildren.symm.trans hchildren')
    exact (hmem b).1 hb
  · intro h
    obtain ⟨children, hchildren, hmem⟩ := directChildren_of_bound (hg.child h).1
    exact ⟨children, hchildren, (hmem b).2 h⟩

theorem getChildren_ok (hg : g.Closed) (h : g.Bound node) :
    ∃ children, g.getChildren node = .ok children ∧ ∀ child, child ∈ children ↔ TransGen g.Child node child := by
  obtain ⟨first, hfirst, hmem⟩ := directChildren_of_bound h
  have hfinds : Finds g.directChildren = g.Child := by
    funext a b
    exact propext (finds_children hg)
  obtain ⟨children, hchildren⟩ : ∃ children, g.getChildrenRecursive .empty first = .ok children := by
    refine markAll_total fun p hp a ha => ?_
    rw [hfinds] at ha
    have hbound : g.Bound a := by
      cases ha with
      | refl => exact (hg.child ((hmem p).1 hp)).2
      | tail _ hc => exact (hg.child hc).2
    obtain ⟨cs, hcs, -⟩ := directChildren_of_bound hbound
    exact ⟨cs, hcs⟩
  refine ⟨children, ?_, fun child => ?_⟩
  · rw [getChildren, hfirst]
    exact hchildren
  · rw [mem_markAll hchildren, hfinds, TransGen.head'_iff]
    simp only [hmem]

theorem finds_parents (hg : g.Closed) {c d : GraphConnection N} (hc : c ∈ g.getConnections) :
    Finds (fun c => g.getDirectParentConnections c.fromNode) c d ↔ d ∈ g.getConnections ∧ d.toNode = c.fromNode := by
  constructor
  · rintro ⟨cs, hcs, hd⟩
    rw [(getDirectParentConnections_ok hcs).2, List.mem_filter, decide_eq_true_eq] at hd
    exact hd
  · rintro ⟨hd, he⟩
    exact ⟨_, getDirectParentConnections_of_bound (hg c hc).1, List.mem_filter.2 ⟨hd, by simpa using he⟩⟩

theorem ancestors_of_finds (hg : g.Closed) {c d : GraphConnection N} (hc : c ∈ g.getConnections)
    (h : ReflTransGen (Finds fun c => g.getDirectParentConnections c.fromNode) c d) :
    d ∈ g.getConnections ∧ ReflTransGen g.Child d.toNode c.toNode := by
  induction h with
  | refl => exact ⟨hc, .refl⟩
  | tail _ hs ih =>
    obtain ⟨hd, he⟩ := (finds_parents hg ih.1).1 hs
    exact ⟨hd, .head ⟨_, ih.1, he.symm, rfl⟩ ih.2⟩

theorem finds_of_ancestors (hg : g.Closed) (hc : c ∈ g.getConnections) (h : ReflTransGen g.Child c.toNode node) :
    ∃ d ∈ g.getConnections, d.toNode = node ∧
      ReflTransGen (Finds fun c => g.getDirectParentConnections c.fromNode) d c := by
  induction h with
  | refl => exact ⟨c, hc, rfl, .refl⟩
  | tail _ hs ih =>
    obtain ⟨d, hd, he, hr⟩ := ih
    obtain ⟨e, hm, hef, het⟩ := hs
    exact ⟨e, hm, het, .head ((finds_parents hg hm).2 ⟨hd, he.trans hef.symm⟩) hr⟩

theorem getParentConnections_ok (hg : g.Closed) (h : g.Bound node) :
    ∃ connections, g.getParentConnections node = .ok connections ∧
      ∀ c, c ∈ connections ↔ c ∈ g.getConnections ∧ ReflTransGen g.Child c.toNode node := by
  have hfirst := getDirectParentConnections_of_bound h
  have hmem : ∀ c, c ∈ g.getConnections.filter (fun c => c.toNode = node) ↔ c ∈ g.getConnections ∧
    c.toNode = node := by
    intro c
    rw [List.mem_filter, decide_eq_true_eq]
  obtain ⟨connections, hconnections⟩ : ∃ connections,
      g.getParentConnectionsRecursive .empty (g.getConnections.filter fun c => c.toNode = node) = .ok connections :=
    markAll_total fun p hp a ha =>
      ⟨_, getDirectParentConnections_of_bound (hg a (ancestors_of_finds hg ((hmem p).1 hp).1 ha).1).1⟩
  refine ⟨connections, ?_, fun c => ?_⟩
  · rw [getParentConnections, hfirst]
    exact hconnections
  · rw [mem_markAll hconnections]
    constructor
    · rintro ⟨p, hp, hr⟩
      obtain ⟨hp, he⟩ := (hmem p).1 hp
      exact he ▸ ancestors_of_finds hg hp hr
    · rintro ⟨hc, hr⟩
      obtain ⟨d, hd, he, hr⟩ := finds_of_ancestors hg hc hr
      exact ⟨d, (hmem d).2 ⟨hd, he⟩, hr⟩

end Reached

end DirectedGraph

end N8n.PartialExecution
