import N8n.PartialExecution.StackFinish

namespace N8n.PartialExecution

open Lib Relation DirectedGraph

section

variable {N : Type} [Named N] [DecidableEq N] {g : DirectedGraph N} {s : ComponentSearch N} {node first x y : N}

/-- The place of a node in the order in which the depth-first search meets the nodes. -/
def DirectedGraph.place (g : DirectedGraph N) (node : N) : Nat := g.traversal.met.items.idxOf node

/-- The first node of a node's component that the depth-first search meets. -/
def FirstMet (g : DirectedGraph N) (node first : N) : Prop :=
  first ∈ g.traversal.met ∧ Mutual g node first ∧
    ∀ other ∈ g.traversal.met, Mutual g node other → g.place first ≤ g.place other

theorem exists_firstMet (g : DirectedGraph N) (hnode : node ∈ g.traversal.met) : ∃ first, FirstMet g node first := by
  obtain ⟨first, ⟨hfirst, hm⟩, hleast⟩ := ComponentSearch.exists_first g.place
    (p := fun other => other ∈ g.traversal.met ∧ Mutual g node other) ⟨hnode, Mutual.refl g node⟩
  exact ⟨first, hfirst, hm, fun other ho hmo => hleast other ⟨ho, hmo⟩⟩

theorem FirstMet.unique {first' : N} (h : FirstMet g node first) (h' : FirstMet g node first') : first = first' :=
  (List.idxOf_inj h.1).1 (Nat.le_antisymm (h.2.2 first' h'.1 h'.2.1) (h'.2.2 first h.1 h.2.1))

theorem FirstMet.of_mutual (h : FirstMet g node first) (hm : Mutual g x node) : FirstMet g x first :=
  ⟨h.1, hm.trans h.2.1, fun y hy hxy => h.2.2 y hy (hm.symm.trans hxy)⟩

/-- The nodes that get stuck on the stack: because a node of their component that is met after them, or they
themselves, do not hear of the first node of the component; because they lead to a stuck node of another component
that is met after them; or because a node that is met after the first node, and that this one leads to, is connected
to a node that got stuck before. -/
inductive Stuck (g : DirectedGraph N) : N → Prop
  | unheard {node first other : N} : FirstMet g node first → Mutual g node other → g.place node ≤ g.place other →
      ¬ Heard g.traversal.followed other first → Stuck g node
  | covered {node first other : N} : FirstMet g node first → ReflTransGen g.Child node other → ¬ Mutual g node other →
      g.place node < g.place other → Stuck g other → Stuck g node
  | blocked {node first source target : N} : FirstMet g node first → ReflTransGen g.Child first source →
      g.place first ≤ g.place source → g.Child source target → g.place target < g.place first → Stuck g target →
      Stuck g node

theorem not_stuck_of_heard (h : ∀ x first, FirstMet g x first → Heard g.traversal.followed x first) (x : N) :
    ¬ Stuck g x := by
  intro hstuck
  induction hstuck with
  | unheard hf hm _ hnot => exact hnot (h _ _ (hf.of_mutual hm.symm))
  | covered _ _ _ _ _ ih => exact ih
  | blocked _ _ _ _ _ _ ih => exact ih

structure FindsUnstuck (g : DirectedGraph N) (sccs : List (OrderedSet N)) : Prop where
  nonempty : ∀ scc ∈ sccs, ∃ x, x ∈ scc
  disjoint : sccs.Pairwise fun scc scc' => ∀ x ∈ scc, ¬ x ∈ scc'
  covers : ∀ x, (∃ scc ∈ sccs, x ∈ scc) ↔ g.Bound x ∧ ¬ Stuck g x
  same : ∀ scc ∈ sccs, ∀ x ∈ scc, ∀ y, y ∈ scc ↔ Mutual g x y ∧ ¬ Stuck g y

namespace ComponentSearch

theorem indexed_empty (g : DirectedGraph N) : Indexed g [] (ComponentSearch.empty : ComponentSearch N) where
  size := rfl
  ids _ _ := ⟨nofun, by intro h; cases h⟩
  lows _ hx := nomatch hx
  bound _ hx := nomatch hx
  on_stack _ hx := nomatch hx
  open_visited _ hx := nomatch hx
  sorted := .nil

theorem stacked_empty (g : DirectedGraph N) : Stacked g [] ComponentSearch.empty Traversal.empty where
  indexed := indexed_empty g
  low_le _ hx := nomatch hx
  heard _ hx := nomatch hx
  rooted _ hs := nomatch hs
  same _ hs := nomatch hs
  different := .nil
  edges _ he := nomatch he
  forward _ he := nomatch he
  sorted_stack := .nil
  leads _ hx := nomatch hx
  closed _ hx := nomatch hx
  anchored _ hx := nomatch hx
  dead _ hx := nomatch hx
  tree _ hx := nomatch hx
  lowered _ he := nomatch he
  low_heard _ hx := nomatch hx
  sourced _ hx := nomatch hx
  live_stacked _ hx := nomatch hx
  mem_stack _ := ⟨fun h => absurd h List.not_mem_nil, fun h => nomatch h.1⟩
  within _ hs := nomatch hs
  found _ hs := nomatch hs
  nonempty _ hs := nomatch hs
  settled _ hx := nomatch hx

section Ended

variable {t : Traversal N}

omit [DecidableEq N] in
theorem not_live_nil (g : DirectedGraph N) (x : N) : ¬ Live g [] x := by
  rintro ⟨y, hy, -⟩
  cases hy

theorem Stacked.leads_visited (hp : Stacked g [] s t) (hx : x ∈ s.visited) (hl : ReflTransGen g.Child x y) :
    y ∈ s.visited := (hp.dead x hx (not_live_nil g x) y hl).1

theorem Indexed.num_eq_place (hi : Indexed g [] s) (hmet : s.visited = g.traversal.met) (hx : x ∈ s.visited) :
    s.num x = g.place x := by
  obtain ⟨hlt, he⟩ := List.getElem?_eq_some_iff.1 (hi.getElem?_num hx)
  have hidx := s.visited.nodup.idxOf_getElem (s.num x) hlt
  rw [he] at hidx
  rw [DirectedGraph.place, ← hmet, hidx]

theorem Indexed.root_iff (hi : Indexed g [] s) (hmet : s.visited = g.traversal.met) :
    Root g s node first ↔ FirstMet g node first := by
  rw [Root, FirstMet, ← hmet]
  refine and_congr_right fun hv => and_congr_right fun _ => forall₂_congr fun y hy => ?_
  rw [hi.num_eq_place hmet hv, hi.num_eq_place hmet hy]

theorem stacked_of_stuck (hp : Stacked g [] s g.traversal) (hmet : s.visited = g.traversal.met) (h : Stuck g x) :
    x ∈ s.stack := by
  have hplace : ∀ {y : N}, y ∈ s.visited → s.num y = g.place y := hp.indexed.num_eq_place hmet
  have hsettled : ∀ {node first : N}, FirstMet g node first →
      node ∈ s.visited ∧ Root g s node first ∧ (Kept g s g.traversal first node → node ∈ s.stack) := by
    intro node first hf
    have hroot := (hp.indexed.root_iff hmet).2 hf
    have hv := hp.leads_visited hroot.1 hroot.2.1.2
    exact ⟨hv, hroot, (hp.settled node hv (not_live_nil g node) first hroot).2⟩
  induction h with
  | unheard hf hm hle hnot =>
    obtain ⟨hv, -, hstacked⟩ := hsettled hf
    have hy := hp.leads_visited hv hm.1
    exact hstacked (.unheard _ hy hm (by rwa [hplace hv, hplace hy]) hnot)
  | covered hf hl hm hlt _ ih =>
    obtain ⟨hv, -, hstacked⟩ := hsettled hf
    exact hstacked (.covered _ ih hl hm (by rwa [hplace hv, hplace (hp.leads_visited hv hl)]))
  | blocked hf hl hle hc hlt _ ih =>
    obtain ⟨-, hroot, hstacked⟩ := hsettled hf
    have hu := hp.leads_visited hroot.1 hl
    exact hstacked (.blocked _ _ hu hl (by rwa [hplace hroot.1, hplace hu]) hc ih
      (by rwa [hplace hroot.1, hplace (hp.indexed.on_stack _ ih)]))

theorem stuck_of_stacked (hp : Stacked g [] s g.traversal) (hmet : s.visited = g.traversal.met) (hx : x ∈ s.stack) :
    Stuck g x := by
  classical
  have hplace : ∀ {y : N}, y ∈ s.visited → s.num y = g.place y := hp.indexed.num_eq_place hmet
  -- A node that is kept by one of another component leads to more nodes than that one.
  induction hn : (s.visited.items.toFinset.filter fun y => ReflTransGen g.Child x y).card using
    Nat.strong_induction_on generalizing x with
  | _ n ih =>
    have hv := hp.indexed.on_stack x hx
    have hfewer : ∀ y, ReflTransGen g.Child x y → ¬ ReflTransGen g.Child y x → y ∈ s.stack → Stuck g y := by
      intro y hxy hyx hy
      refine ih _ (hn ▸ Finset.card_lt_card ((Finset.ssubset_iff_of_subset fun z hz => ?_).2 ⟨x, ?_, ?_⟩)) hy rfl
      · obtain ⟨hzv, hyz⟩ := Finset.mem_filter.1 hz
        exact Finset.mem_filter.2 ⟨hzv, hxy.trans hyz⟩
      · exact Finset.mem_filter.2 ⟨List.mem_toFinset.2 hv, .refl⟩
      · exact fun hmem => hyx (Finset.mem_filter.1 hmem).2
    obtain ⟨root, hroot⟩ := exists_root g hv
    have hf := (hp.indexed.root_iff hmet).1 hroot
    cases (hp.settled x hv (not_live_nil g x) root hroot).1 hx with
    | unheard y hy hm hle hnot => exact .unheard hf hm (by rwa [← hplace hv, ← hplace hy]) hnot
    | covered z hz hl hm hlt =>
      refine .covered hf hl hm (by rwa [← hplace hv, ← hplace (hp.indexed.on_stack z hz)]) ?_
      exact hfewer z hl (fun h => hm ⟨hl, h⟩) hz
    | blocked u w hu hl hle hc hw hlt =>
      have hwv := hp.indexed.on_stack w hw
      refine .blocked hf hl (by rwa [← hplace hroot.1, ← hplace hu]) hc (by rwa [← hplace hroot.1, ← hplace hwv])
        ?_
      have hxw : ReflTransGen g.Child x w := (hroot.2.1.1.trans hl).tail hc
      exact hfewer w hxw (fun h => absurd hlt (Nat.not_lt.2 (hroot.2.2 w hwv ⟨hxw, h⟩))) hw

theorem Popped.unique (hp : Popped g [] s t) {scc scc' : OrderedSet N} (hs : scc ∈ s.stronglyConnectedComponents)
    (hs' : scc' ∈ s.stronglyConnectedComponents) (hx : x ∈ scc) (hy : y ∈ scc') (he : s.low x = s.low y) :
    scc = scc' := by
  have hsymm : Std.Symm fun scc scc' : OrderedSet N => ∀ x ∈ scc, ∀ y ∈ scc', s.low x ≠ s.low y :=
    ⟨fun _ _ h x hx y hy he => h y hy x hx he.symm⟩
  by_contra hne
  exact hp.different.forall hs hs' hne x hx y hy he

theorem Stacked.finds (hp : Stacked g [] s g.traversal) (hmet : s.visited = g.traversal.met)
    (hall : ∀ x, g.Bound x → x ∈ s.visited) : FindsUnstuck g s.stronglyConnectedComponents := by
  have hmem : ∀ x, (∃ scc ∈ s.stronglyConnectedComponents, x ∈ scc) ↔ x ∈ s.visited ∧ ¬ Stuck g x := by
    intro x
    have hstuck : x ∈ s.stack ↔ Stuck g x := ⟨stuck_of_stacked hp hmet, stacked_of_stuck hp hmet⟩
    have hvisited : (∃ scc ∈ s.stronglyConnectedComponents, x ∈ scc) → x ∈ s.visited := by
      rintro ⟨scc, hs, hx⟩
      exact (hp.rooted scc hs x hx).1
    rw [← hstuck, hp.mem_stack x, not_and, not_not]
    exact ⟨fun h => ⟨hvisited h, fun _ => h⟩, fun h => h.2 h.1⟩
  refine ⟨hp.nonempty, hp.different.imp fun h x hx hx' => h x hx x hx' rfl, fun x => ?_, fun scc hs x hx y => ?_⟩
  · rw [hmem x]
    exact and_congr_left fun _ => ⟨hp.indexed.bound x, hall x⟩
  · obtain ⟨root, hroot, hlow⟩ := hp.found scc hs x hx
    constructor
    · intro hy
      obtain ⟨root', hroot', hlow'⟩ := hp.found scc hs y hy
      obtain rfl := hp.indexed.num_inj hroot.1 hroot'.1 (hlow.symm.trans ((hp.same scc hs x hx y hy).trans hlow'))
      exact ⟨hroot.2.1.trans hroot'.2.1.symm, ((hmem y).1 ⟨scc, hs, hy⟩).2⟩
    · rintro ⟨hm, hstuck⟩
      obtain ⟨scc', hs', hy⟩ := (hmem y).2 ⟨hp.leads_visited (hp.rooted scc hs x hx).1 hm.1, hstuck⟩
      obtain ⟨root', hroot', hlow'⟩ := hp.found scc' hs' y hy
      obtain rfl := hroot'.unique hp.indexed (hroot.of_mutual hm.symm)
      exact hp.unique hs hs' hx hy (hlow.trans hlow'.symm) ▸ hy

end Ended

end ComponentSearch

open ComponentSearch in
theorem getStronglyConnectedComponents_unstuck (hg : g.Closed) :
    ∃ sccs, g.getStronglyConnectedComponents = .ok sccs ∧ FindsUnstuck g sccs ∧
      ∀ x, x ∈ g.traversal.met ↔ g.Bound x := by
  obtain ⟨s, hs, hstacked, hmet, hall⟩ := getStronglyConnectedComponents_run hg (stacked_invariant g) (stacked_empty g)
  exact ⟨_, hs, hstacked.finds hmet hall, fun x => hmet ▸ ⟨hstacked.indexed.bound x, hall x⟩⟩

end

variable {N : Type} [Named N] {g : DirectedGraph N} {s : ComponentSearch N} {t : Traversal N} {node : N}

structure FindsComponents (g : DirectedGraph N) (sccs : List (OrderedSet N)) : Prop where
  nonempty : ∀ scc ∈ sccs, ∃ x, x ∈ scc
  disjoint : sccs.Pairwise fun scc scc' => ∀ x ∈ scc, ¬ x ∈ scc'
  covers : ∀ x, g.Bound x ↔ ∃ scc ∈ sccs, x ∈ scc
  same_iff : ∀ a b, g.Bound a → g.Bound b → ((∃ scc ∈ sccs, a ∈ scc ∧ b ∈ scc) ↔ Mutual g a b)

variable [DecidableEq N]

/-- When the depth-first search follows the connections, and each one tells its source what its target has heard of
until then, the node hears of the first node of its component that the search meets. -/
def HearsOfFirst (g : DirectedGraph N) (node : N) : Prop :=
  ∃ (n : Nat) (first : N), g.traversal.met.items[n]? = some first ∧ Mutual g node first ∧
    (∀ (m : Nat) (other : N), g.traversal.met.items[m]? = some other → Mutual g node other → n ≤ m) ∧
    Heard g.traversal.followed node first

theorem hearsOfFirst_iff :
    HearsOfFirst g node ↔ ∃ first, FirstMet g node first ∧ Heard g.traversal.followed node first := by
  have hplace : ∀ {n : Nat} {x : N}, g.traversal.met.items[n]? = some x → g.place x = n := by
    intro n x hn
    obtain ⟨hlt, rfl⟩ := List.getElem?_eq_some_iff.1 hn
    exact g.traversal.met.nodup.idxOf_getElem n hlt
  have hget : ∀ x ∈ g.traversal.met, g.traversal.met.items[g.place x]? = some x := fun x hx =>
    List.getElem?_idxOf hx
  constructor
  · rintro ⟨n, first, hn, hm, hleast, hheard⟩
    refine ⟨first, ⟨List.mem_of_getElem? hn, hm, fun other ho hmo => ?_⟩, hheard⟩
    exact hplace hn ▸ hleast _ other (hget other ho) hmo
  · rintro ⟨first, ⟨hfirst, hm, hleast⟩, hheard⟩
    refine ⟨_, first, hget first hfirst, hm, fun m other ho hmo => ?_, hheard⟩
    exact hplace ho ▸ hleast other (List.mem_of_getElem? ho) hmo

/-- The component search is right just for the graphs where each node hears of the first node of its component. -/
theorem components_found_iff (hg : g.Closed) :
    ∃ sccs, g.getStronglyConnectedComponents = .ok sccs ∧
      (FindsComponents g sccs ↔ ∀ node, g.Bound node → HearsOfFirst g node) := by
  obtain ⟨sccs, hsccs, hfinds, hmet⟩ := getStronglyConnectedComponents_unstuck hg
  refine ⟨sccs, hsccs, fun h node hb => ?_, fun h => ?_⟩
  · obtain ⟨first, hf⟩ := exists_firstMet g ((hmet node).2 hb)
    refine hearsOfFirst_iff.2 ⟨first, hf, ?_⟩
    by_contra hnot
    have hstuck : Stuck g node := .unheard hf (Mutual.refl g node) (Nat.le_refl _) hnot
    exact ((hfinds.covers node).1 ((h.covers node).1 hb)).2 hstuck
  · have hfree : ∀ x, ¬ Stuck g x := not_stuck_of_heard fun x first hf => by
      obtain ⟨first', hf', hheard⟩ := hearsOfFirst_iff.1 (h x (hg.bound_of_leads ((hmet first).1 hf.1) hf.2.1.2))
      exact hf.unique hf' ▸ hheard
    refine ⟨hfinds.nonempty, hfinds.disjoint, fun x => ?_, fun a b ha hb => ?_⟩
    · rw [hfinds.covers x]
      exact (and_iff_left (hfree x)).symm
    · constructor
      · rintro ⟨scc, hs, hma, hmb⟩
        exact ((hfinds.same scc hs a hma b).1 hmb).1
      · intro hm
        obtain ⟨scc, hs, hma⟩ := (hfinds.covers a).2 ⟨ha, hfree a⟩
        exact ⟨scc, hs, hma, (hfinds.same scc hs a hma b).2 ⟨hm, hfree b⟩⟩

/-- Also where the search misses nodes, its sets are apart, and two nodes are in one only if they reach each other. -/
theorem components_sound (hg : g.Closed) : ∃ sccs, g.getStronglyConnectedComponents = .ok sccs ∧
    (∀ scc ∈ sccs, ∃ x, x ∈ scc) ∧ (sccs.Pairwise fun scc scc' => ∀ x ∈ scc, ¬ x ∈ scc') ∧
    ∀ scc ∈ sccs, ∀ a, a ∈ scc → g.Bound a ∧ ∀ b, b ∈ scc → Mutual g a b := by
  obtain ⟨sccs, hsccs, hfinds, -⟩ := getStronglyConnectedComponents_unstuck hg
  refine ⟨sccs, hsccs, hfinds.nonempty, hfinds.disjoint, fun scc hs a ha => ⟨?_, fun b hb => ?_⟩⟩
  · exact ((hfinds.covers a).1 ⟨scc, hs, ha⟩).1
  · exact ((hfinds.same scc hs a ha b).1 hb).1

/-- A loop within a loop: the last node takes over the low id of the middle one before that is lowered. -/
def innerLoopGraph : DirectedGraph INode :=
  (DirectedGraph.empty.addNodes [plainNode "A", plainNode "B", plainNode "C"]).setConnections
    [⟨plainNode "A", plainNode "B", "main", 0, 0⟩, ⟨plainNode "B", plainNode "C", "main", 0, 0⟩,
      ⟨plainNode "C", plainNode "B", "main", 0, 0⟩, ⟨plainNode "B", plainNode "A", "main", 0, 0⟩]

theorem innerLoop_components : innerLoopGraph.getStronglyConnectedComponents = .ok [] := by decide +kernel

theorem innerLoop_missed :
    ¬ ∃ sccs, innerLoopGraph.getStronglyConnectedComponents = .ok sccs ∧ FindsComponents innerLoopGraph sccs := by
  rintro ⟨sccs, hsccs, h⟩
  obtain rfl := Except.ok.inj (hsccs.symm.trans innerLoop_components)
  have hbound : innerLoopGraph.Bound (plainNode "A") := by decide +kernel
  obtain ⟨scc, hs, -⟩ := (h.covers _).1 hbound
  cases hs

def pairGraph : DirectedGraph INode :=
  (DirectedGraph.empty.addNodes [plainNode "A", plainNode "B"]).setConnections
    [⟨plainNode "A", plainNode "B", "main", 0, 0⟩, ⟨plainNode "B", plainNode "A", "main", 0, 0⟩]

theorem pairGraph_mutual : Mutual pairGraph (plainNode "A") (plainNode "B") :=
  ⟨.single ⟨⟨plainNode "A", plainNode "B", "main", 0, 0⟩, by decide +kernel, rfl, rfl⟩,
    .single ⟨⟨plainNode "B", plainNode "A", "main", 0, 0⟩, by decide +kernel, rfl, rfl⟩⟩

theorem components_sound_pair : ∃ sccs, pairGraph.getStronglyConnectedComponents = .ok sccs ∧
    ∀ scc ∈ sccs, ∀ a, a ∈ scc → ∀ b, b ∈ scc → Mutual pairGraph a b := by
  obtain ⟨sccs, hsccs, -, -, hmutual⟩ := components_sound (g := pairGraph) (by decide +kernel)
  exact ⟨sccs, hsccs, fun scc hs a ha => (hmutual scc hs a ha).2⟩

theorem components_found_pair :
    ∃ sccs, pairGraph.getStronglyConnectedComponents = .ok sccs ∧ FindsComponents pairGraph sccs := by
  have hclosed : pairGraph.Closed := by decide +kernel
  obtain ⟨sccs, hsccs, hiff⟩ := components_found_iff hclosed
  refine ⟨sccs, hsccs, hiff.2 fun node hb => ?_⟩
  have hfirst : pairGraph.traversal.met.items[0]? = some (plainNode "A") := by decide +kernel
  have hfollowed : pairGraph.traversal.followed =
      [(plainNode "A", plainNode "B"), (plainNode "B", plainNode "A")] := by decide +kernel
  rcases (by decide +kernel : ∀ node ∈ pairGraph.nodes.entries.map Prod.snd,
    node = plainNode "A" ∨ node = plainNode "B") node (mem_nodes.2 hb) with rfl | rfl
  · exact ⟨0, _, hfirst, Mutual.refl _ _, fun m _ _ _ => Nat.zero_le m, heard_self _ _⟩
  · refine ⟨0, _, hfirst, pairGraph_mutual.symm, fun m _ _ _ => Nat.zero_le m, ?_⟩
    rw [hfollowed]
    exact .inl (.inr ⟨rfl, rfl⟩)

end N8n.PartialExecution
