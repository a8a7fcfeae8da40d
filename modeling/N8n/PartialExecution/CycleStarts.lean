import N8n.PartialExecution.ComponentsFound

namespace N8n.PartialExecution

open Lib Relation

section

variable {N : Type} [Named N] [DecidableEq N]

namespace DirectedGraph

def searchOn (search : OrderedSet N → Except GraphError (Option N × OrderedSet N)) (result : Option N × OrderedSet N) :
    Except GraphError (Option N × OrderedSet N) :=
  match result.1 with
  | some _ => .ok result
  | none => search result.2

/-- The first node that the function is true of, and the nodes seen. The fuel bounds the depth of the recursion; as
much as there are nodes is enough. -/
def depthFirstSearchRecursive (g : DirectedGraph N) (fn : N → Bool) :
    Nat → N → OrderedSet N → Except GraphError (Option N × OrderedSet N)
  | 0, _, seen => .ok (none, seen)
  | fuel + 1, node, seen =>
    if node ∈ seen then .ok (none, seen)
    else if fn node then .ok (some node, seen.insert node)
    else
      match g.directChildren node with
      | .error e => .error e
      | .ok children =>
        children.foldlM (fun result child => searchOn (depthFirstSearchRecursive g fn fuel child) result)
          (none, seen.insert node)

def depthFirstSearch (g : DirectedGraph N) (node : N) (fn : N → Bool) : Except GraphError (Option N) :=
  (g.depthFirstSearchRecursive fn g.nodes.entries.length node .empty).map Prod.fst

/-- The order in which a depth-first search from the node meets the nodes it leads to. -/
def orderFrom (g : DirectedGraph N) (node : N) : List N :=
  (Traversal.visit g.childNodes g.nodes.entries.length node .empty).met.items

def replaceStartNode (g : DirectedGraph N) (trigger startNode : N) (newStartNodes cycle : OrderedSet N) :
    Except GraphError (OrderedSet N) :=
  if startNode ∈ cycle then
    match g.depthFirstSearch trigger fun node => node ∈ cycle with
    | .error e => .error e
    | .ok none =>
      .error (.assertion
        "the trigger must be connected to the cycle, otherwise the cycle wouldn't be part of the subgraph")
    | .ok (some firstNode) => .ok ((newStartNodes.erase startNode).insert firstNode)
  else .ok newStartNodes

def handleCycles (g : DirectedGraph N) (startNodes : OrderedSet N) (trigger : N) : Except GraphError (OrderedSet N) :=
  match g.getStronglyConnectedComponents with
  | .error e => .error e
  | .ok sccs =>
    let cycles := sccs.filter fun cycle => cycle.size ≥ 1
    if cycles.length = 0 then .ok startNodes
    else
      startNodes.items.foldlM
        (fun newStartNodes startNode => cycles.foldlM (g.replaceStartNode trigger startNode) newStartNodes)
          startNodes

section Search

variable {g : DirectedGraph N} {node child trigger x : N} {fn : N → Bool} {fuel : Nat} {t : Traversal N}

def SearchesOn (fn : N → Bool) (t t' : Traversal N) (found : Option N) (result : Option N × OrderedSet N) : Prop :=
  ∃ new, t'.met.items = t.met.items ++ new ∧ result.1 = found.or (new.find? fn) ∧ (result.1 = none → result.2 = t'.met)

theorem searchChildren_spec (hg : g.Closed) (fn : N → Bool) (t : Traversal N)
    (hsearch : ∀ (child : N) (t : Traversal N), g.Bound child →
      ∃ result, g.depthFirstSearchRecursive fn fuel child t.met = .ok result ∧
        SearchesOn fn t (Traversal.visit g.childNodes fuel child t) none result)
    {children : List N} (hchildren : ∀ child ∈ children, g.Child node child) (found : Option N) (seen : OrderedSet N)
    (hseen : found = none → seen = t.met) :
    ∃ result, children.foldlM (fun result child => searchOn (g.depthFirstSearchRecursive fn fuel child) result)
        (found, seen) = .ok result ∧
      SearchesOn fn t
        (children.foldl (fun t child => (Traversal.visit g.childNodes fuel child t).follow node child) t) found
        result := by
  induction children generalizing t found seen with
  | nil => exact ⟨_, rfl, [], by simp, by simp, hseen⟩
  | cons child children ih =>
    obtain ⟨result₁, h₁, new₁, hitems₁, hfound₁, hnone₁⟩ := hsearch child t
      (hg.child (hchildren child List.mem_cons_self)).2
    have hrest := fun c hc => hchildren c (List.mem_cons_of_mem _ hc)
    have hitems₁' :
        ((Traversal.visit g.childNodes fuel child t).follow node child).met.items = t.met.items ++ new₁ := hitems₁
    cases found with
    | some a =>
      obtain ⟨result, h, new, hitems, hfound, hnone⟩ := ih
        ((Traversal.visit g.childNodes fuel child t).follow node child) hrest (some a) seen (by simp)
      refine ⟨result, h, new₁ ++ new, ?_, hfound, hnone⟩
      rw [← List.append_assoc, ← hitems₁']
      exact hitems
    | none =>
      obtain rfl := hseen rfl
      obtain ⟨result, h, new, hitems, hfound, hnone⟩ := ih
        ((Traversal.visit g.childNodes fuel child t).follow node child) hrest result₁.1 result₁.2 hnone₁
      refine ⟨result, ?_, new₁ ++ new, ?_, ?_, hnone⟩
      · rw [List.foldlM_cons]
        exact (congrArg (· >>= _) h₁).trans h
      · rw [← List.append_assoc, ← hitems₁']
        exact hitems
      · rw [hfound, hfound₁, Option.none_or, Option.none_or, List.find?_append]

theorem depthFirstSearchRecursive_spec (hg : g.Closed) (fn : N → Bool) (fuel : Nat) (node : N) (t : Traversal N)
    (hb : g.Bound node) :
    ∃ result, g.depthFirstSearchRecursive fn fuel node t.met = .ok result ∧
      SearchesOn fn t (Traversal.visit g.childNodes fuel node t) none result := by
  induction fuel generalizing node t with
  | zero => exact ⟨_, rfl, [], by rw [List.append_nil, Traversal.visit], rfl, fun _ => rfl⟩
  | succ fuel ih =>
    rw [depthFirstSearchRecursive, Traversal.visit]
    by_cases hseen : node ∈ t.met
    · rw [if_pos hseen, if_pos hseen]
      exact ⟨_, rfl, [], (List.append_nil _).symm, rfl, fun _ => rfl⟩
    · rw [if_neg hseen, if_neg hseen]
      have hitems : (t.meet node).met.items = t.met.items ++ [node] := by
        have hnew : node ∉ t.met.items := hseen
        rw [Traversal.meet, OrderedSet.insert, dif_neg hnew]
      obtain ⟨result, h, new, hnew, hfound, hnone⟩ := searchChildren_spec hg fn (t.meet node) ih
        (fun child hc => mem_childNodes.1 hc) none _ fun _ => rfl
      have hnew' := hnew
      rw [hitems, List.append_assoc] at hnew'
      by_cases hfn : fn node = true
      · rw [if_pos hfn]
        refine ⟨_, rfl, [node] ++ new, hnew', ?_, by simp⟩
        rw [List.singleton_append, List.find?_cons_of_pos hfn]
        rfl
      · rw [if_neg hfn, directChildren_eq hb]
        refine ⟨result, h, [node] ++ new, hnew', ?_, hnone⟩
        rw [hfound, List.singleton_append, List.find?_cons_of_neg hfn]

theorem depthFirstSearch_eq (hg : g.Closed) (fn : N → Bool) (hb : g.Bound node) :
    g.depthFirstSearch node fn = .ok ((g.orderFrom node).find? fn) := by
  obtain ⟨result, h, new, hitems, hfound, -⟩ :=
    depthFirstSearchRecursive_spec hg fn g.nodes.entries.length node .empty hb
  have horder : g.orderFrom node = new := hitems
  rw [Option.none_or] at hfound
  rw [horder, ← hfound, depthFirstSearch]
  exact congrArg (Except.map Prod.fst) h

open ComponentSearch in
theorem mem_orderFrom (hg : g.Closed) (hb : g.Bound node) (hl : ReflTransGen g.Child node x) :
    x ∈ g.orderFrom node := by
  obtain ⟨s, -, hto, hseen⟩ := followNode_visits hg (stacked_invariant g) _ (stacked_empty g) rfl hb (by simp)
    (List.length_filter_le _ _)
  have hx := hto.invariant.leads_visited hseen hl
  rw [hto.met] at hx
  exact hx

end Search

end DirectedGraph

end

open DirectedGraph

variable {N : Type} [Named N] [DecidableEq N] {g : DirectedGraph N} {trigger node first start x : N}

open Classical in
/-- The first node of a node's component that the depth-first search from the trigger meets. -/
def EntersAt (g : DirectedGraph N) (trigger node first : N) : Prop :=
  g.depthFirstSearch trigger (fun other => decide (Mutual g node other)) = .ok (some first)

/-- Each start node is replaced by the first node of its component, so that no cycle is entered at another node than
the one that is started. -/
structure HandlesCycles (g : DirectedGraph N) (trigger : N) (startNodes newStartNodes : OrderedSet N) : Prop where
  image : ∀ node, node ∈ newStartNodes ↔ ∃ start ∈ startNodes, EntersAt g trigger start node
  entered : ∀ node ∈ newStartNodes, ∀ cycle : N → Bool, cycle node = true →
    (∀ other, cycle other = true → Mutual g node other) → g.depthFirstSearch trigger cycle = .ok (some node)

section Enters

omit [Named N] [DecidableEq N] in
theorem find?_of_imp {l : List N} {p q : N → Bool} (h : l.find? p = some x) (hq : q x = true)
    (himp : ∀ y, q y = true → p y = true) : l.find? q = some x := by
  obtain ⟨-, front, back, rfl, hfront⟩ := List.find?_eq_some_iff_append.1 h
  refine List.find?_eq_some_iff_append.2 ⟨hq, front, back, rfl, fun y hy => ?_⟩
  have hp := hfront y hy
  rw [Bool.not_eq_true'] at hp ⊢
  exact Bool.eq_false_iff.2 fun hqy => Bool.eq_false_iff.1 hp (himp y hqy)

open Classical in
theorem entersAt_iff (hg : g.Closed) (hb : g.Bound trigger) :
    EntersAt g trigger node first ↔
      (g.orderFrom trigger).find? (fun other => decide (Mutual g node other)) = some first := by
  rw [EntersAt, depthFirstSearch_eq hg _ hb, Except.ok.injEq]

theorem exists_entersAt (hg : g.Closed) (hb : g.Bound trigger) (hl : ReflTransGen g.Child trigger node) :
    ∃ first, EntersAt g trigger node first := by
  classical
  simp only [entersAt_iff hg hb]
  refine Option.isSome_iff_exists.1 (List.find?_isSome.2 ⟨node, mem_orderFrom hg hb hl, ?_⟩)
  exact decide_eq_true (Mutual.refl g node)

theorem EntersAt.mutual (hg : g.Closed) (hb : g.Bound trigger) (h : EntersAt g trigger node first) :
    Mutual g node first := by
  classical
  have hfound := List.find?_some ((entersAt_iff hg hb).1 h)
  exact of_decide_eq_true hfound

theorem EntersAt.unique {first' : N} (h : EntersAt g trigger node first) (h' : EntersAt g trigger node first') :
    first = first' := Option.some.inj (Except.ok.inj (h.symm.trans h'))

theorem EntersAt.of_mutual (h : EntersAt g trigger node first) (hm : Mutual g x node) :
    EntersAt g trigger x first := by
  classical
  have hsame : (fun other => decide (Mutual g x other)) = fun other => decide (Mutual g node other) := by
    funext other
    exact decide_eq_decide.2 ⟨hm.symm.trans, hm.trans⟩
  rw [EntersAt, hsame]
  exact h

end Enters

section Replaced

def Replaced (g : DirectedGraph N) (trigger : N) (cycles : List (OrderedSet N)) (start node : N) : Prop :=
  (node = start ∧ ∀ cycle ∈ cycles, ¬ start ∈ cycle) ∨
    ∃ cycle ∈ cycles, start ∈ cycle ∧ (g.orderFrom trigger).find? (fun other => other ∈ cycle) = some node

variable {cycles : List (OrderedSet N)} {cycle acc : OrderedSet N}

theorem Replaced.self (h : Replaced g trigger cycles start node) : Replaced g trigger cycles node node := by
  rcases h with ⟨rfl, h⟩ | ⟨cycle, hc, hs, hfind⟩
  · exact .inl ⟨rfl, h⟩
  · have hfound := List.find?_some hfind
    exact .inr ⟨cycle, hc, of_decide_eq_true hfound, hfind⟩

theorem Replaced.unique (hdisjoint : cycles.Pairwise fun cycle cycle' => ∀ x ∈ cycle, ¬ x ∈ cycle') {node' : N}
    (h : Replaced g trigger cycles start node) (h' : Replaced g trigger cycles start node') : node = node' := by
  rcases h with ⟨rfl, h⟩ | ⟨cycle, hc, hs, hfind⟩
  · rcases h' with ⟨rfl, -⟩ | ⟨cycle', hc', hs', -⟩
    · rfl
    · exact absurd hs' (h cycle' hc')
  · rcases h' with ⟨-, h'⟩ | ⟨cycle', hc', hs', hfind'⟩
    · exact absurd hs (h' cycle hc)
    · have hsymm : Std.Symm fun cycle cycle' : OrderedSet N => ∀ x ∈ cycle, ¬ x ∈ cycle' :=
        ⟨fun _ _ h x hx hx' => h x hx' hx⟩
      have he : cycle = cycle' := by
        by_contra hne
        exact hdisjoint.forall hc hc' hne start hs hs'
      exact Option.some.inj (hfind.symm.trans (he ▸ hfind'))

theorem Replaced.mutual (hfinds : FindsUnstuck g cycles) (h : Replaced g trigger cycles start node) :
    Mutual g start node := by
  rcases h with ⟨rfl, -⟩ | ⟨cycle, hc, hs, hfind⟩
  · exact Mutual.refl g node
  · have hfound := List.find?_some hfind
    exact ((hfinds.same cycle hc start hs node).1 (of_decide_eq_true hfound)).1

theorem replaceStartNode_skip (g : DirectedGraph N) (trigger : N) (h : ∀ cycle ∈ cycles, ¬ start ∈ cycle)
    (acc : OrderedSet N) :
    cycles.foldlM (g.replaceStartNode trigger start) acc = .ok acc := by
  induction cycles with
  | nil => rfl
  | cons cycle cycles ih =>
    obtain ⟨hcycle, hcycles⟩ := List.forall_mem_cons.1 h
    rw [List.foldlM_cons, replaceStartNode, if_neg hcycle]
    exact ih hcycles

theorem replaceStartNode_cycles (hg : g.Closed) (hb : g.Bound trigger) (hl : ReflTransGen g.Child trigger start)
    (hdisjoint : cycles.Pairwise fun cycle cycle' => ∀ x ∈ cycle, ¬ x ∈ cycle') (hmem : start ∈ acc) :
    ∃ first acc', cycles.foldlM (g.replaceStartNode trigger start) acc = .ok acc' ∧
      Replaced g trigger cycles start first ∧ ∀ node, node ∈ acc' ↔ node = first ∨ node ∈ acc ∧ node ≠ start := by
  by_cases h : ∃ cycle ∈ cycles, start ∈ cycle
  · obtain ⟨cycle, hc, hs⟩ := h
    obtain ⟨front, back, rfl⟩ := List.append_of_mem hc
    obtain ⟨-, hback, hfront⟩ := List.pairwise_append.1 hdisjoint
    obtain ⟨first, hfind⟩ := Option.isSome_iff_exists.1 (List.find?_isSome (p := fun other => decide (other ∈ cycle)).2
      ⟨start, mem_orderFrom hg hb hl, decide_eq_true hs⟩)
    refine ⟨first, (acc.erase start).insert first, ?_, .inr ⟨cycle, hc, hs, hfind⟩, fun node => ?_⟩
    · have hbefore := replaceStartNode_skip g trigger
        (fun c hc hs' => hfront c hc cycle List.mem_cons_self start hs' hs) acc
      have hafter := replaceStartNode_skip g trigger
        (fun c hc => (List.pairwise_cons.1 hback).1 c hc start hs) ((acc.erase start).insert first)
      have hself : g.replaceStartNode trigger start acc cycle = .ok ((acc.erase start).insert first) := by
        rw [replaceStartNode, if_pos hs, depthFirstSearch_eq hg _ hb, hfind]
      rw [List.foldlM_append, hbefore, ← hafter]
      exact (List.foldlM_cons ..).trans (congrArg (· >>= _) hself)
    · rw [OrderedSet.mem_insert, OrderedSet.mem_erase]
  · have hskip : ∀ cycle ∈ cycles, ¬ start ∈ cycle := fun cycle hc hs => h ⟨cycle, hc, hs⟩
    refine ⟨start, acc, replaceStartNode_skip g trigger hskip acc, .inl ⟨rfl, hskip⟩, fun node => ?_⟩
    by_cases he : node = start
    · simp [he, hmem]
    · simp [he]

theorem replaceStartNodes (hg : g.Closed) (hb : g.Bound trigger)
    (hdisjoint : cycles.Pairwise fun cycle cycle' => ∀ x ∈ cycle, ¬ x ∈ cycle') (acc : OrderedSet N)
    (before : List N) {rest : List N} (hl : ∀ start ∈ rest, ReflTransGen g.Child trigger start) (hnodup : rest.Nodup)
    (hacc : ∀ node, node ∈ acc ↔ node ∈ rest ∨ ∃ start ∈ before, Replaced g trigger cycles start node) :
    ∃ acc', rest.foldlM (fun acc start => cycles.foldlM (g.replaceStartNode trigger start) acc) acc = .ok acc' ∧
      ∀ node, node ∈ acc' ↔ ∃ start ∈ rest ++ before, Replaced g trigger cycles start node := by
  induction rest generalizing acc before with
  | nil => exact ⟨acc, rfl, fun node => (hacc node).trans (by simp)⟩
  | cons start rest ih =>
    obtain ⟨hnew, hnodup⟩ := List.nodup_cons.1 hnodup
    obtain ⟨first, acc₁, h₁, hfirst, hacc₁⟩ := replaceStartNode_cycles hg hb (hl start List.mem_cons_self) hdisjoint
      ((hacc start).2 (.inl List.mem_cons_self))
    obtain ⟨acc', h', hacc'⟩ := ih acc₁ (start :: before)
      (fun x hx => hl x (List.mem_cons_of_mem _ hx)) hnodup fun node => by
        rw [hacc₁, hacc]
        constructor
        · rintro (rfl | ⟨hm | ⟨x, hx, hr⟩, hne⟩)
          · exact .inr ⟨start, List.mem_cons_self, hfirst⟩
          · exact .inl ((List.mem_cons.1 hm).resolve_left hne)
          · exact .inr ⟨x, List.mem_cons_of_mem _ hx, hr⟩
        · rintro (hm | ⟨x, hx, hr⟩)
          · exact .inr ⟨.inl (List.mem_cons_of_mem _ hm), fun he => hnew (he ▸ hm)⟩
          · rcases List.mem_cons.1 hx with rfl | hx
            · exact .inl (hr.unique hdisjoint hfirst)
            · -- A start node that another one was replaced by is replaced by itself.
              by_cases he : node = start
              · exact .inl ((he ▸ hr.self).unique hdisjoint hfirst ▸ he)
              · exact .inr ⟨.inr ⟨x, hx, hr⟩, he⟩
    refine ⟨acc', ?_, fun node => (hacc' node).trans ?_⟩
    · rw [List.foldlM_cons, h₁]
      exact h'
    · simp only [List.mem_append, List.mem_cons]
      constructor
      · rintro ⟨x, hx, hr⟩
        exact ⟨x, by tauto, hr⟩
      · rintro ⟨x, hx, hr⟩
        exact ⟨x, by tauto, hr⟩

theorem handleCycles_ok (hg : g.Closed) (hb : g.Bound trigger) {startNodes : OrderedSet N}
    (hl : ∀ start ∈ startNodes, ReflTransGen g.Child trigger start) :
    ∃ sccs newStartNodes, FindsUnstuck g sccs ∧ g.handleCycles startNodes trigger = .ok newStartNodes ∧
      ∀ node, node ∈ newStartNodes ↔ ∃ start ∈ startNodes, Replaced g trigger sccs start node := by
  obtain ⟨sccs, hsccs, hfinds, -⟩ := getStronglyConnectedComponents_unstuck hg
  have hcycles : sccs.filter (fun cycle => cycle.size ≥ 1) = sccs := by
    refine List.filter_eq_self.2 fun cycle hc => decide_eq_true ?_
    obtain ⟨x, hx⟩ := hfinds.nonempty cycle hc
    exact List.length_pos_of_mem hx
  obtain ⟨newStartNodes, hnew, hmem⟩ := replaceStartNodes hg hb hfinds.disjoint startNodes [] hl
    startNodes.nodup fun node => by simp [OrderedSet.mem_items]
  rw [List.append_nil] at hmem
  refine ⟨sccs, newStartNodes, hfinds, ?_, hmem⟩
  rw [handleCycles, hsccs]
  dsimp only
  rw [hcycles]
  split
  · next hnone =>
    -- Without cycles the loops would do nothing.
    obtain rfl := List.eq_nil_of_length_eq_zero hnone
    have hnothing : ∀ (starts : List N) (acc : OrderedSet N),
        starts.foldlM (fun acc start => [].foldlM (g.replaceStartNode trigger start) acc) acc = .ok acc := by
      intro starts
      induction starts with
      | nil => exact fun acc => rfl
      | cons start starts ih => exact fun acc => ih acc
    rw [← hnew]
    exact (hnothing startNodes.items startNodes).symm
  · exact hnew

theorem replaced_eq_iff (hg : g.Closed) (hb : g.Bound trigger) {sccs : List (OrderedSet N)}
    (hfinds : FindsUnstuck g sccs) (hl : ReflTransGen g.Child trigger start)
    (hr : Replaced g trigger sccs start node) (hf : EntersAt g trigger start first) :
    node = first ↔ start = first ∨ ¬ Stuck g start ∧ ¬ Stuck g first := by
  classical
  rcases hr with ⟨rfl, hnone⟩ | ⟨cycle, hc, hs, hfind⟩
  · have hstuck : Stuck g node := by
      by_contra hfree
      obtain ⟨cycle, hc, hs⟩ := (hfinds.covers node).2 ⟨hg.bound_of_leads hb hl, hfree⟩
      exact hnone cycle hc hs
    exact (or_iff_left fun h => h.1 hstuck).symm
  · have hmem := hfinds.same cycle hc start hs
    have hstart : ¬ Stuck g start := ((hmem start).1 hs).2
    have henters : first ∈ cycle → node = first := by
      intro hfirst
      have hfind' := find?_of_imp (q := fun other => decide (other ∈ cycle)) ((entersAt_iff hg hb).1 hf)
        (decide_eq_true hfirst) fun y hy => decide_eq_true ((hmem y).1 (of_decide_eq_true hy)).1
      exact Option.some.inj (hfind.symm.trans hfind')
    constructor
    · rintro rfl
      have hfound := List.find?_some hfind
      exact .inr ⟨hstart, ((hmem node).1 (of_decide_eq_true hfound)).2⟩
    · rintro (rfl | ⟨-, hfirst⟩)
      · exact henters hs
      · exact henters ((hmem first).2 ⟨hf.mutual hg hb, hfirst⟩)

end Replaced

/-- The start nodes are moved right just if each one is the first node of its component, or neither of these two gets
stuck in the component search. -/
theorem cycles_handled_iff (hg : g.Closed) (hb : g.Bound trigger) {startNodes : OrderedSet N}
    (hl : ∀ start ∈ startNodes, ReflTransGen g.Child trigger start) :
    ∃ newStartNodes, g.handleCycles startNodes trigger = .ok newStartNodes ∧
      (HandlesCycles g trigger startNodes newStartNodes ↔ ∀ start ∈ startNodes, ∀ first,
        EntersAt g trigger start first → start = first ∨ ¬ Stuck g start ∧ ¬ Stuck g first) := by
  classical
  obtain ⟨sccs, newStartNodes, hfinds, hnew, hmem⟩ := handleCycles_ok hg hb hl
  have hreplaced : ∀ start ∈ startNodes, ∃ node, Replaced g trigger sccs start node := by
    intro start hs
    obtain ⟨node, -, -, hr, -⟩ := replaceStartNode_cycles hg hb (hl start hs) hfinds.disjoint hs
    exact ⟨node, hr⟩
  refine ⟨newStartNodes, hnew, fun h start hs first hf => ?_, fun h => ⟨fun node => ?_, fun node hn => ?_⟩⟩
  · obtain ⟨node, hr⟩ := hreplaced start hs
    obtain ⟨start', -, hf'⟩ := (h.image node).1 ((hmem node).2 ⟨start, hs, hr⟩)
    -- The node that the start node is replaced by is the first one of a component, which is its own.
    have hm : Mutual g start start' := (hr.mutual hfinds).trans (hf'.mutual hg hb).symm
    exact (replaced_eq_iff hg hb hfinds (hl start hs) hr hf).1 ((hf'.of_mutual hm).unique hf)
  · rw [hmem]
    constructor
    · rintro ⟨start, hs, hr⟩
      obtain ⟨first, hf⟩ := exists_entersAt hg hb (hl start hs)
      exact ⟨start, hs, (replaced_eq_iff hg hb hfinds (hl start hs) hr hf).2 (h start hs first hf) ▸ hf⟩
    · rintro ⟨start, hs, hf⟩
      obtain ⟨node', hr⟩ := hreplaced start hs
      exact ⟨start, hs, (replaced_eq_iff hg hb hfinds (hl start hs) hr hf).2 (h start hs node hf) ▸ hr⟩
  · intro cycle hself hcycle
    obtain ⟨start, hs, hr⟩ := (hmem node).1 hn
    obtain ⟨first, hf⟩ := exists_entersAt hg hb (hl start hs)
    obtain rfl := (replaced_eq_iff hg hb hfinds (hl start hs) hr hf).2 (h start hs first hf)
    have henters := (entersAt_iff hg hb).1 (hf.of_mutual (hf.mutual hg hb).symm)
    rw [depthFirstSearch_eq hg _ hb]
    exact congrArg _ (find?_of_imp henters hself fun other ho => decide_eq_true (hcycle other ho))

def startedLoopGraph : DirectedGraph INode :=
  (DirectedGraph.empty.addNodes [plainNode "T", plainNode "A", plainNode "B", plainNode "C"]).setConnections
    [⟨plainNode "T", plainNode "A", "main", 0, 0⟩, ⟨plainNode "A", plainNode "B", "main", 0, 0⟩,
      ⟨plainNode "B", plainNode "C", "main", 0, 0⟩, ⟨plainNode "C", plainNode "B", "main", 0, 0⟩,
      ⟨plainNode "B", plainNode "A", "main", 0, 0⟩]

theorem startedLoopGraph_child (a b : String)
    (h : ⟨plainNode a, plainNode b, "main", 0, 0⟩ ∈ startedLoopGraph.getConnections) :
    startedLoopGraph.Child (plainNode a) (plainNode b) := ⟨_, h, rfl, rfl⟩

/-- The last node of the inner loop stays a start node, though the search enters its loop two nodes before. -/
theorem startedLoop_unmoved :
    ¬ ∃ newStartNodes, startedLoopGraph.handleCycles (.ofList [plainNode "C"]) (plainNode "T") = .ok newStartNodes ∧
      HandlesCycles startedLoopGraph (plainNode "T") (.ofList [plainNode "C"]) newStartNodes := by
  rintro ⟨newStartNodes, hnew, h⟩
  have hsame : startedLoopGraph.handleCycles (.ofList [plainNode "C"]) (plainNode "T") =
      .ok (.ofList [plainNode "C"]) := by decide +kernel
  obtain rfl := Except.ok.inj (hnew.symm.trans hsame)
  have hab := startedLoopGraph_child "A" "B" (by decide +kernel)
  have hba := startedLoopGraph_child "B" "A" (by decide +kernel)
  have hbc := startedLoopGraph_child "B" "C" (by decide +kernel)
  have hcb := startedLoopGraph_child "C" "B" (by decide +kernel)
  have hfound := h.entered (plainNode "C") (by decide +kernel)
    (fun other => other = plainNode "A" ∨ other = plainNode "C") (by decide +kernel) fun other ho => by
      rcases of_decide_eq_true ho with rfl | rfl
      · exact ⟨.head hcb (.single hba), .head hab (.single hbc)⟩
      · exact Mutual.refl _ _
  have hfirst : startedLoopGraph.depthFirstSearch (plainNode "T")
      (fun other => other = plainNode "A" ∨ other = plainNode "C") = .ok (some (plainNode "A")) := by decide +kernel
  rw [hfirst] at hfound
  exact absurd hfound (by decide +kernel)

def startedPairGraph : DirectedGraph INode :=
  (DirectedGraph.empty.addNodes [plainNode "T", plainNode "A", plainNode "B"]).setConnections
    [⟨plainNode "T", plainNode "A", "main", 0, 0⟩, ⟨plainNode "A", plainNode "B", "main", 0, 0⟩,
      ⟨plainNode "B", plainNode "A", "main", 0, 0⟩]

theorem startedPairGraph_free (x : INode) : ¬ Stuck startedPairGraph x := by
  have hchild : ∀ a b, ⟨plainNode a, plainNode b, "main", 0, 0⟩ ∈ startedPairGraph.getConnections →
      startedPairGraph.Child (plainNode a) (plainNode b) := fun a b h => ⟨_, h, rfl, rfl⟩
  have hab := hchild "A" "B" (by decide +kernel)
  have hba := hchild "B" "A" (by decide +kernel)
  have hclosed : startedPairGraph.Closed := by decide +kernel
  have hmet : startedPairGraph.traversal.met.items = [plainNode "T", plainNode "A", plainNode "B"] := by decide +kernel
  have hfollowed : startedPairGraph.traversal.followed = [(plainNode "T", plainNode "A"),
    (plainNode "A", plainNode "B"), (plainNode "B", plainNode "A")] := by decide +kernel
  have hsource : ∀ c ∈ startedPairGraph.getConnections, c.toNode ≠ plainNode "T" := by decide +kernel
  have hlater : ¬ startedPairGraph.place (plainNode "B") ≤ startedPairGraph.place (plainNode "A") := by decide +kernel
  refine not_stuck_of_heard (fun x first hf => ?_) x
  obtain ⟨hfirst, hm, hleast⟩ := hf
  have hcases : first = plainNode "T" ∨ first = plainNode "A" ∨ first = plainNode "B" := by
    have hmem : first ∈ startedPairGraph.traversal.met.items := hfirst
    simpa [hmet] using hmem
  rcases hcases with rfl | rfl | rfl
  · cases hm.1 with
    | refl => exact heard_self _ _
    | tail _ hc =>
      obtain ⟨c, hc, -, he⟩ := hc
      exact absurd he (hsource c hc)
  · have hb : startedPairGraph.Bound x := hclosed.bound_of_leads (hclosed.child hab).1 hm.2
    rw [hfollowed]
    rcases (by decide +kernel : ∀ node ∈ startedPairGraph.nodes.entries.map Prod.snd,
      node = plainNode "T" ∨ node = plainNode "A" ∨ node = plainNode "B") x (mem_nodes.2 hb) with rfl | rfl | rfl
    · exact .inr ⟨rfl, heard_self _ _⟩
    · exact heard_self _ _
    · exact .inl (.inl (.inr ⟨rfl, rfl⟩))
  · have hmem : plainNode "A" ∈ startedPairGraph.traversal.met := by decide +kernel
    exact absurd (hleast _ hmem (hm.trans ⟨.single hba, .single hab⟩)) hlater

/-- The second node of the loop is replaced by the first. -/
theorem cycles_handled_pair :
    ∃ newStartNodes, startedPairGraph.handleCycles (.ofList [plainNode "B"]) (plainNode "T") = .ok newStartNodes ∧
      HandlesCycles startedPairGraph (plainNode "T") (.ofList [plainNode "B"]) newStartNodes := by
  have hclosed : startedPairGraph.Closed := by decide +kernel
  have hbound : startedPairGraph.Bound (plainNode "T") := by decide +kernel
  have hchild : ∀ a b, ⟨plainNode a, plainNode b, "main", 0, 0⟩ ∈ startedPairGraph.getConnections →
      startedPairGraph.Child (plainNode a) (plainNode b) := fun a b h => ⟨_, h, rfl, rfl⟩
  obtain ⟨newStartNodes, hnew, hiff⟩ := @cycles_handled_iff _ _ _ _ _ hclosed hbound
    (.ofList [plainNode "B"]) fun start hs => by
      obtain rfl := List.mem_singleton.1 (OrderedSet.mem_ofList.1 hs)
      exact .head (hchild "T" "A" (by decide +kernel)) (.single (hchild "A" "B" (by decide +kernel)))
  exact ⟨newStartNodes, hnew, hiff.2 fun start _ first _ =>
    .inr ⟨startedPairGraph_free start, startedPairGraph_free first⟩⟩

end N8n.PartialExecution
