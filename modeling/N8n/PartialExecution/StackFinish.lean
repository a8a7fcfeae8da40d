import N8n.PartialExecution.SearchStack

namespace N8n.PartialExecution

open Lib Relation DirectedGraph

variable {N : Type} {x : N}

theorem mem_takeWhile_of_sorted {f : N → Nat} {p : N → Bool} {l : List N} (h : l.Pairwise fun x y => f y < f x) :
    x ∈ l.takeWhile p ↔ x ∈ l ∧ ∀ y ∈ l, f x ≤ f y → p y = true := by
  induction l with
  | nil => simp
  | cons z l ih =>
    obtain ⟨hz, hl⟩ := List.pairwise_cons.1 h
    by_cases hp : p z = true
    · rw [List.takeWhile_cons_of_pos hp, List.mem_cons, List.mem_cons, ih hl]
      constructor
      · rintro (rfl | ⟨hx, hall⟩)
        · exact ⟨.inl rfl, List.forall_mem_cons.2 ⟨fun _ => hp, fun y hy hle => absurd (hz y hy) (Nat.not_lt.2 hle)⟩⟩
        · exact ⟨.inr hx, List.forall_mem_cons.2 ⟨fun _ => hp, hall⟩⟩
      · rintro ⟨rfl | hx, hall⟩
        · exact .inl rfl
        · exact .inr ⟨hx, (List.forall_mem_cons.1 hall).2⟩
    · rw [List.takeWhile_cons_of_neg hp]
      refine iff_of_false List.not_mem_nil ?_
      rintro ⟨hx, hall⟩
      refine hp (hall z List.mem_cons_self ?_)
      rcases List.mem_cons.1 hx with rfl | hx
      · exact Nat.le_refl _
      · exact (hz x hx).le

theorem mem_dropWhile_of_nodup {p : N → Bool} {l : List N} (h : l.Nodup) :
    x ∈ l.dropWhile p ↔ x ∈ l ∧ x ∉ l.takeWhile p := by
  have happend : l.takeWhile p ++ l.dropWhile p = l := List.takeWhile_append_dropWhile
  have hdisjoint := List.disjoint_of_nodup_append (happend.symm ▸ h)
  constructor
  · intro hx
    exact ⟨(List.dropWhile_sublist p).subset hx, fun hm => hdisjoint hm hx⟩
  · rintro ⟨hx, hm⟩
    rw [← happend] at hx
    exact (List.mem_append.1 hx).resolve_left hm

namespace ComponentSearch

variable [Named N] [DecidableEq N] {g : DirectedGraph N} {opened : List N} {s : ComponentSearch N} {t : Traversal N}
  {node root : N}

section Above

theorem Stacked.not_opened (hp : Stacked g (node :: opened) s t) (hle : s.num node ≤ s.num x) : x ∉ opened :=
  fun h => absurd ((List.pairwise_cons.1 hp.indexed.sorted).1 x h) (Nat.not_lt.2 hle)

theorem Stacked.closed_leave (hp : Stacked g (node :: opened) s t)
    (hchildren : ∀ child, g.Child node child → child ∈ s.visited ∧ (node, child) ∈ t.followed) (hx : x ∈ s.visited)
    (hm : x ∉ opened) {y : N} (hc : g.Child x y) : y ∈ s.visited ∧ (x, y) ∈ t.followed := by
  by_cases he : x = node
  · exact he ▸ hchildren y (he ▸ hc)
  · exact hp.closed x hx (List.not_mem_cons_of_ne_of_not_mem he hm) y hc

theorem Stacked.followed_above (hp : Stacked g (node :: opened) s t)
    (hchildren : ∀ child, g.Child node child → child ∈ s.visited ∧ (node, child) ∈ t.followed) {y : N}
    (hx : x ∈ s.visited) (hle : s.num node ≤ s.num x) (hc : g.Child x y) : y ∈ s.visited ∧ (x, y) ∈ t.followed :=
  hp.closed_leave hchildren hx (hp.not_opened hle) hc

theorem Stacked.stacked_of_low_lt {y : N} (hp : Stacked g opened s t) (hx : x ∈ s.visited) (hy : y ∈ opened)
    (hle : s.num y ≤ s.num x) (hlt : s.low x < s.num y) : x ∈ s.stack := by
  refine (hp.mem_stack x).2 ⟨hx, ?_⟩
  rintro ⟨scc, hs, hm⟩
  exact absurd hlt (Nat.not_lt.2 (hp.within scc hs x hm y hy hle))

theorem Stacked.low_le_above (hp : Stacked g (node :: opened) s t)
    (hchildren : ∀ child, g.Child node child → child ∈ s.visited ∧ (node, child) ∈ t.followed) (hx : x ∈ s.stack)
    (hle : s.num node ≤ s.num x) : s.low node ≤ s.low x := by
  have hnode := hp.indexed.open_visited node List.mem_cons_self
  -- The low id comes down to the node along the tree of the search.
  induction hn : s.num x using Nat.strong_induction_on generalizing x with
  | _ n ih =>
    by_cases hlow : s.num node ≤ s.low x
    · exact (hp.low_le node hnode).trans hlow
    · by_cases he : x = node
      · rw [he]
      · have hxv := hp.indexed.on_stack x hx
        have hlt : s.num node < s.num x :=
          Nat.lt_of_le_of_ne hle fun h => he (hp.indexed.num_inj hxv hnode h.symm)
        obtain ⟨parent, hpv, hple, hplt, hc, -⟩ := hp.tree x hxv node List.mem_cons_self hlt
        have hplow := (hp.lowered _ (hp.followed_above hchildren hpv hple hc).2 hx).2 hplt
        have hps := hp.stacked_of_low_lt hpv List.mem_cons_self hple (hplow.trans_lt (Nat.not_le.1 hlow))
        exact (ih _ (hn ▸ hplt) hps hple rfl).trans hplow

theorem Stacked.mutual_of_low (hp : Stacked g (node :: opened) s t) (hx : x ∈ s.visited) (he : s.low x = s.num node) :
    Mutual g node x ∧ Heard t.followed x node := by
  have hnode := hp.indexed.open_visited node List.mem_cons_self
  obtain ⟨y, hy, hnum, hheard⟩ := hp.heard x hx
  obtain rfl := hp.indexed.num_inj hy hnode (hnum.trans he)
  have hback := leads_of_heard hheard fun e h => (hp.edges e h).2.2
  exact ⟨⟨hp.leads y List.mem_cons_self x hx (he ▸ hp.low_le x hx), hback⟩, hheard⟩

theorem Stacked.root_of_not_live (hp : Stacked g (node :: opened) s t) (h : ¬ Live g opened node) :
    Root g s node node := by
  refine ⟨hp.indexed.open_visited node List.mem_cons_self, Mutual.refl g node, fun y hy hm => ?_⟩
  obtain ⟨z, hz, hle, hmz⟩ := hp.anchored y hy ⟨node, List.mem_cons_self, hm.symm⟩
  rcases List.mem_cons.1 hz with rfl | hz
  · exact hle
  · exact absurd ⟨z, hz, hm.trans hmz⟩ h

theorem Stacked.not_live_of_low (hp : Stacked g (node :: opened) s t)
    (hchildren : ∀ child, g.Child node child → child ∈ s.visited ∧ (node, child) ∈ t.followed)
    (he : s.num node = s.low node) : ¬ Live g opened node := by
  rintro ⟨y, hy, hm⟩
  have hnode := hp.indexed.open_visited node List.mem_cons_self
  have hlt : s.num y < s.num node := (List.pairwise_cons.1 hp.indexed.sorted).1 y hy
  -- The path to the node opened before leaves what was visited since by an edge that lowers the low id.
  obtain ⟨c, d, ⟨hc, hle⟩, hd, hstep, hnc, hdy⟩ := exists_leaving
    (P := fun z => z ∈ s.visited ∧ s.num node ≤ s.num z) hm.1 ⟨hnode, Nat.le_refl _⟩ fun h => Nat.not_lt.2 h.2 hlt
  obtain ⟨hdv, hfollowed⟩ := hp.followed_above hchildren hc hle hstep
  have hdlt : s.num d < s.num node := Nat.not_le.1 fun h => hd ⟨hdv, h⟩
  have hds : d ∈ s.stack :=
    hp.live_stacked d hdv ⟨y, List.mem_cons_of_mem _ hy, hdy, hm.2.trans (hnc.tail hstep)⟩
  have hlow : s.low c < s.num node := ((hp.lowered _ hfollowed hds).1).trans_lt hdlt
  have hcs := hp.stacked_of_low_lt hc List.mem_cons_self hle hlow
  exact absurd hlow (Nat.not_lt.2 (he ▸ hp.low_le_above hchildren hcs hle))

theorem Stacked.visited_of_leads (hp : Stacked g (node :: opened) s t)
    (hchildren : ∀ child, g.Child node child → child ∈ s.visited ∧ (node, child) ∈ t.followed)
    (h : ¬ Live g opened node) (hl : ReflTransGen g.Child node x) : x ∈ s.visited := by
  have hnode := hp.indexed.open_visited node List.mem_cons_self
  by_contra hx
  obtain ⟨c, d, hc, hd, hstep, hnc, -⟩ := exists_leaving (P := fun z => z ∈ s.visited) hl hnode hx
  refine hd ?_
  rcases Nat.lt_or_ge (s.num c) (s.num node) with hlt | hge
  · refine (hp.closed c hc (fun hm => ?_) d hstep).1
    have hcn := hp.leads c hm node hnode hlt.le
    rcases List.mem_cons.1 hm with rfl | hm
    · exact Nat.lt_irrefl _ hlt
    · exact h ⟨c, hm, hnc, hcn⟩
  · exact (hp.followed_above hchildren hc hge hstep).1

end Above

section Leave

theorem Stacked.anchored_leave (hp : Stacked g (node :: opened) s t) (hx : x ∈ s.visited) (h : Live g opened x) :
    ∃ y ∈ opened, s.num y ≤ s.num x ∧ Mutual g x y := by
  obtain ⟨y, hy, hle, hm⟩ := hp.anchored x hx h.cons
  rcases List.mem_cons.1 hy with rfl | hy
  · obtain ⟨z, hz, hmz⟩ := h
    exact ⟨z, hz, ((List.pairwise_cons.1 hp.indexed.sorted).1 z hz).le.trans hle, hmz⟩
  · exact ⟨y, hy, hle, hm⟩

theorem Stacked.dead_leave (hp : Stacked g (node :: opened) s t)
    (hchildren : ∀ child, g.Child node child → child ∈ s.visited ∧ (node, child) ∈ t.followed) (hx : x ∈ s.visited)
    (h : ¬ Live g opened x) {y : N} (hl : ReflTransGen g.Child x y) : y ∈ s.visited ∧ ¬ Live g opened y := by
  by_cases hlive : Live g (node :: opened) x
  · have hm := (live_cons.1 hlive).resolve_right h
    have hnode : ¬ Live g opened node := fun hn => h (hn.of_mutual hm)
    refine ⟨hp.visited_of_leads hchildren hnode (hm.2.trans hl), ?_⟩
    rintro ⟨z, hz, hyz⟩
    have hzn := hp.leads z (List.mem_cons_of_mem _ hz) node (hp.indexed.open_visited node List.mem_cons_self)
      ((List.pairwise_cons.1 hp.indexed.sorted).1 z hz).le
    exact hnode ⟨z, hz, (hm.2.trans hl).trans hyz.1, hzn⟩
  · obtain ⟨hy, hdead⟩ := hp.dead x hx hlive y hl
    exact ⟨hy, fun hy' => hdead hy'.cons⟩

theorem Stacked.tree_leave (hp : Stacked g (node :: opened) s t)
    (hchildren : ∀ child, g.Child node child → child ∈ s.visited ∧ (node, child) ∈ t.followed) (hx : x ∈ s.visited)
    {y : N} (hy : y ∈ opened) (hlt : s.num y < s.num x) : ∃ parent ∈ s.visited, s.num y ≤ s.num parent ∧
      s.num parent < s.num x ∧ g.Child parent x ∧ ((parent, x) ∈ t.followed ∨ parent ∈ opened) := by
  obtain ⟨parent, hpv, hle, hplt, hc, hor⟩ := hp.tree x hx y (List.mem_cons_of_mem _ hy) hlt
  refine ⟨parent, hpv, hle, hplt, hc, ?_⟩
  by_cases hm : parent ∈ opened
  · exact .inr hm
  · exact .inl (hp.closed_leave hchildren hpv hm hc).2

theorem Stacked.finish_stay (hp : Stacked g (node :: opened) s t)
    (hchildren : ∀ child, g.Child node child → child ∈ s.visited ∧ (node, child) ∈ t.followed)
    (hne : s.num node ≠ s.low node) (hpopped : Popped g opened s t) : Stacked g opened s t := by
  have hnode := hp.indexed.open_visited node List.mem_cons_self
  refine
    { hpopped with
      edges := hp.edges
      forward := fun e he h => List.not_mem_of_not_mem_cons (hp.forward e he h)
      sorted_stack := hp.sorted_stack
      leads := fun x hx => hp.leads x (List.mem_cons_of_mem _ hx)
      closed := fun x hx hm y => hp.closed_leave hchildren hx hm
      anchored := fun x => hp.anchored_leave
      dead := fun x hx h y => hp.dead_leave hchildren hx h
      tree := fun x hx y => hp.tree_leave hchildren hx
      lowered := hp.lowered
      low_heard := hp.low_heard
      sourced := hp.sourced
      live_stacked := fun x hx h => hp.live_stacked x hx h.cons
      mem_stack := hp.mem_stack
      within := fun scc hs x hx y hy => hp.within scc hs x hx y (List.mem_cons_of_mem _ hy)
      found := hp.found
      nonempty := hp.nonempty
      settled := fun x hx h root hroot => ?_ }
  by_cases hlive : Live g (node :: opened) x
  · -- The component is left for good, and what lowered the low id of its first node keeps it on the stack.
    have hm := (live_cons.1 hlive).resolve_right h
    have hnode_root := hp.root_of_not_live fun hn => h (hn.of_mutual hm)
    obtain rfl := hroot.unique hp.indexed (hnode_root.of_mutual hm)
    have hstacked := hp.live_stacked root hnode ⟨root, List.mem_cons_self, Mutual.refl g root⟩
    obtain ⟨u, hu, w, hw, hru, hle, hc, hlt⟩ := hp.sourced root hstacked (s.num root)
      (Nat.lt_of_le_of_ne (hp.low_le root hnode) hne.symm) (Nat.le_refl _)
    exact iff_of_true (hp.live_stacked x hx hlive) (.blocked u w hu hru hle hc hw hlt)
  · exact hp.settled x hx hlive root hroot

end Leave

section Pop

theorem Stacked.mem_taken (hp : Stacked g (node :: opened) s t) :
    x ∈ s.stack.takeWhile (fun next => s.lowLinkValues.get? next = some (s.num node)) ↔
      x ∈ s.stack ∧ ∀ y ∈ s.stack, s.num x ≤ s.num y → s.low y = s.num node := by
  rw [mem_takeWhile_of_sorted hp.sorted_stack]
  refine and_congr_right fun _ => forall₂_congr fun y hy => imp_congr_right fun _ => ?_
  rw [decide_eq_true_eq, hp.indexed.lows y (hp.indexed.on_stack y hy), Option.some.injEq]

theorem Stacked.mutual_of_taken (hp : Stacked g (node :: opened) s t)
    (hx : x ∈ s.stack.takeWhile fun next => s.lowLinkValues.get? next = some (s.num node)) : Mutual g node x := by
  obtain ⟨hs, hall⟩ := hp.mem_taken.1 hx
  exact (hp.mutual_of_low (hp.indexed.on_stack x hs) (hall x hs (Nat.le_refl _))).1

theorem Stacked.mem_pop_stack (hp : Stacked g (node :: opened) s t) :
    x ∈ (s.popComponent (s.num node)).stack ↔
      x ∈ s.stack ∧ x ∉ s.stack.takeWhile fun next => s.lowLinkValues.get? next = some (s.num node) := by
  have hnodup : s.stack.Nodup := by
    refine hp.sorted_stack.imp ?_
    rintro a b h rfl
    exact Nat.lt_irrefl _ h
  exact mem_dropWhile_of_nodup hnodup

omit [Named N] in
theorem mem_pop_components {n : Nat} : (∃ scc ∈ (s.popComponent n).stronglyConnectedComponents, x ∈ scc) ↔
    (∃ scc ∈ s.stronglyConnectedComponents, x ∈ scc) ∨
      x ∈ s.stack.takeWhile fun next => s.lowLinkValues.get? next = some n := by
  rw [popComponent_components, ← OrderedSet.mem_ofList]
  split
  · simp [or_and_right, exists_or]
  · next hsize =>
    refine (or_iff_left fun hx => hsize ?_).symm
    exact List.length_pos_of_mem hx

theorem Stacked.pop_kept_iff (hp : Stacked g (node :: opened) s t)
    (hchildren : ∀ child, g.Child node child → child ∈ s.visited ∧ (node, child) ∈ t.followed)
    (he : s.num node = s.low node) (hroot : Root g s node node) (hm : Mutual g node x) (hx : x ∈ s.visited) :
    x ∈ (s.popComponent (s.num node)).stack ↔ Kept g (s.popComponent (s.num node)) t node x := by
  have hlive : ∀ y ∈ s.visited, Mutual g node y → y ∈ s.stack :=
    fun y hy hmy => hp.live_stacked y hy ⟨node, List.mem_cons_self, hmy.symm⟩
  have hle : s.num node ≤ s.num x := hroot.2.2 x hx hm
  have hrest : ∀ y, y ∈ (s.popComponent (s.num node)).stack → y ∈ s.stack := fun y hy => (hp.mem_pop_stack.1 hy).1
  have hother : ∀ y, y ∈ s.stack → ¬ Mutual g node y → y ∈ (s.popComponent (s.num node)).stack :=
    fun y hy hmy => hp.mem_pop_stack.2 ⟨hy, fun hty => hmy (hp.mutual_of_taken hty)⟩
  have hleads : ∀ y ∈ s.stack, s.num node ≤ s.num y → ReflTransGen g.Child node y :=
    fun y hy => hp.leads node List.mem_cons_self y (hp.indexed.on_stack y hy)
  rw [hp.mem_pop_stack, and_iff_right (hlive x hx hm), hp.mem_taken, and_iff_right (hlive x hx hm)]
  constructor
  · intro h
    simp only [not_forall] at h
    obtain ⟨y, hy, hxy, hlow⟩ := h
    have hyv := hp.indexed.on_stack y hy
    by_cases hmy : Mutual g node y
    · refine .unheard y hyv (hm.symm.trans hmy) hxy fun hheard => hlow ?_
      refine Nat.le_antisymm (hp.low_heard y hyv node hheard hmy.symm).2 ?_
      exact he ▸ hp.low_le_above hchildren hy (hle.trans hxy)
    · refine .covered y (hother y hy hmy) (hm.2.trans (hleads y hy (hle.trans hxy))) (fun h => hmy (hm.trans h)) ?_
      refine Nat.lt_of_le_of_ne hxy fun hnum => hmy ?_
      exact hp.indexed.num_inj hx hyv hnum ▸ hm
  · intro hkept hall
    cases hkept with
    | unheard y hy hmy hxy hnot =>
      exact hnot (hp.mutual_of_low hy (hall y (hlive y hy (hm.trans hmy)) hxy)).2
    | covered z hz hl hmz hxz =>
      have hzs := hrest z hz
      have hmutual := (hp.mutual_of_low (hp.indexed.on_stack z hzs) (hall z hzs hxz.le)).1
      exact hmz (hm.symm.trans hmutual)
    | blocked u w hu hl hnu hc hw hlt =>
      have hfollowed := (hp.followed_above hchildren hu hnu hc).2
      have hlow : s.low u < s.num node := ((hp.lowered _ hfollowed (hrest w hw)).1).trans_lt hlt
      have hus := hp.stacked_of_low_lt hu List.mem_cons_self hnu hlow
      exact absurd hlow (Nat.not_lt.2 (he ▸ hp.low_le_above hchildren hus hnu))

theorem Stacked.finish_pop (hp : Stacked g (node :: opened) s t)
    (hchildren : ∀ child, g.Child node child → child ∈ s.visited ∧ (node, child) ∈ t.followed)
    (he : s.num node = s.low node) (hpopped : Popped g opened (s.popComponent (s.num node)) t) :
    Stacked g opened (s.popComponent (s.num node)) t := by
  have hnot_live := hp.not_live_of_low hchildren he
  have hroot := hp.root_of_not_live hnot_live
  have hrest : ∀ y, y ∈ (s.popComponent (s.num node)).stack → y ∈ s.stack := fun y hy => (hp.mem_pop_stack.1 hy).1
  have hother : ∀ y, y ∈ s.stack → ¬ Mutual g node y → y ∈ (s.popComponent (s.num node)).stack :=
    fun y hy hmy => hp.mem_pop_stack.2 ⟨hy, fun hty => hmy (hp.mutual_of_taken hty)⟩
  refine
    { hpopped with
      edges := hp.edges
      forward := fun e he h => List.not_mem_of_not_mem_cons (hp.forward e he h)
      sorted_stack := hp.sorted_stack.sublist (List.dropWhile_sublist _)
      leads := fun x hx => hp.leads x (List.mem_cons_of_mem _ hx)
      closed := fun x hx hm y => hp.closed_leave hchildren hx hm
      anchored := fun x => hp.anchored_leave
      dead := fun x hx h y => hp.dead_leave hchildren hx h
      tree := fun x hx y => hp.tree_leave hchildren hx
      lowered := fun e he hs => hp.lowered e he (hrest _ hs)
      low_heard := hp.low_heard
      sourced := fun x hx n hl hn => ?_
      live_stacked := fun x hx h => hother x (hp.live_stacked x hx h.cons) fun hm => hnot_live (h.of_mutual hm)
      mem_stack := fun x => ?_
      within := fun scc hs x hx y hy h => ?_
      found := fun scc hs x hx => ?_
      nonempty := fun scc hs => ?_
      settled := fun x hx h root hxroot => ?_ }
  · obtain ⟨hxs, hxt⟩ := hp.mem_pop_stack.1 hx
    obtain ⟨u, hu, w, hw, hxu, hle, hc, hlt⟩ := hp.sourced x hxs n hl hn
    refine ⟨u, hu, w, hp.mem_pop_stack.2 ⟨hw, fun hwt => hxt ?_⟩, hxu, hle, hc, hlt⟩
    -- What lies above a node that is taken off is taken off too.
    exact hp.mem_taken.2 ⟨hxs, fun y hy hxy => (hp.mem_taken.1 hwt).2 y hy ((hlt.le.trans hn).trans hxy)⟩
  · rw [hp.mem_pop_stack, mem_pop_components, hp.mem_stack x, not_or, and_assoc]
    rfl
  · rcases mem_popComponent hs with hs | rfl
    · exact hp.within scc hs x hx y (List.mem_cons_of_mem _ hy) h
    · rw [popComponent_low, ((hp.popped_low (OrderedSet.mem_ofList.1 hx)).2.1)]
      exact ((List.pairwise_cons.1 hp.indexed.sorted).1 y hy).le
  · rcases mem_popComponent hs with hs | rfl
    · exact hp.found scc hs x hx
    · have hx := OrderedSet.mem_ofList.1 hx
      exact ⟨node, hroot.of_mutual (hp.mutual_of_taken hx).symm, (hp.popped_low hx).2.1⟩
  · rw [popComponent_components] at hs
    split at hs
    · next hsize =>
      rcases List.mem_append.1 hs with hs | hs
      · exact hp.nonempty scc hs
      · exact List.mem_singleton.1 hs ▸ List.exists_mem_of_length_pos hsize
    · exact hp.nonempty scc hs
  · by_cases hlive : Live g (node :: opened) x
    · have hm := (live_cons.1 hlive).resolve_right h
      obtain rfl : root = node := Root.unique hp.indexed hxroot (hroot.of_mutual hm)
      exact hp.pop_kept_iff hchildren he hroot hm.symm hx
    · have hsame : ∀ y, ReflTransGen g.Child x y → y ∈ s.visited ∧
          (y ∈ (s.popComponent (s.num node)).stack ↔ y ∈ s.stack) := by
        intro y hl
        obtain ⟨hy, hdead⟩ := hp.dead x hx hlive y hl
        exact ⟨hy, hrest y, fun hys => hother y hys fun hm => hdead ⟨node, List.mem_cons_self, hm.symm⟩⟩
      have hkept : Kept g (s.popComponent (s.num node)) t root x ↔ Kept g s t root x :=
        ⟨Kept.congr hxroot.2.1 (fun y hl => ⟨rfl, (hsame y hl).1, (hsame y hl).2.1⟩) fun _ _ hh => hh,
          Kept.congr hxroot.2.1 (fun y hl => ⟨rfl, (hsame y hl).1, (hsame y hl).2.2⟩) fun _ _ hh => hh⟩
      rw [(hsame x .refl).2, hkept]
      exact hp.settled x hx hlive root hxroot

end Pop

theorem stacked_invariant (g : DirectedGraph N) : Invariant g (Stacked g) where
  enter h hb hnew hparent := h.enter hb hnew hparent
  follow {opened s t node child} h hc hchild := by
    obtain ⟨s', hs', hpopped⟩ := h.toPopped.follow hchild
    have hok := h.indexed.minLowLink_ok (h.indexed.open_visited node List.mem_cons_self) hchild
    obtain rfl := Except.ok.inj (hs'.symm.trans hok)
    exact ⟨_, hs', h.follow hc hchild rfl hpopped⟩
  finish {opened s t node} h hchildren := by
    obtain ⟨s', hs', hpopped⟩ := h.toPopped.finish
    have hok := h.indexed.finish_ok (h.indexed.open_visited node List.mem_cons_self)
    obtain rfl := Except.ok.inj (hs'.symm.trans hok)
    refine ⟨_, hs', ?_⟩
    by_cases he : s.num node = s.low node
    · rw [if_pos he] at hpopped ⊢
      exact h.finish_pop hchildren he hpopped
    · rw [if_neg he] at hpopped ⊢
      exact h.finish_stay hchildren he hpopped

end ComponentSearch

end N8n.PartialExecution
