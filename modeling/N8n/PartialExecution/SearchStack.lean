import Mathlib.Order.Minimal
import N8n.PartialExecution.LowLinks

namespace N8n.PartialExecution

open Lib Relation DirectedGraph

variable {N : Type} [Named N] {g : DirectedGraph N} {a b c x y : N}

def Mutual (g : DirectedGraph N) (a b : N) : Prop := ReflTransGen g.Child a b ∧ ReflTransGen g.Child b a

theorem Mutual.refl (g : DirectedGraph N) (a : N) : Mutual g a a := ⟨.refl, .refl⟩

theorem Mutual.symm (h : Mutual g a b) : Mutual g b a := ⟨h.2, h.1⟩

theorem Mutual.trans (h : Mutual g a b) (h' : Mutual g b c) : Mutual g a c := ⟨h.1.trans h'.1, h'.2.trans h.2⟩

def Live (g : DirectedGraph N) (opened : List N) (x : N) : Prop := ∃ y ∈ opened, Mutual g x y

theorem Live.cons {opened : List N} (h : Live g opened x) : Live g (a :: opened) x := by
  obtain ⟨y, hy, hm⟩ := h
  exact ⟨y, List.mem_cons_of_mem a hy, hm⟩

theorem live_cons {opened : List N} : Live g (a :: opened) x ↔ Mutual g x a ∨ Live g opened x := by
  simp [Live]

theorem Live.of_mutual {opened : List N} (h : Live g opened x) (hm : Mutual g y x) : Live g opened y := by
  obtain ⟨z, hz, hxz⟩ := h
  exact ⟨z, hz, hm.trans hxz⟩

variable [DecidableEq N]

namespace ComponentSearch

/-- The root is the first visited node of the component. -/
def Root (g : DirectedGraph N) (s : ComponentSearch N) (x root : N) : Prop :=
  root ∈ s.visited ∧ Mutual g x root ∧ ∀ y ∈ s.visited, Mutual g x y → s.num root ≤ s.num y

inductive Kept (g : DirectedGraph N) (s : ComponentSearch N) (t : Traversal N) (root x : N) : Prop
  | unheard (y : N) (visited : y ∈ s.visited) (same : Mutual g x y) (above : s.num x ≤ s.num y)
      (unheard : ¬ Heard t.followed y root)
  | covered (z : N) (kept : z ∈ s.stack) (leads : ReflTransGen g.Child x z) (other : ¬ Mutual g x z)
      (above : s.num x < s.num z)
  | blocked (u w : N) (visited : u ∈ s.visited) (leads : ReflTransGen g.Child root u) (above : s.num root ≤ s.num u)
      (child : g.Child u w) (kept : w ∈ s.stack) (below : s.num w < s.num root)

structure Stacked (g : DirectedGraph N) (opened : List N) (s : ComponentSearch N) (t : Traversal N) : Prop extends
    Popped g opened s t where
  edges : ∀ e ∈ t.followed, e.1 ∈ s.visited ∧ e.2 ∈ s.visited ∧ g.Child e.1 e.2
  forward : ∀ e ∈ t.followed, s.num e.1 < s.num e.2 → e.2 ∉ opened
  sorted_stack : s.stack.Pairwise fun x y => s.num y < s.num x
  leads : ∀ x ∈ opened, ∀ y ∈ s.visited, s.num x ≤ s.num y → ReflTransGen g.Child x y
  closed : ∀ x ∈ s.visited, x ∉ opened → ∀ y, g.Child x y → y ∈ s.visited ∧ (x, y) ∈ t.followed
  anchored : ∀ x ∈ s.visited, Live g opened x → ∃ y ∈ opened, s.num y ≤ s.num x ∧ Mutual g x y
  dead : ∀ x ∈ s.visited, ¬ Live g opened x → ∀ y, ReflTransGen g.Child x y → y ∈ s.visited ∧ ¬ Live g opened y
  tree : ∀ x ∈ s.visited, ∀ y ∈ opened, s.num y < s.num x → ∃ parent ∈ s.visited, s.num y ≤ s.num parent ∧
    s.num parent < s.num x ∧ g.Child parent x ∧ ((parent, x) ∈ t.followed ∨ parent ∈ opened)
  lowered : ∀ e ∈ t.followed, e.2 ∈ s.stack →
    s.low e.1 ≤ s.num e.2 ∧ (s.num e.1 < s.num e.2 → s.low e.1 ≤ s.low e.2)
  low_heard : ∀ x ∈ s.visited, ∀ y, Heard t.followed x y → Mutual g x y → y ∈ s.visited ∧ s.low x ≤ s.num y
  sourced : ∀ x ∈ s.stack, ∀ n, s.low x < n → n ≤ s.num x → ∃ u ∈ s.visited, ∃ w ∈ s.stack,
    ReflTransGen g.Child x u ∧ n ≤ s.num u ∧ g.Child u w ∧ s.num w < n
  live_stacked : ∀ x ∈ s.visited, Live g opened x → x ∈ s.stack
  mem_stack : ∀ x, x ∈ s.stack ↔ x ∈ s.visited ∧ ¬ ∃ scc ∈ s.stronglyConnectedComponents, x ∈ scc
  within : ∀ scc ∈ s.stronglyConnectedComponents, ∀ x ∈ scc, ∀ y ∈ opened, s.num y ≤ s.num x → s.num y ≤ s.low x
  found : ∀ scc ∈ s.stronglyConnectedComponents, ∀ x ∈ scc, ∃ root, Root g s x root ∧ s.low x = s.num root
  nonempty : ∀ scc ∈ s.stronglyConnectedComponents, ∃ x, x ∈ scc
  settled : ∀ x ∈ s.visited, ¬ Live g opened x → ∀ root, Root g s x root → (x ∈ s.stack ↔ Kept g s t root x)

section Kept

variable {opened : List N} {s s' : ComponentSearch N} {t t' : Traversal N} {root : N}

omit [DecidableEq N] in
theorem Kept.congr [DecidableEq N] (hm : Mutual g x root)
    (hsame : ∀ y, ReflTransGen g.Child x y → s'.num y = s.num y ∧ y ∈ s'.visited ∧ (y ∈ s.stack → y ∈ s'.stack))
    (hheard : ∀ y, Mutual g x y → Heard t'.followed y root → Heard t.followed y root) (h : Kept g s t root x) :
    Kept g s' t' root x := by
  have hx := (hsame x .refl).1
  have hroot := (hsame root hm.1).1
  cases h with
  | unheard y hy hmy hle hnot =>
    obtain ⟨hnum, hv, -⟩ := hsame y hmy.1
    exact .unheard y hv hmy (by rwa [hx, hnum]) fun h => hnot (hheard y hmy h)
  | covered z hz hl hmz hlt =>
    obtain ⟨hnum, -, hkept⟩ := hsame z hl
    exact .covered z (hkept hz) hl hmz (by rwa [hx, hnum])
  | blocked u w hu hl hle hc hw hlt =>
    obtain ⟨hnumu, hv, -⟩ := hsame u (hm.1.trans hl)
    obtain ⟨hnumw, -, hkept⟩ := hsame w ((hm.1.trans hl).tail hc)
    exact .blocked u w hv hl (by rwa [hroot, hnumu]) hc (hkept hw) (by rwa [hroot, hnumw])

theorem Root.unique {root' : N} (hi : Indexed g opened s) (h : Root g s x root) (h' : Root g s x root') :
    root = root' :=
  hi.num_inj h.1 h'.1 (Nat.le_antisymm (h.2.2 root' h'.1 h'.2.1) (h'.2.2 root h.1 h.2.1))

theorem Root.of_mutual (h : Root g s x root) (hm : Mutual g y x) : Root g s y root :=
  ⟨h.1, hm.trans h.2.1, fun z hz hyz => h.2.2 z hz (hm.symm.trans hyz)⟩

omit [Named N] [DecidableEq N] in
theorem exists_first {p : N → Prop} (f : N → Nat) (hx : p x) : ∃ y, p y ∧ ∀ z, p z → f y ≤ f z := by
  obtain ⟨y, hy, hleast⟩ := exists_minimalFor_of_wellFoundedLT p f ⟨x, hx⟩
  exact ⟨y, hy, fun z hz => (Nat.le_total (f y) (f z)).elim (fun h => h) (hleast hz)⟩

theorem exists_root (g : DirectedGraph N) (hx : x ∈ s.visited) : ∃ root, Root g s x root := by
  obtain ⟨root, ⟨hroot, hm⟩, hleast⟩ := exists_first s.num (p := fun y => y ∈ s.visited ∧ Mutual g x y)
    ⟨hx, Mutual.refl g x⟩
  exact ⟨root, hroot, hm, fun y hy hmy => hleast y ⟨hy, hmy⟩⟩

end Kept

section Enter

variable {opened : List N} {s : ComponentSearch N} {t : Traversal N} {node child root : N}

theorem Root.enter_iff (hi : Indexed g opened s) (hnew : ¬ node ∈ s.visited) (hx : x ∈ s.visited) :
    Root g (s.enter node) x root ↔ Root g s x root := by
  have hne : ∀ y ∈ s.visited, y ≠ node := by
    rintro y hy rfl
    exact hnew hy
  constructor
  · rintro ⟨ha, hm, hleast⟩
    have hle := hleast x (mem_enter_visited.2 (.inr hx)) (Mutual.refl g x)
    rw [enter_num_of_ne (hne x hx)] at hle
    rcases mem_enter_visited.1 ha with rfl | ha
    · rw [enter_num_self] at hle
      exact absurd (hi.num_lt hx) (Nat.not_lt.2 hle)
    · refine ⟨ha, hm, fun y hy hmy => ?_⟩
      have h := hleast y (mem_enter_visited.2 (.inr hy)) hmy
      rwa [enter_num_of_ne (hne root ha), enter_num_of_ne (hne y hy)] at h
  · rintro ⟨ha, hm, hleast⟩
    refine ⟨mem_enter_visited.2 (.inr ha), hm, fun y hy hmy => ?_⟩
    rw [enter_num_of_ne (hne root ha)]
    rcases mem_enter_visited.1 hy with rfl | hy
    · rw [enter_num_self]
      exact (hi.num_lt ha).le
    · rw [enter_num_of_ne (hne y hy)]
      exact hleast y hy hmy

theorem Stacked.live_enter (hp : Stacked g opened s t) (hnew : ¬ node ∈ s.visited) (hx : x ∈ s.visited) :
    Live g (node :: opened) x ↔ Live g opened x := by
  refine ⟨fun h => ?_, Live.cons⟩
  by_contra hlive
  have hm := (live_cons.1 h).resolve_right hlive
  exact hnew (hp.dead x hx hlive node hm.1).1

theorem kept_enter_iff (hnew : ¬ node ∈ s.visited)
    (hclosed : ∀ y, ReflTransGen g.Child x y → y ∈ s.visited) (hm : Mutual g x root) :
    Kept g (s.enter node) (t.meet node) root x ↔ Kept g s t root x := by
  have hne : ∀ y, ReflTransGen g.Child x y → y ≠ node := by
    rintro y hy rfl
    exact hnew (hclosed y hy)
  constructor
  · refine Kept.congr hm (fun y hy => ⟨(enter_num_of_ne (hne y hy)).symm, hclosed y hy, fun hs => ?_⟩) fun y _ hh => hh
    exact (List.mem_cons.1 hs).resolve_left (hne y hy)
  · refine Kept.congr hm (fun y hy => ⟨enter_num_of_ne (hne y hy), ?_, List.mem_cons_of_mem _⟩) fun y _ hh => hh
    exact mem_enter_visited.2 (.inr (hclosed y hy))

theorem Stacked.enter (hp : Stacked g opened s t) (hb : g.Bound node) (hnew : ¬ node ∈ s.visited)
    (hparent : ∀ parent ∈ opened.head?, g.Child parent node) :
    Stacked g (node :: opened) (s.enter node) (t.meet node) := by
  have hne : ∀ x ∈ s.visited, x ≠ node := by
    rintro x hx rfl
    exact hnew hx
  have hlow : ∀ x ∈ s.visited, (s.enter node).low x = s.low x := fun x hx => enter_low_of_ne (hne x hx)
  have hnum : ∀ x ∈ s.visited, (s.enter node).num x = s.num x := fun x hx => enter_num_of_ne (hne x hx)
  have hold : ∀ x ∈ s.visited, x ∈ (s.enter node).visited := fun x hx => mem_enter_visited.2 (.inr hx)
  have hself : node ∈ (s.enter node).visited := mem_enter_visited.2 (.inl rfl)
  have hlt : ∀ x ∈ s.visited, (s.enter node).num x < (s.enter node).num node := by
    intro x hx
    rw [hnum x hx, enter_num_self]
    exact hp.indexed.num_lt hx
  have hopened := hp.indexed.open_visited
  have hon_stack := hp.indexed.on_stack
  have hlive : Live g (node :: opened) node := ⟨node, List.mem_cons_self, Mutual.refl g node⟩
  have hscc : ∀ scc ∈ s.stronglyConnectedComponents, ∀ x ∈ scc, x ∈ s.visited :=
    fun scc hs x hx => (hp.rooted scc hs x hx).1
  refine
    { hp.toPopped.enter hb hnew with
      edges := fun e he => ⟨hold _ (hp.edges e he).1, hold _ (hp.edges e he).2.1, (hp.edges e he).2.2⟩
      forward := fun e he h => ?_
      sorted_stack := ?_
      leads := fun x hx y hy hle => ?_
      closed := fun x hx hm y hc => ?_
      anchored := fun x hx hlive => ?_
      dead := fun x hx hlive => ?_
      tree := fun x hx y hy h => ?_
      lowered := fun e he hs => ?_
      low_heard := fun x hx y hh hm => ?_
      sourced := fun x hx n hl hn => ?_
      live_stacked := fun x hx hlive => ?_
      mem_stack := fun x => ?_
      within := fun scc hs x hx y hy h => ?_
      found := fun scc hs x hx => ?_
      nonempty := hp.nonempty
      settled := fun x hx hlive root hroot => ?_ }
  · obtain ⟨h₁, h₂, -⟩ := hp.edges e he
    rw [hnum _ h₁, hnum _ h₂] at h
    exact List.not_mem_cons_of_ne_of_not_mem (hne _ h₂) (hp.forward e he h)
  · refine List.pairwise_cons.2 ⟨fun x hx => hlt x (hon_stack x hx), hp.sorted_stack.imp_of_mem fun hx hy h => ?_⟩
    rwa [hnum _ (hon_stack _ hx), hnum _ (hon_stack _ hy)]
  · rcases mem_enter_visited.1 hy with rfl | hyv
    · rcases List.mem_cons.1 hx with rfl | hx
      · exact .refl
      · obtain ⟨parent, rest, rfl⟩ := List.exists_cons_of_ne_nil (List.ne_nil_of_mem hx)
        refine .tail (hp.leads x hx parent (hopened parent List.mem_cons_self) ?_) (hparent parent rfl)
        exact hp.indexed.num_le_head hx
    · rcases List.mem_cons.1 hx with rfl | hx
      · exact absurd (hlt y hyv) (Nat.not_lt.2 hle)
      · rw [hnum x (hopened x hx), hnum y hyv] at hle
        exact hp.leads x hx y hyv hle
  · rcases mem_enter_visited.1 hx with rfl | hx
    · exact absurd List.mem_cons_self hm
    · obtain ⟨hy, he⟩ := hp.closed x hx (List.not_mem_of_not_mem_cons hm) y hc
      exact ⟨hold y hy, he⟩
  · rcases mem_enter_visited.1 hx with rfl | hx
    · exact ⟨x, List.mem_cons_self, Nat.le_refl _, Mutual.refl g x⟩
    · obtain ⟨y, hy, hle, hm⟩ := hp.anchored x hx ((hp.live_enter hnew hx).1 hlive)
      exact ⟨y, List.mem_cons_of_mem _ hy, by rwa [hnum y (hopened y hy), hnum x hx], hm⟩
  · rcases mem_enter_visited.1 hx with rfl | hx
    · exact absurd ⟨x, List.mem_cons_self, Mutual.refl g x⟩ hlive
    · intro y hl
      obtain ⟨hy, hylive⟩ := hp.dead x hx (fun h => hlive h.cons) y hl
      exact ⟨hold y hy, fun h => hylive ((hp.live_enter hnew hy).1 h)⟩
  · rcases mem_enter_visited.1 hx with rfl | hxv
    · have hy := (List.mem_cons.1 hy).resolve_left fun he => Nat.lt_irrefl _ (he ▸ h)
      obtain ⟨parent, rest, rfl⟩ := List.exists_cons_of_ne_nil (List.ne_nil_of_mem hy)
      have hpv := hopened parent List.mem_cons_self
      refine ⟨parent, hold parent hpv, ?_, hlt parent hpv, hparent parent rfl,
        .inr (List.mem_cons_of_mem _ List.mem_cons_self)⟩
      rw [hnum y (hopened y hy), hnum parent hpv]
      exact hp.indexed.num_le_head hy
    · rcases List.mem_cons.1 hy with rfl | hy
      · exact absurd (hlt x hxv) (Nat.not_lt.2 h.le)
      · rw [hnum y (hopened y hy), hnum x hxv] at h
        obtain ⟨parent, hpv, hle, hlt', hc, hor⟩ := hp.tree x hxv y hy h
        exact ⟨parent, hold parent hpv, by rwa [hnum y (hopened y hy), hnum parent hpv],
          by rwa [hnum parent hpv, hnum x hxv], hc, hor.imp_right (List.mem_cons_of_mem _)⟩
  · obtain ⟨h₁, h₂, -⟩ := hp.edges e he
    rw [hlow _ h₁, hlow _ h₂, hnum _ h₁, hnum _ h₂]
    exact hp.lowered e he ((List.mem_cons.1 hs).resolve_left (hne _ h₂))
  · rcases mem_enter_visited.1 hx with rfl | hx
    · obtain rfl := eq_of_heard hh fun e he => hne _ (hp.edges e he).1
      exact ⟨hself, by rw [enter_low_self, enter_num_self]⟩
    · obtain ⟨hy, hle⟩ := hp.low_heard x hx y hh hm
      exact ⟨hold y hy, by rwa [hlow x hx, hnum y hy]⟩
  · rcases List.mem_cons.1 hx with rfl | hx
    · rw [enter_low_self] at hl
      rw [enter_num_self] at hn
      exact absurd hl (Nat.not_lt.2 hn)
    · have hxv := hon_stack x hx
      rw [hlow x hxv] at hl
      rw [hnum x hxv] at hn
      obtain ⟨u, hu, w, hw, hxu, hle, hc, hlt'⟩ := hp.sourced x hx n hl hn
      exact ⟨u, hold u hu, w, List.mem_cons_of_mem _ hw, hxu, by rwa [hnum u hu], hc, by rwa [hnum w (hon_stack w hw)]⟩
  · rcases mem_enter_visited.1 hx with rfl | hx
    · exact List.mem_cons_self
    · exact List.mem_cons_of_mem _ (hp.live_stacked x hx ((hp.live_enter hnew hx).1 hlive))
  · rw [mem_enter_visited]
    refine List.mem_cons.trans ?_
    by_cases he : x = node
    · refine iff_of_true (.inl he) ⟨.inl he, ?_⟩
      rintro ⟨scc, hs, hx⟩
      exact hne x (hscc scc hs x hx) he
    · rw [or_iff_right he, or_iff_right he]
      exact hp.mem_stack x
  · have hxv := hscc scc hs x hx
    rcases List.mem_cons.1 hy with rfl | hy
    · exact absurd (hlt x hxv) (Nat.not_lt.2 h)
    · rw [hnum y (hopened y hy), hnum x hxv] at h
      rw [hnum y (hopened y hy), hlow x hxv]
      exact hp.within scc hs x hx y hy h
  · have hxv := hscc scc hs x hx
    obtain ⟨root, hroot, he⟩ := hp.found scc hs x hx
    exact ⟨root, (Root.enter_iff hp.indexed hnew hxv).2 hroot, by rw [hlow x hxv, hnum root hroot.1, he]⟩
  · rcases mem_enter_visited.1 hx with rfl | hx
    · exact absurd ⟨x, List.mem_cons_self, Mutual.refl g x⟩ hlive
    · have hdead : ¬ Live g opened x := fun h => hlive h.cons
      have hroot := (Root.enter_iff hp.indexed hnew hx).1 hroot
      rw [kept_enter_iff hnew (fun y hy => (hp.dead x hx hdead y hy).1) hroot.2.1]
      exact (List.mem_cons.trans (or_iff_right (hne x hx))).trans (hp.settled x hx hdead root hroot)

end Enter

section Follow

variable {opened : List N} {s : ComponentSearch N} {t : Traversal N} {node child root : N}

theorem Stacked.child_stacked (hp : Stacked g (node :: opened) s t) (hc : g.Child node child)
    (hchild : child ∈ s.visited) (hl : ReflTransGen g.Child child node) : child ∈ s.stack :=
  hp.live_stacked child hchild ⟨node, List.mem_cons_self, hl, .single hc⟩

theorem kept_follow_iff {n : Nat} (hclosed : ∀ y, ReflTransGen g.Child x y → y ∈ s.visited)
    (hdead : ∀ y, Mutual g x y → y ≠ node) (hm : Mutual g x root) :
    Kept g (s.setLow node n) (t.follow node child) root x ↔ Kept g s t root x := by
  constructor
  · exact Kept.congr hm (fun y hy => ⟨rfl, hclosed y hy, fun h => h⟩) fun y hy hh =>
      (heard_cons_of_ne (hdead y hy)).2 hh
  · exact Kept.congr hm (fun y hy => ⟨rfl, hclosed y hy, fun h => h⟩) fun y hy hh =>
      (heard_cons_of_ne (hdead y hy)).1 hh

theorem Stacked.follow (hp : Stacked g (node :: opened) s t) (hc : g.Child node child) (hchild : child ∈ s.visited)
    {n : Nat} (hn : (if child ∈ s.stack then min (s.low child) (s.low node) else s.low node) = n)
    (hpopped : Popped g (node :: opened) (s.setLow node n) (t.follow node child)) :
    Stacked g (node :: opened) (s.setLow node n) (t.follow node child) := by
  have hnode := hp.indexed.open_visited node List.mem_cons_self
  have hle : n ≤ s.low node := by
    rw [← hn]
    split
    · exact Nat.min_le_right _ _
    · exact Nat.le_refl _
  have hchild_le : child ∈ s.stack → n ≤ s.low child := by
    intro hs
    rw [if_pos hs] at hn
    exact hn ▸ Nat.min_le_left _ _
  have hlow_le : ∀ x, (s.setLow node n).low x ≤ s.low x := by
    intro x
    by_cases he : x = node
    · rw [he, setLow_low_self]
      exact hle
    · rw [setLow_low_of_ne he]
  have hclosed : ∀ x, x ∉ node :: opened → (s.setLow node n).low x = s.low x :=
    fun x hx => setLow_low_of_ne (List.ne_of_not_mem_cons hx)
  refine
    { hpopped with
      edges := List.forall_mem_cons.2 ⟨⟨hnode, hchild, hc⟩, hp.edges⟩
      forward := List.forall_mem_cons.2 ⟨fun h hm => ?_, hp.forward⟩
      sorted_stack := hp.sorted_stack
      leads := hp.leads
      closed := fun x hx hm y hxy => (hp.closed x hx hm y hxy).imp_right (List.mem_cons_of_mem _)
      anchored := hp.anchored
      dead := hp.dead
      tree := fun x hx y hy h => ?_
      lowered := List.forall_mem_cons.2 ⟨fun hs => ⟨?_, fun h => ?_⟩, fun e he hs => ⟨?_, fun h => ?_⟩⟩
      low_heard := fun x hx y hh hm => ?_
      sourced := fun x hx m hl hm => ?_
      live_stacked := hp.live_stacked
      mem_stack := hp.mem_stack
      within := fun scc hs x hx => ?_
      found := fun scc hs x hx => ?_
      nonempty := hp.nonempty
      settled := fun x hx hlive root hroot => ?_ }
  · exact absurd (hp.indexed.num_le_head hm) (Nat.not_le.2 h)
  · obtain ⟨parent, hpv, hle, hlt, hc, hor⟩ := hp.tree x hx y hy h
    exact ⟨parent, hpv, hle, hlt, hc, hor.imp_left (List.mem_cons_of_mem _)⟩
  · rw [setLow_low_self]
    exact (hchild_le hs).trans (hp.low_le child hchild)
  · rw [setLow_low_self, setLow_low_of_ne]
    · exact hchild_le hs
    · exact fun he : child = node => Nat.lt_irrefl _ (he ▸ show s.num node < s.num child from h)
  · exact (hlow_le _).trans (hp.lowered e he hs).1
  · rw [hclosed e.2 (hp.forward e he h)]
    exact (hlow_le _).trans ((hp.lowered e he hs).2 h)
  · by_cases he : x = node
    · subst he
      rw [setLow_low_self]
      rcases heard_cons_self.1 hh with hh | hh
      · obtain ⟨hy, hlow⟩ := hp.low_heard x hnode y hh hm
        exact ⟨hy, hle.trans hlow⟩
      · have hleads : ReflTransGen g.Child child y := leads_of_heard hh fun e he => (hp.edges e he).2.2
        have hmutual : Mutual g child x := ⟨hleads.trans hm.2, .single hc⟩
        obtain ⟨hy, hlow⟩ := hp.low_heard child hchild y hh (hmutual.trans hm)
        exact ⟨hy, (hchild_le (hp.child_stacked hc hchild hmutual.1)).trans hlow⟩
    · obtain ⟨hy, hlow⟩ := hp.low_heard x hx y ((heard_cons_of_ne he).1 hh) hm
      exact ⟨hy, (hlow_le x).trans hlow⟩
  · by_cases he : x = node
    · subst he
      rw [setLow_low_self] at hl
      by_cases hold : s.low x < m
      · exact hp.sourced x hx m hold hm
      · -- The new low id was taken over from the child.
        have hs : child ∈ s.stack := by
          by_contra hs
          rw [if_neg hs] at hn
          exact hold (hn ▸ hl)
        rw [if_pos hs] at hn
        have hlow : s.low child < m := by omega
        rcases Nat.lt_or_ge (s.num child) m with hlt | hge
        · exact ⟨x, hnode, child, hs, .refl, hm, hc, hlt⟩
        · obtain ⟨u, hu, w, hw, hcu, hrest⟩ := hp.sourced child hs m hlow hge
          exact ⟨u, hu, w, hw, .head hc hcu, hrest⟩
    · rw [setLow_low_of_ne he] at hl
      exact hp.sourced x hx m hl hm
  · rw [hclosed x (hp.rooted scc hs x hx).2.1]
    exact hp.within scc hs x hx
  · rw [hclosed x (hp.rooted scc hs x hx).2.1]
    exact hp.found scc hs x hx
  · refine (hp.settled x hx hlive root hroot).trans (kept_follow_iff (fun y hy => (hp.dead x hx hlive y hy).1) ?_
      hroot.2.1).symm
    rintro y hm rfl
    exact hlive ⟨y, List.mem_cons_self, hm⟩

end Follow

end ComponentSearch

end N8n.PartialExecution
