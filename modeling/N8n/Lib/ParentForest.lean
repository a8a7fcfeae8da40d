import Mathlib.Data.List.Perm.Subperm

namespace N8n.Lib

section EraseDups

variable {α β : Type} [DecidableEq α] [DecidableEq β]

theorem eraseDups_induction {P : List α → Prop} (nil : P [])
    (cons : ∀ a l, P (l.filter fun b => !b == a) → P (a :: l)) (l : List α) : P l := by
  induction hn : l.length using Nat.strongRecOn generalizing l with
  | ind n ih =>
    cases l with
    | nil => exact nil
    | cons a l =>
      have hlt : (l.filter fun b => !b == a).length < n :=
        hn ▸ Nat.lt_succ_of_le (List.length_filter_le _ _)
      exact cons a l (ih _ hlt _ rfl)

theorem filter_eraseDups (p : α → Bool) (l : List α) : l.eraseDups.filter p = (l.filter p).eraseDups := by
  induction l using eraseDups_induction with
  | nil => rfl
  | cons a l ih =>
    rw [List.eraseDups_cons, List.filter_cons, List.filter_cons, ih, List.filter_filter]
    by_cases h : p a = true
    · rw [if_pos h, if_pos h, List.eraseDups_cons, List.filter_filter]
      simp only [Bool.and_comm]
    · rw [if_neg h, if_neg h]
      apply congrArg List.eraseDups
      apply List.filter_congr
      intro b _
      by_cases hb : b = a
      · subst hb
        simp [h]
      · simp [hb]

theorem nodup_eraseDups (l : List α) : l.eraseDups.Nodup := by
  induction l using eraseDups_induction with
  | nil => exact List.nodup_nil
  | cons a l ih =>
    rw [List.eraseDups_cons, List.nodup_cons, List.mem_eraseDups, List.mem_filter]
    exact ⟨fun h => by simp at h, ih⟩

theorem eraseDups_append_filter (a b : List α) :
    (a ++ b).eraseDups = a.eraseDups ++ b.eraseDups.filter fun x => !a.elem x := by
  rw [List.eraseDups_append, filter_eraseDups]
  rfl

theorem eraseDups_append_of_subset {a b : List α} (h : ∀ x ∈ b, x ∈ a) : (a ++ b).eraseDups = a.eraseDups := by
  rw [eraseDups_append_filter, List.filter_eq_nil_iff.2, List.append_nil]
  intro x hx
  simpa using h x (List.mem_eraseDups.1 hx)

omit [DecidableEq β] in
theorem eraseDups_flatMap_congr {f g : β → List α} {l : List β} (h : ∀ b ∈ l, (f b).eraseDups = (g b).eraseDups) :
    (l.flatMap f).eraseDups = (l.flatMap g).eraseDups := by
  induction l with
  | nil => rfl
  | cons b l ih =>
    have hb := h b List.mem_cons_self
    rw [List.flatMap_cons, List.flatMap_cons, eraseDups_append_filter, eraseDups_append_filter, hb,
      ih fun c hc => h c (List.mem_cons_of_mem b hc)]
    apply congrArg ((g b).eraseDups ++ ·)
    apply List.filter_congr
    intro x _
    have hmem : x ∈ f b ↔ x ∈ g b := by rw [← List.mem_eraseDups, hb, List.mem_eraseDups]
    simp [hmem]

theorem flatMap_filter_ne (f : β → List α) (b : β) (l : List β) :
    ((l.filter fun c => !c == b).flatMap f).filter (fun x => !(f b).elem x) =
      (l.flatMap f).filter fun x => !(f b).elem x := by
  induction l with
  | nil => rfl
  | cons c l ih =>
    by_cases hc : c = b
    · subst hc
      have hnone : (f c).filter (fun x => !(f c).elem x) = [] := by
        rw [List.filter_eq_nil_iff]
        intro x hx
        simpa using hx
      rw [List.filter_cons_of_neg (by simp), List.flatMap_cons, List.filter_append, hnone, ih, List.nil_append]
    · rw [List.filter_cons_of_pos (by simpa using hc), List.flatMap_cons, List.flatMap_cons, List.filter_append,
        List.filter_append, ih]

theorem eraseDups_flatMap_eraseDups (f : β → List α) (l : List β) :
    (l.eraseDups.flatMap f).eraseDups = (l.flatMap f).eraseDups := by
  induction l using eraseDups_induction with
  | nil => rfl
  | cons b l ih =>
    rw [List.eraseDups_cons, List.flatMap_cons, List.flatMap_cons, eraseDups_append_filter, ih,
      eraseDups_append_filter, filter_eraseDups, filter_eraseDups, flatMap_filter_ne]

end EraseDups

section Forest

open Relation

variable {ν : Type}

def ancestorsWithin (parent : ν → Option ν) : Nat → ν → List ν
  | 0, _ => []
  | turns + 1, x =>
    match parent x with
    | none => []
    | some p => p :: ancestorsWithin parent turns p

def descendantsWithin (children : ν → List ν) : Nat → ν → List ν
  | 0, _ => []
  | turns + 1, x => (children x).flatMap fun c => c :: descendantsWithin children turns c

theorem acyclic_of_rank {r : ν → ν → Prop} (rank : ν → Nat) (h : ∀ a b, r a b → rank b < rank a) (x : ν) :
    ¬ TransGen r x x := by
  intro hx
  have hlt : ∀ y, TransGen r x y → rank y < rank x := by
    intro y hy
    induction hy with
    | single hy => exact h _ _ hy
    | tail _ hz ih => exact Nat.lt_trans (h _ _ hz) ih
  exact Nat.lt_irrefl _ (hlt x hx)

structure ParentForest (ν : Type) where
  nodes : List ν
  parent : ν → Option ν
  children : ν → List ν
  mem_nodes : ∀ x p, parent x = some p → x ∈ nodes
  mem_children : ∀ c p, c ∈ children p ↔ parent c = some p
  acyclic : ∀ x, ¬ TransGen (fun a b => parent a = some b) x x

namespace ParentForest

variable (F : ParentForest ν)

def Below (a b : ν) : Prop := F.parent a = some b

def ancestors (x : ν) : List ν := ancestorsWithin F.parent F.nodes.length x

def descendants (x : ν) : List ν := descendantsWithin F.children F.nodes.length x

theorem length_lt {path : List ν} (hnodup : path.Nodup) (hpath : ∀ a ∈ path, a ∈ F.nodes) {x p : ν}
    (hx : F.parent x = some p) (hnot : x ∉ path) : path.length < F.nodes.length := by
  have hsub : (x :: path).Subperm F.nodes := by
    apply (List.nodup_cons.2 ⟨hnot, hnodup⟩).subperm
    intro a ha
    rcases List.mem_cons.1 ha with rfl | ha
    · exact F.mem_nodes a p hx
    · exact hpath a ha
  exact hsub.length_le

theorem ancestorsWithin_succ (turns : Nat) (x : ν) (path : List ν) (hnodup : path.Nodup)
    (hpath : ∀ a ∈ path, a ∈ F.nodes) (hbelow : ∀ a ∈ path, TransGen F.Below a x)
    (hturns : F.nodes.length ≤ turns + path.length) :
    ancestorsWithin F.parent (turns + 1) x = ancestorsWithin F.parent turns x := by
  have hnot : x ∉ path := fun hx => F.acyclic x (hbelow x hx)
  induction turns generalizing x path with
  | zero =>
    cases hx : F.parent x with
    | none => simp [ancestorsWithin, hx]
    | some p =>
      have hlt := F.length_lt hnodup hpath hx hnot
      omega
  | succ turns ih =>
    rw [ancestorsWithin, ancestorsWithin]
    cases hx : F.parent x with
    | none => rfl
    | some p =>
      have hbelow' : ∀ a ∈ x :: path, TransGen F.Below a p := by
        intro a ha
        rcases List.mem_cons.1 ha with rfl | ha
        · exact TransGen.single hx
        · exact (hbelow a ha).tail hx
      apply congrArg (p :: ·)
      apply ih p (x :: path) (List.nodup_cons.2 ⟨hnot, hnodup⟩) _ hbelow'
      · rw [List.length_cons]
        omega
      · exact fun hp => F.acyclic p (hbelow' p hp)
      · intro a ha
        rcases List.mem_cons.1 ha with rfl | ha
        · exact F.mem_nodes a p hx
        · exact hpath a ha

theorem ancestors_of_none {x : ν} (h : F.parent x = none) : F.ancestors x = [] := by
  rw [ancestors]
  cases F.nodes.length with
  | zero => rfl
  | succ n => rw [ancestorsWithin, h]

theorem ancestors_of_some {x p : ν} (h : F.parent x = some p) : F.ancestors x = p :: F.ancestors p := by
  have hstable := F.ancestorsWithin_succ F.nodes.length x [] List.nodup_nil (fun _ h => nomatch h) (fun _ h => nomatch h)
    (Nat.le_refl _)
  rw [ancestors, ← hstable, ancestorsWithin, h]
  rfl

theorem induction_down {P : ν → Prop} (step : ∀ x, (∀ p, F.parent x = some p → P p) → P x) (x : ν) : P x := by
  induction hn : (F.ancestors x).length using Nat.strongRecOn generalizing x with
  | ind n ih =>
    apply step x
    intro p hp
    rw [F.ancestors_of_some hp, List.length_cons] at hn
    exact ih _ (by omega) p rfl

theorem mem_ancestors {x a : ν} : a ∈ F.ancestors x ↔ ∃ p, F.parent x = some p ∧ (a = p ∨ a ∈ F.ancestors p) := by
  cases h : F.parent x with
  | none => simp [F.ancestors_of_none h]
  | some p => simp [F.ancestors_of_some h]

theorem ancestors_trans {x a b : ν} (ha : a ∈ F.ancestors x) (hb : b ∈ F.ancestors a) : b ∈ F.ancestors x := by
  induction x using F.induction_down with
  | step x ih =>
    obtain ⟨p, hp, hap⟩ := F.mem_ancestors.1 ha
    apply F.mem_ancestors.2 ⟨p, hp, .inr _⟩
    rcases hap with rfl | hap
    · exact hb
    · exact ih p hp hap

theorem ancestors_linear {x a b : ν} (ha : a ∈ F.ancestors x) (hb : b ∈ F.ancestors x) :
    a = b ∨ a ∈ F.ancestors b ∨ b ∈ F.ancestors a := by
  induction x using F.induction_down with
  | step x ih =>
    obtain ⟨p, hp, hap⟩ := F.mem_ancestors.1 ha
    obtain ⟨p', hp', hbp⟩ := F.mem_ancestors.1 hb
    rw [hp] at hp'
    cases hp'
    rcases hap with rfl | hap
    · rcases hbp with rfl | hbp
      · exact .inl rfl
      · exact .inr (.inr hbp)
    · rcases hbp with rfl | hbp
      · exact .inr (.inl hap)
      · exact ih p hp hap hbp

theorem exists_highest {P : ν → Prop} {x : ν} (h : ∃ a ∈ F.ancestors x, P a) :
    ∃ a ∈ F.ancestors x, P a ∧ ∀ b ∈ F.ancestors a, ¬ P b := by
  induction x using F.induction_down with
  | step x ih =>
    obtain ⟨a, ha, hPa⟩ := h
    obtain ⟨p, hp, hap⟩ := F.mem_ancestors.1 ha
    by_cases habove : ∃ b ∈ F.ancestors p, P b
    · obtain ⟨b, hb, hPb, hnone⟩ := ih p hp habove
      exact ⟨b, F.mem_ancestors.2 ⟨p, hp, .inr hb⟩, hPb, hnone⟩
    · rcases hap with rfl | hap
      · exact ⟨a, ha, hPa, fun b hb hPb => habove ⟨b, hb, hPb⟩⟩
      · exact absurd ⟨a, hap, hPa⟩ habove

theorem descendantsWithin_succ (turns : Nat) (x : ν) (path : List ν) (hnodup : path.Nodup)
    (hpath : ∀ a ∈ path, a ∈ F.nodes) (habove : ∀ a ∈ path, ReflTransGen F.Below x a)
    (hturns : F.nodes.length ≤ turns + path.length) :
    descendantsWithin F.children (turns + 1) x = descendantsWithin F.children turns x := by
  have hnot : ∀ {c}, c ∈ F.children x → c ∉ path := fun hc hmem =>
    F.acyclic _ (TransGen.head' ((F.mem_children _ _).1 hc) (habove _ hmem))
  induction turns generalizing x path with
  | zero =>
    rw [descendantsWithin, descendantsWithin, List.flatMap_eq_nil_iff]
    intro c hc
    have hlt := F.length_lt hnodup hpath ((F.mem_children c x).1 hc) (hnot hc)
    omega
  | succ turns ih =>
    rw [descendantsWithin, descendantsWithin]
    apply List.flatMap_congr
    intro c hc
    have hparent := (F.mem_children c x).1 hc
    have habove' : ∀ a ∈ c :: path, ReflTransGen F.Below c a := by
      intro a ha
      rcases List.mem_cons.1 ha with rfl | ha
      · exact ReflTransGen.refl
      · exact (habove a ha).head hparent
    apply congrArg (c :: ·)
    apply ih c (c :: path) (List.nodup_cons.2 ⟨hnot hc, hnodup⟩) _ habove'
    · rw [List.length_cons]
      omega
    · exact fun hc' hmem => F.acyclic _ (TransGen.head' ((F.mem_children _ _).1 hc') (habove' _ hmem))
    · intro a ha
      rcases List.mem_cons.1 ha with rfl | ha
      · exact F.mem_nodes a x hparent
      · exact hpath a ha

theorem descendants_eq (x : ν) : F.descendants x = (F.children x).flatMap fun c => c :: F.descendants c := by
  have hstable := F.descendantsWithin_succ F.nodes.length x [] List.nodup_nil (fun _ h => nomatch h)
    (fun _ h => nomatch h) (Nat.le_refl _)
  rw [descendants, ← hstable, descendantsWithin]
  rfl

theorem child_descendants {x y a : ν} (h : a ∈ F.descendants x) (hy : F.parent y = some a) : y ∈ F.descendants x := by
  have hgrow : ∀ turns x, a ∈ descendantsWithin F.children turns x →
      y ∈ descendantsWithin F.children (turns + 1) x := by
    intro turns
    induction turns with
    | zero => exact fun _ h => nomatch h
    | succ turns ih =>
      intro x h
      rw [descendantsWithin] at h ⊢
      obtain ⟨c, hc, ha⟩ := List.mem_flatMap.1 h
      refine List.mem_flatMap.2 ⟨c, hc, List.mem_cons_of_mem c ?_⟩
      rcases List.mem_cons.1 ha with rfl | ha
      · rw [descendantsWithin]
        exact List.mem_flatMap.2 ⟨y, (F.mem_children y a).2 hy, List.mem_cons_self⟩
      · exact ih c ha
  have hmem := hgrow _ x h
  rw [F.descendantsWithin_succ _ x [] List.nodup_nil (fun _ h => nomatch h) (fun _ h => nomatch h)
    (Nat.le_refl _)] at hmem
  exact hmem

theorem mem_descendants {x y : ν} : y ∈ F.descendants x ↔ x ∈ F.ancestors y := by
  constructor
  · have hwithin : ∀ turns x, y ∈ descendantsWithin F.children turns x → x ∈ F.ancestors y := by
      intro turns
      induction turns with
      | zero => exact fun _ h => nomatch h
      | succ turns ih =>
        intro x h
        obtain ⟨c, hc, hy⟩ := List.mem_flatMap.1 h
        have hparent : x ∈ F.ancestors c := F.mem_ancestors.2 ⟨x, (F.mem_children c x).1 hc, .inl rfl⟩
        rcases List.mem_cons.1 hy with rfl | hy
        · exact hparent
        · exact F.ancestors_trans (ih c hy) hparent
    exact hwithin _ x
  · intro h
    induction y using F.induction_down with
    | step y ih =>
      obtain ⟨p, hp, rfl | hx⟩ := F.mem_ancestors.1 h
      · rw [F.descendants_eq]
        exact List.mem_flatMap.2 ⟨y, (F.mem_children y x).2 hp, List.mem_cons_self⟩
      · exact F.child_descendants (ih p hp hx) hp

end ParentForest

end Forest

end N8n.Lib
