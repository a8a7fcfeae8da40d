import Mathlib.Data.List.Induction

namespace N8n.Lib

variable {σ α ε : Type}

theorem map_ok {β : Type} {f : α → β} {x : Except ε α} {b : β} (h : x.map f = .ok b) : ∃ a, x = .ok a ∧ f a = b := by
  cases x with
  | error e => cases h
  | ok a =>
    cases h
    exact ⟨a, rfl, rfl⟩

theorem bind_eq_ok {β : Type} {first : Except ε α} {second : α → Except ε β} {b : β} :
    first >>= second = .ok b ↔ ∃ a, first = .ok a ∧ second a = .ok b := by
  cases first with
  | error e => exact ⟨(fun h => nomatch h), fun ⟨_, h, _⟩ => nomatch h⟩
  | ok a =>
    constructor
    · exact fun h => ⟨a, rfl, h⟩
    · rintro ⟨_, ⟨⟩, h⟩
      exact h

theorem foldl_rule {f : σ → α → σ} {as : List α} (Inv : List α → σ → Prop) {s : σ} (hs : Inv [] s)
    (hstep : ∀ pre a, pre ++ [a] <+: as → ∀ s, Inv pre s → Inv (pre ++ [a]) (f s a)) : Inv as (as.foldl f s) := by
  induction as using List.reverseRecOn with
  | nil => exact hs
  | append_singleton as a ih =>
    rw [List.foldl_append]
    exact hstep as a (List.prefix_refl _) _ (ih fun pre b hp => hstep pre b (hp.trans (List.prefix_append as [a])))

theorem foldlM_rule {f : σ → α → Except ε σ} {as : List α} (Inv : List α → σ → Prop) {s : σ} (hs : Inv [] s)
    (hstep : ∀ pre a, pre ++ [a] <+: as → ∀ s, Inv pre s → ∃ s', f s a = .ok s' ∧ Inv (pre ++ [a]) s') :
    ∃ s', as.foldlM f s = .ok s' ∧ Inv as s' := by
  induction as using List.reverseRecOn with
  | nil => exact ⟨s, rfl, hs⟩
  | append_singleton as a ih =>
    obtain ⟨s₁, h₁, hinv⟩ := ih fun pre b hp => hstep pre b (hp.trans (List.prefix_append as [a]))
    obtain ⟨s₂, h₂, hinv'⟩ := hstep as a (List.prefix_refl _) s₁ hinv
    refine ⟨s₂, ?_, hinv'⟩
    rw [List.foldlM_append, h₁]
    exact (bind_pure _).trans h₂

theorem foldlM_partial_rule {f : σ → α → Except ε σ} {as : List α} (Inv : List α → σ → Prop) {s s' : σ}
    (h : as.foldlM f s = .ok s') (hs : Inv [] s)
    (hstep : ∀ pre a s s', Inv pre s → f s a = .ok s' → Inv (pre ++ [a]) s') : Inv as s' := by
  induction as using List.reverseRecOn generalizing s' with
  | nil =>
    cases h
    exact hs
  | append_singleton as a ih =>
    rw [List.foldlM_append] at h
    cases h₁ : as.foldlM f s with
    | error e =>
      rw [h₁] at h
      cases h
    | ok s₁ =>
      rw [h₁] at h
      exact hstep as a s₁ s' (ih h₁) ((bind_pure _).symm.trans h)

theorem foldlM_turn {f : σ → α → Except ε σ} {as : List α} {s s' : σ} (h : as.foldlM f s = .ok s') {a : α} (ha : a ∈ as) :
    ∃ s₁ s₂, f s₁ a = .ok s₂ := by
  induction as generalizing s with
  | nil => cases ha
  | cons b as ih =>
    rw [List.foldlM_cons] at h
    cases hb : f s b with
    | error e =>
      rw [hb] at h
      cases h
    | ok s₁ =>
      rw [hb] at h
      rcases List.mem_cons.1 ha with rfl | ha
      · exact ⟨s, s₁, hb⟩
      · exact ih h ha

end N8n.Lib
