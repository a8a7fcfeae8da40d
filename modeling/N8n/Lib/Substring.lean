import Mathlib.Data.List.Infix

namespace N8n.Lib

variable {α : Type} [DecidableEq α] {pattern : List α}

/-- The string with the first occurrence of the pattern replaced. -/
@[grind =] def replaceFirst (pattern replacement : List α) : List α → List α
  | [] => if pattern = [] then replacement else []
  | c :: rest =>
    if pattern <+: c :: rest then replacement ++ (c :: rest).drop pattern.length
    else c :: replaceFirst pattern replacement rest

theorem replaceFirst_head (pattern replacement rest : List α) :
    replaceFirst pattern replacement (pattern ++ rest) = replacement ++ rest := by
  cases h : pattern ++ rest with
  | nil =>
    obtain ⟨rfl, rfl⟩ := List.append_eq_nil_iff.1 h
    simp [replaceFirst]
  | cons c tail =>
    have hp : pattern <+: c :: tail := h ▸ List.prefix_append pattern rest
    rw [replaceFirst, if_pos hp, ← h, List.drop_left]

theorem replaceFirst_at {rest : List α} (replacement : List α) :
    ∀ {before : List α}, (∀ k < before.length, ¬ pattern <+: (before ++ (pattern ++ rest)).drop k) →
      replaceFirst pattern replacement (before ++ (pattern ++ rest)) = before ++ (replacement ++ rest)
  | [], _ => replaceFirst_head pattern replacement rest
  | c :: before, h => by
      have hc : ¬ pattern <+: c :: (before ++ (pattern ++ rest)) := h 0 (Nat.succ_pos _)
      have ht : replaceFirst pattern replacement (before ++ (pattern ++ rest)) = before ++ (replacement ++ rest) :=
        replaceFirst_at replacement fun k hk => h (k + 1) (Nat.succ_lt_succ hk)
      rw [List.cons_append, replaceFirst, if_neg hc, ht, List.cons_append]

theorem replaceFirst_absent (replacement : List α) (hne : pattern ≠ []) :
    ∀ {s : List α}, (∀ k, ¬ pattern <+: s.drop k) → replaceFirst pattern replacement s = s
  | [], _ => by rw [replaceFirst, if_neg hne]
  | c :: rest, h => by
      have hc : ¬ pattern <+: c :: rest := h 0
      have ht := replaceFirst_absent replacement hne (s := rest) (fun k => h (k + 1))
      rw [replaceFirst, if_neg hc, ht]

theorem length_replaceFirst {replacement : List α} (hne : pattern ≠ []) : ∀ {s : List α} {k : Nat},
    pattern <+: s.drop k →
      (replaceFirst pattern replacement s).length + pattern.length = s.length + replacement.length
  | [], k, h => by
      rw [List.drop_nil, List.prefix_nil] at h
      exact absurd h hne
  | c :: rest, k, h => by
      rw [replaceFirst]
      by_cases hc : pattern <+: c :: rest
      · have hle := hc.length_le
        rw [if_pos hc, List.length_append, List.length_drop]
        omega
      · cases k with
        | zero => exact absurd h hc
        | succ k =>
          have ht : (replaceFirst pattern replacement rest).length + pattern.length =
              rest.length + replacement.length := length_replaceFirst hne h
          rw [if_neg hc, List.length_cons, List.length_cons]
          omega

/-- The string with all occurrences of the pattern replaced, from left to right. The first argument counts the units
that still belong to an occurrence. -/
@[grind =] def replaceAll (pattern replacement : List α) : Nat → List α → List α
  | _, [] => []
  | skip + 1, _ :: rest => replaceAll pattern replacement skip rest
  | 0, c :: rest =>
    if pattern <+: c :: rest then replacement ++ replaceAll pattern replacement (pattern.length - 1) rest
    else c :: replaceAll pattern replacement 0 rest

theorem replaceAll_skip (pattern replacement : List α) (s rest : List α) :
    replaceAll pattern replacement s.length (s ++ rest) = replaceAll pattern replacement 0 rest := by
  induction s with
  | nil => rfl
  | cons c s ih => exact ih

theorem replaceAll_at (replacement : List α) (hne : pattern ≠ []) (rest : List α) :
    replaceAll pattern replacement 0 (pattern ++ rest) = replacement ++ replaceAll pattern replacement 0 rest := by
  cases pattern with
  | nil => exact absurd rfl hne
  | cons c pattern =>
    have hp : c :: pattern <+: c :: (pattern ++ rest) := List.prefix_append (c :: pattern) rest
    rw [List.cons_append, replaceAll, if_pos hp]
    exact congrArg (replacement ++ ·) (replaceAll_skip (c :: pattern) replacement pattern rest)

theorem replaceAll_past (replacement : List α) {c : α} {rest : List α} (h : ¬ pattern <+: c :: rest) :
    replaceAll pattern replacement 0 (c :: rest) = c :: replaceAll pattern replacement 0 rest := by
  rw [replaceAll, if_neg h]

theorem pattern_cases {motive : List α → Prop} (hne : pattern ≠ []) (hnil : motive [])
    (hat : ∀ rest, motive rest → motive (pattern ++ rest))
    (hpast : ∀ c rest, ¬ pattern <+: c :: rest → motive rest → motive (c :: rest)) (s : List α) : motive s := by
  induction hn : s.length using Nat.strong_induction_on generalizing s with
  | _ n ih =>
    subst hn
    cases s with
    | nil => exact hnil
    | cons c rest =>
      by_cases hp : pattern <+: c :: rest
      · obtain ⟨t, ht⟩ := hp
        have hlen : t.length < (c :: rest).length := by
          have hpos := List.length_pos_iff.2 hne
          rw [← ht, List.length_append]
          omega
        exact ht ▸ hat t (ih _ hlen t rfl)
      · exact hpast c rest hp (ih _ (Nat.lt_succ_self _) rest rfl)

theorem length_replaceAll (replacement : List α) (hne : pattern ≠ []) (s : List α) :
    ∃ k, (replaceAll pattern replacement 0 s).length + k * pattern.length = s.length + k * replacement.length ∧
      (k = 0 → ¬ pattern <:+: s) := by
  induction s using pattern_cases hne with
  | hnil => exact ⟨0, by rw [replaceAll, Nat.zero_mul, Nat.zero_mul], fun _ h => hne (List.infix_nil.1 h)⟩
  | hat rest ih =>
    obtain ⟨k, hk, -⟩ := ih
    refine ⟨k + 1, ?_, fun h => nomatch h⟩
    rw [replaceAll_at replacement hne, List.length_append, List.length_append, Nat.succ_mul, Nat.succ_mul]
    omega
  | hpast c rest h ih =>
    obtain ⟨k, hk, hzero⟩ := ih
    rw [replaceAll_past replacement h]
    refine ⟨k, ?_, fun h0 hi => (List.infix_cons_iff.1 hi).elim h (hzero h0)⟩
    rw [List.length_cons, List.length_cons]
    omega

theorem replaceAll_absent (replacement : List α) {s : List α}
    (h : ¬ pattern <:+: s) : replaceAll pattern replacement 0 s = s := by
  induction s with
  | nil => rfl
  | cons c rest ih =>
    have hp : ¬ pattern <+: c :: rest := fun hp => h hp.isInfix
    rw [replaceAll_past replacement hp, ih fun hi => h (hi.trans (List.suffix_cons c rest).isInfix)]

end N8n.Lib
