import N8n.Lib.Transition

namespace N8n.Lib

namespace TransitionSystem

variable {σ α : Type} {T : TransitionSystem σ α} {s₀ s s' : σ} {past : List (σ × α)}

/-- The runs from `s₀` with the steps that they take, the last step first. -/
inductive Path (T : TransitionSystem σ α) (s₀ : σ) : List (σ × α) → σ → Prop
  | refl : Path T s₀ [] s₀
  | step {past : List (σ × α)} {s s' : σ} (a : α) (h : Path T s₀ past s) (hs : T.step s a = some s') :
      Path T s₀ ((s, a) :: past) s'

theorem Path.relates {R : List (σ × α) → σ → Prop} (hinit : R [] s₀)
    (hstep : ∀ past s a s', R past s → T.step s a = some s' → R ((s, a) :: past) s') (h : T.Path s₀ past s) :
    R past s := by
  induction h with
  | refl => exact hinit
  | step a _ hs ih => exact hstep _ _ a _ ih hs

/-- The steps of a run after these, and the state that it ends in. -/
def trace (T : TransitionSystem σ α) (past : List (σ × α)) (s : σ) : List α → Option (List (σ × α) × σ)
  | [] => some (past, s)
  | a :: as => (T.step s a).bind fun s' => trace T ((s, a) :: past) s' as

theorem trace_path {as : List α} {past' : List (σ × α)} (hp : T.Path s₀ past s)
    (h : T.trace past s as = some (past', s')) : T.Path s₀ past' s' := by
  induction as generalizing past s with
  | nil =>
    cases h
    exact hp
  | cons a as ih =>
    obtain ⟨s₁, hs, h⟩ := Option.bind_eq_some_iff.1 h
    exact ih (hp.step a hs) h

end TransitionSystem

section

variable {ε : Type} {occurs breaks : ε → Prop} {time : ε → Int} {gap t : Int} {n : Nat} {e : ε} {past : List ε}

/-- The history has `n` occurrences, the last one at `t`: successive ones are at least `gap` apart, and since
the first one nothing has broken them off. -/
def Recurs (occurs breaks : ε → Prop) (time : ε → Int) (gap : Int) : Nat → Int → List ε → Prop
  | 0, _, _ => True
  | n + 1, t, past => ∃ since e before last, past = since ++ e :: before ∧ (∀ e' ∈ since, ¬ breaks e') ∧
      occurs e ∧ time e = t ∧ last + gap ≤ t ∧ Recurs occurs breaks time gap n last before

theorem Recurs.pred (h : Recurs occurs breaks time gap (n + 1) t past) : Recurs occurs breaks time gap n t past := by
  induction n generalizing t past with
  | zero => trivial
  | succ n ih =>
    obtain ⟨since, e, before, last, he, hs, ho, ht, hl, h⟩ := h
    exact ⟨since, e, before, last, he, hs, ho, ht, hl, ih h⟩

theorem Recurs.mono {m : Nat} (h : Recurs occurs breaks time gap n t past) (hm : m ≤ n) :
    Recurs occurs breaks time gap m t past := by
  induction hm with
  | refl => exact h
  | step _ ih => exact ih h.pred

theorem Recurs.cons (h : Recurs occurs breaks time gap n t past) (he : ¬ breaks e) :
    Recurs occurs breaks time gap n t (e :: past) := by
  cases n with
  | zero => trivial
  | succ n =>
    obtain ⟨since, e', before, last, rfl, hs, h⟩ := h
    refine ⟨e :: since, e', before, last, rfl, ?_, h⟩
    intro e'' hm
    rcases List.mem_cons.1 hm with rfl | hm
    · exact he
    · exact hs e'' hm

theorem Recurs.breaks_mono {breaks' : ε → Prop} (h : Recurs occurs breaks time gap n t past)
    (hb : ∀ e ∈ past, breaks' e → breaks e) : Recurs occurs breaks' time gap n t past := by
  induction n generalizing t past with
  | zero => trivial
  | succ n ih =>
    obtain ⟨since, e, before, last, rfl, hs, ho, ht, hl, h⟩ := h
    refine ⟨since, e, before, last, rfl, fun e' hm hb' => ?_, ho, ht, hl, ih h fun e' hm => ?_⟩
    · exact hs e' hm (hb e' (List.mem_append_left _ hm) hb')
    · exact hb e' (List.mem_append_right _ (List.mem_cons_of_mem _ hm))

/-- The occurrences since the last break. -/
def streak (occurs breaks : ε → Prop) [DecidablePred occurs] [DecidablePred breaks] (past : List ε) : Nat :=
  (past.takeWhile fun e => ¬ breaks e).countP occurs

theorem Recurs.le_streak [DecidablePred occurs] [DecidablePred breaks] (hdisj : ∀ e, occurs e → ¬ breaks e)
    (h : Recurs occurs breaks time gap n t past) : n ≤ streak occurs breaks past := by
  induction n generalizing t past with
  | zero => exact Nat.zero_le _
  | succ n ih =>
    obtain ⟨since, e, before, last, rfl, hs, ho, -, -, h⟩ := h
    have hsince : (since ++ e :: before).takeWhile (fun e => decide ¬ breaks e) =
        since ++ e :: before.takeWhile fun e => decide ¬ breaks e := by
      rw [List.takeWhile_append_of_pos fun e' hm => decide_eq_true (hs e' hm)]
      apply congrArg
      exact List.takeWhile_cons_of_pos (p := fun e => decide ¬ breaks e) (decide_eq_true (hdisj e ho))
    have hcount := List.countP_cons_of_pos (p := fun e => decide (occurs e))
      (l := before.takeWhile fun e => decide ¬ breaks e) (decide_eq_true ho)
    have hn := ih h
    rw [streak] at hn ⊢
    rw [hsince, List.countP_append, hcount]
    omega

theorem Recurs.again (h : Recurs occurs breaks time gap n t past) (ho : occurs e) (ht : t + gap ≤ time e) :
    Recurs occurs breaks time gap (n + 1) (time e) (e :: past) :=
  ⟨[], e, past, t, rfl, fun _ hm => absurd hm List.not_mem_nil, ho, rfl, ht, h⟩

theorem Recurs.first (past : List ε) (ho : occurs e) : Recurs occurs breaks time gap 1 (time e) (e :: past) := by
  have h : Recurs occurs breaks time gap 0 (time e - gap) past := trivial
  apply h.again ho
  omega

end

end N8n.Lib
