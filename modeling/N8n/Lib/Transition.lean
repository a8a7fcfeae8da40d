namespace N8n.Lib

structure TransitionSystem (σ α : Type) where
  init : σ → Prop
  step : σ → α → Option σ

namespace TransitionSystem

variable {σ α : Type} {T : TransitionSystem σ α} {ok ok' : σ → α → Prop} {s s' s'' : σ}

/-- The states that steps with the property `ok` lead to. -/
inductive Leads (T : TransitionSystem σ α) (ok : σ → α → Prop) (s : σ) : σ → Prop
  | refl : Leads T ok s s
  | step {s' s'' : σ} (a : α) (h : Leads T ok s s') (hok : ok s' a) (hs : T.step s' a = some s'') : Leads T ok s s''

def Reachable (T : TransitionSystem σ α) (ok : σ → α → Prop) (s : σ) : Prop := ∃ s₀, T.init s₀ ∧ T.Leads ok s₀ s

def Any : σ → α → Prop := fun _ _ => True

theorem Leads.trans (h : T.Leads ok s s') (h' : T.Leads ok s' s'') : T.Leads ok s s'' := by
  induction h' with
  | refl => exact h
  | step a _ hok hs ih => exact .step a ih hok hs

theorem Leads.mono (h : T.Leads ok s s') (hok : ∀ s a, ok s a → ok' s a) : T.Leads ok' s s' := by
  induction h with
  | refl => exact .refl
  | step a _ ha hs ih => exact .step a ih (hok _ a ha) hs

theorem Leads.relates {R : σ → σ → Prop} (hrefl : R s s)
    (hstep : ∀ s' a s'', R s s' → T.Leads ok s s' → ok s' a → T.step s' a = some s'' → R s s'')
    (h : T.Leads ok s s') : R s s' := by
  induction h with
  | refl => exact hrefl
  | step a hl hok hs ih => exact hstep _ a _ ih hl hok hs

theorem Reachable.leads (h : T.Reachable ok s) (h' : T.Leads ok s s') : T.Reachable ok s' := by
  obtain ⟨s₀, h₀, hl⟩ := h
  exact ⟨s₀, h₀, hl.trans h'⟩

theorem Reachable.invariant {P : σ → Prop} (h : T.Reachable ok s) (hinit : ∀ s, T.init s → P s)
    (hstep : ∀ s a s', ok s a → P s → T.step s a = some s' → P s') : P s := by
  obtain ⟨s₀, h₀, hl⟩ := h
  exact hl.relates (R := fun _ s => P s) (hinit s₀ h₀) fun s' a s'' hp _ hok hs => hstep s' a s'' hok hp hs

def run (T : TransitionSystem σ α) (check : σ → α → Bool) (s : σ) : List α → Option σ
  | [] => some s
  | a :: as => if check s a then (T.step s a).bind fun s' => run T check s' as else none

theorem run_leads {check : σ → α → Bool} {as : List α} (h : T.run check s as = some s') :
    T.Leads (fun s a => check s a = true) s s' := by
  induction as generalizing s with
  | nil =>
    cases h
    exact .refl
  | cons a as ih =>
    rw [run] at h
    split at h
    · next hc =>
      obtain ⟨s₁, h₁, h⟩ := Option.bind_eq_some_iff.1 h
      exact (Leads.step a .refl hc h₁).trans (ih h)
    · cases h

/-- Each step of the run from `s` has the property `P`; a label that is not enabled ends the run. -/
def Along (T : TransitionSystem σ α) (P : σ → α → σ → Prop) (s : σ) : List α → Prop
  | [] => True
  | a :: as => ∀ s', T.step s a = some s' → P s a s' ∧ Along T P s' as

theorem along_iff {Inv : σ → Prop} {P Q : σ → α → σ → Prop} {as : List α} (hs : Inv s)
    (hiff : ∀ s a s', Inv s → T.step s a = some s' → (P s a s' ↔ Q s a s'))
    (hkeep : ∀ s a s', Inv s → T.step s a = some s' → Q s a s' → Inv s') : T.Along P s as ↔ T.Along Q s as := by
  induction as generalizing s with
  | nil => exact Iff.rfl
  | cons a as ih =>
    constructor
    · intro h s' hstep
      obtain ⟨hp, hr⟩ := h s' hstep
      have hq := (hiff s a s' hs hstep).1 hp
      exact ⟨hq, (ih (hkeep s a s' hs hstep hq)).1 hr⟩
    · intro h s' hstep
      obtain ⟨hq, hr⟩ := h s' hstep
      exact ⟨(hiff s a s' hs hstep).2 hq, (ih (hkeep s a s' hs hstep hq)).2 hr⟩

end TransitionSystem

end N8n.Lib
