import Mathlib.Data.Rat.Floor
import N8n.WorkflowExecute.RetryTries

namespace N8n.WorkflowExecute

open Lib

variable {c k : Nat} {t t' : Tries}

section Runs

variable {it : Iteration} {s : IRunExecutionData}

def SoftEnd.tries : SoftEnd → Tries
  | .returned _ t | .threw _ t _ | .running t => t

theorem softRetries_extends (it : Iteration) (fuel tryIndex : Nat) (t : Tries) :
    t.calls <+: (softRetries it fuel tryIndex t).tries.calls := by
  induction fuel generalizing tryIndex t with
  | zero =>
    unfold softRetries
    split <;> exact List.prefix_refl _
  | succ fuel ih =>
    have hnext : t.calls <+: (callRunNode it t none).calls := List.prefix_append _ _
    unfold softRetries
    split
    · dsimp only
      split
      · exact hnext
      · exact hnext.trans (ih _ _)
      · exact hnext.trans (ih _ _)
    · exact List.prefix_refl _

def triesOf : (Nat × TryEnd) ⊕ Tries → Tries
  | .inl (_, e) => e.tries
  | .inr t => t

theorem oneTry_extends (it : Iteration) (fuel tryIndex : Nat) (t : Tries) :
    t.calls <+: (triesOf (oneTry it fuel tryIndex t)).calls := by
  unfold oneTry
  split
  · exact (settleOutput_frame it t _).1 ▸ List.prefix_refl _
  · have hcall : t.calls <+: (callRunNode it (collectResults it t)
        (some (collectResults it t).subNodeExecutionResults)).calls := List.prefix_append _ _
    have hsoft := softRetries_extends it fuel tryIndex
      (callRunNode it (collectResults it t) (some (collectResults it t).subNodeExecutionResults))
    dsimp only
    split
    · exact hcall
    all_goals
      revert hsoft
      cases softRetries it fuel tryIndex
          (callRunNode it (collectResults it t) (some (collectResults it t).subNodeExecutionResults)) with
      | running t' => exact fun hsoft => hcall.trans hsoft
      | threw ti t' e => exact fun hsoft => hcall.trans hsoft
      | returned ti t' => exact fun hsoft => (settleResult_frame it t' _).1 ▸ hcall.trans hsoft

def afterTry (it : Iteration) (fuel : Nat) : (Nat × TryEnd) ⊕ Tries → TryOutcome
  | .inr t => .running t
  | .inl (_, .requested t) => .requested t
  | .inl (_, .nullOutput t) => .nullOutput t
  | .inl (_, .finished t) => .finished t
  | .inl (ti, .threw t e) => tryLoop it fuel (ti + 1) (reportNodeExecutionError it t e)

def resetError (tryIndex : Nat) (t : Tries) : Tries :=
  if tryIndex = 0 then t else { t with executionError := none }

theorem tryLoop_zero (tryIndex : Nat) (t : Tries) : (tryLoop it 0 tryIndex t).tries = t := by
  unfold tryLoop
  split <;> rfl

theorem tryLoop_succ (fuel : Nat) {tryIndex : Nat} (h : (tryIndex : Rat) < it.maxTries) (t : Tries) :
    tryLoop it (fuel + 1) tryIndex t = afterTry it fuel (oneTry it fuel tryIndex (resetError tryIndex t)) := by
  rw [tryLoop, if_pos h]
  unfold afterTry resetError
  rfl

theorem tryLoop_stop (fuel : Nat) {tryIndex : Nat} (h : ¬ (tryIndex : Rat) < it.maxTries) (t : Tries) :
    tryLoop it fuel tryIndex t = .finished t := by
  cases fuel <;> rw [tryLoop, if_neg h]

theorem resetError_calls (tryIndex : Nat) (t : Tries) : (resetError tryIndex t).calls = t.calls := by
  unfold resetError
  split <;> rfl

theorem BeforeCall.resetError (h : BeforeCall it s c t) (tryIndex : Nat) :
    BeforeCall it s c (resetError tryIndex t) := by
  unfold WorkflowExecute.resetError
  split
  · exact h
  · exact ⟨h.length, h.run, h.outer⟩

theorem firstResults_resetError (tryIndex : Nat) (t : Tries) :
    firstResults it s (resetError tryIndex t) = firstResults it s t := by
  unfold resetError
  split <;> rfl

theorem tryLoop_extends (fuel tryIndex : Nat) (t : Tries) : t.calls <+: (tryLoop it fuel tryIndex t).tries.calls := by
  induction fuel generalizing tryIndex t with
  | zero => exact (tryLoop_zero tryIndex t).symm ▸ List.prefix_refl _
  | succ fuel ih =>
    by_cases hlt : (tryIndex : Rat) < it.maxTries
    · have ho := oneTry_extends it fuel tryIndex (resetError tryIndex t)
      rw [resetError_calls] at ho
      rw [tryLoop_succ fuel hlt]
      revert ho
      cases oneTry it fuel tryIndex (resetError tryIndex t) with
      | inr t' => exact id
      | inl p =>
        obtain ⟨ti, e⟩ := p
        cases e with
        | threw t' e => exact fun ho => ho.trans (ih (ti + 1) (reportNodeExecutionError it t' e))
        | requested t' | nullOutput t' | finished t' => exact id
    · rw [tryLoop_stop _ hlt]
      exact List.prefix_refl _

theorem TrySpec.length (h : TrySpec it s c t k t') : t'.calls.length = k + 1 := by
  obtain ⟨t'', ha, hc, _⟩ := h.after
  rw [hc, ha.length]

theorem TrySpec.soft (h : TrySpec it s c t k t') :
    c ≤ k ∧ ∀ i, c ≤ i → i < k → fate it s i = .soft ∧ goesOn it s i := by
  obtain ⟨t'', ha, _⟩ := h.after
  exact ⟨ha.later, ha.softBefore⟩

theorem TrySpec.calls (h : TrySpec it s c t k t') :
    t'.calls = t.calls ++ [some (firstResults it s t)] ++ List.replicate (k - c) none := by
  obtain ⟨t'', ha, hc, _⟩ := h.after
  rw [hc, ha.calls]

theorem TrySpec.beforeNext (h : TrySpec it s c t k t') (hk : fate it s k = .thrown)
    (e : JsError) : BeforeCall it s (k + 1) (reportNodeExecutionError it t' e) := by
  obtain ⟨t'', ha, hc, hr⟩ := h.after
  refine ⟨by simp [reportNodeExecutionError, h.length], ?_, Or.inr (by simp [hk])⟩
  rw [runBefore, if_pos (threwAt_iff.2 hk), reportNodeExecutionError, hr hk, ha.run]

theorem beforeFirst (it : Iteration) (s : IRunExecutionData) : BeforeCall it s 0 { run := s } :=
  ⟨rfl, rfl, Or.inl rfl⟩

variable (hp : getPinnedOutput s it.node = none)
include hp

omit hp in
theorem tryLoop_calls (hpin : getPinnedOutput t.run it.node = none) (fuel tryIndex : Nat)
    (hlt : (tryIndex : Rat) < it.maxTries) :
    t.calls.length + 1 ≤ (tryLoop it (fuel + 1) tryIndex t).tries.calls.length := by
  have hreset : getPinnedOutput (resetError tryIndex t).run it.node = none := by
    unfold resetError
    split <;> exact hpin
  have hone : t.calls.length + 1 ≤ (triesOf (oneTry it fuel tryIndex (resetError tryIndex t))).calls.length := by
    unfold oneTry
    rw [hreset]
    have hcall : (callRunNode it (collectResults it (resetError tryIndex t))
        (some (collectResults it (resetError tryIndex t)).subNodeExecutionResults)).calls.length =
        t.calls.length + 1 := by
      simp [callRunNode, collectResults, resetError_calls]
    have hsoft := (softRetries_extends it fuel tryIndex (callRunNode it (collectResults it (resetError tryIndex t))
        (some (collectResults it (resetError tryIndex t)).subNodeExecutionResults))).length_le
    rw [hcall] at hsoft
    dsimp only
    split
    · exact hcall.ge
    all_goals
      revert hsoft
      cases softRetries it fuel tryIndex (callRunNode it (collectResults it (resetError tryIndex t))
          (some (collectResults it (resetError tryIndex t)).subNodeExecutionResults)) with
      | running t' => exact id
      | threw ti t' e => exact id
      | returned ti t' =>
        intro hsoft
        refine le_trans hsoft ?_
        rw [triesOf, (settleResult_frame it t' _).1]
        exact Nat.le_refl _
  rw [tryLoop_succ fuel hlt]
  revert hone
  cases oneTry it fuel tryIndex (resetError tryIndex t) with
  | inr t' => exact id
  | inl p =>
    obtain ⟨ti, e⟩ := p
    cases e with
    | threw t' e =>
      exact fun hone => le_trans hone (tryLoop_extends fuel (ti + 1) (reportNodeExecutionError it t' e)).length_le
    | requested t' | nullOutput t' | finished t' => exact id

theorem tryLoop_next (hk : ∀ i < k, fails it s i) (hg : ¬ goesOn it s k) (fuel : Nat)
    (hb : BeforeCall it s c t) (hc : c ≤ k) (hlt : (counted it s c : Rat) < it.maxTries) :
    ∃ k' t', k' ≤ k ∧ TrySpec it s c (resetError (counted it s c) t) k' t' ∧
      ((tryLoop it (fuel + 1) (counted it s c) t).tries.calls = t'.calls ∨
        k' < k ∧ fate it s k' = .thrown ∧ ∃ e, tryLoop it (fuel + 1) (counted it s c) t =
          tryLoop it fuel (counted it s (k' + 1)) (reportNodeExecutionError it t' e)) := by
  rw [tryLoop_succ fuel hlt]
  have hspec := oneTry_spec fuel hp (hb.resetError (counted it s c))
  have hle : ∀ {k' : Nat} {t' : Tries}, TrySpec it s c (resetError (counted it s c) t) k' t' → k' ≤ k := by
    intro k' t' h
    by_contra hlt
    exact hg (h.soft.2 k hc (by omega)).2
  revert hspec
  cases oneTry it fuel (counted it s c) (resetError (counted it s c) t) with
  | inr t' =>
    rintro ⟨k', _, h, _⟩
    exact ⟨k', t', hle h, h, Or.inl rfl⟩
  | inl p =>
    obtain ⟨ti, e⟩ := p
    cases e with
    | requested t' | nullOutput t' | finished t' =>
      rintro ⟨k', h, _⟩
      exact ⟨k', t', hle h, h, Or.inl rfl⟩
    | threw t' e =>
      rintro ⟨k', h, hend⟩
      refine ⟨k', t', hle h, h, ?_⟩
      have hstop : ¬ ((ti + 1 : Nat) : Rat) < it.maxTries →
          (afterTry it fuel (.inl (ti, .threw t' e))).tries.calls = t'.calls := by
        intro hnot
        rw [afterTry, tryLoop_stop fuel hnot]
        rfl
      rcases hend with ⟨hf, hti⟩ | ⟨hf, hti⟩ | ⟨hf, hng, hti⟩
      · by_cases hkk : k' = k
        · subst hkk
          rw [goesOn, hf, ← hti] at hg
          exact Or.inl (hstop hg)
        · have hk' := hle h
          exact Or.inr ⟨by omega, hf, e, by rw [afterTry, hti]⟩
      · have hkk : k' = k := by
          by_contra hkk
          have hk' := hle h
          rcases hk k' (by omega) with hs | hs <;> rw [hf] at hs <;> cases hs
        subst hkk
        rw [goesOn, hf, ← hti] at hg
        exact Or.inl (hstop (by push_cast; exact hg))
      · rw [goesOn_soft hf, not_not, ← hti] at hng
        refine Or.inl (hstop ?_)
        push_cast
        rw [hng]
        simp

theorem tryLoop_le (hk : ∀ i < k, fails it s i) (hg : ¬ goesOn it s k) (fuel : Nat)
    (hb : BeforeCall it s c t) (hc : c ≤ k) : (tryLoop it fuel (counted it s c) t).tries.calls.length ≤ k + 1 := by
  induction fuel generalizing c t with
  | zero =>
    rw [tryLoop_zero, hb.length]
    omega
  | succ fuel ih =>
    by_cases hlt : (counted it s c : Rat) < it.maxTries
    · obtain ⟨k', t', hk', h, he | ⟨hkk, hf, e, he⟩⟩ := tryLoop_next hp hk hg fuel hb hc hlt
      · rw [he, h.length]
        omega
      · rw [he]
        exact ih (h.beforeNext hf e) (by omega)
    · rw [tryLoop_stop _ hlt]
      dsimp only [TryOutcome.tries]
      rw [hb.length]
      omega

theorem tryLoop_same (hk : ∀ i < k, fails it s i) (hg : ¬ goesOn it s k)
    (hsoft : ∀ i < k, fate it s i ≠ .soft) {r : EngineResponse} (hr : r.actionResponses = [])
    (hfirst : ∀ t : Tries, t.subNodeExecutionResults.actionResponses = [] → firstResults it s t = r) (fuel : Nat)
    (hb : BeforeCall it s c t) (hc : c ≤ k) (hcalls : ∀ x ∈ t.calls, x = some r)
    (hres : t.subNodeExecutionResults.actionResponses = []) :
    ∀ x ∈ (tryLoop it fuel (counted it s c) t).tries.calls, x = some r := by
  induction fuel generalizing c t with
  | zero => rwa [tryLoop_zero]
  | succ fuel ih =>
    by_cases hlt : (counted it s c : Rat) < it.maxTries
    · obtain ⟨k', t', hk', h, hend⟩ := tryLoop_next hp hk hg fuel hb hc hlt
      have hkc : k' = c := by
        by_contra hne
        have hle := h.soft.1
        exact hsoft c (by omega) (h.soft.2 c (Nat.le_refl c) (by omega)).1
      have hcalls' : ∀ x ∈ t'.calls, x = some r := by
        rw [h.calls, firstResults_resetError, resetError_calls, hfirst t hres, hkc]
        simpa [or_imp, forall_and] using hcalls
      rcases hend with he | ⟨hkk, hf, e, he⟩
      · rwa [he]
      · rw [he]
        refine ih (h.beforeNext hf e) (by omega) hcalls' ?_
        show t'.subNodeExecutionResults.actionResponses = []
        rw [h.results, firstResults_resetError, hfirst t hres, hr]
    · rwa [tryLoop_stop _ hlt]

theorem oneTry_made (fuel : Nat) (hb : BeforeCall it s c t) :
    ∃ k, TrySpec it s c t k (triesOf (oneTry it fuel (counted it s c) t)) := by
  have hspec := oneTry_spec fuel hp hb
  revert hspec
  cases oneTry it fuel (counted it s c) t with
  | inr t' =>
    rintro ⟨k, _, h, _⟩
    exact ⟨k, h⟩
  | inl p =>
    obtain ⟨ti, e⟩ := p
    cases e with
    | requested t' | nullOutput t' | finished t' | threw t' e =>
      rintro ⟨k, h, _⟩
      exact ⟨k, h⟩

omit hp in
theorem afterTry_extends (fuel : Nat) (p : (Nat × TryEnd) ⊕ Tries) :
    (triesOf p).calls <+: (afterTry it fuel p).tries.calls := by
  cases p with
  | inr t => exact List.prefix_refl _
  | inl p =>
    obtain ⟨ti, e⟩ := p
    cases e with
    | threw t e => exact tryLoop_extends fuel (ti + 1) (reportNodeExecutionError it t e)
    | requested t | nullOutput t | finished t => exact List.prefix_refl _

theorem tryLoop_first (fuel : Nat) (hb : BeforeCall it s c t) (hlt : (counted it s c : Rat) < it.maxTries) :
    t.calls ++ [some (firstResults it s t)] <+: (tryLoop it (fuel + 1) (counted it s c) t).tries.calls := by
  obtain ⟨k, h⟩ := oneTry_made hp fuel (hb.resetError (counted it s c))
  rw [tryLoop_succ fuel hlt]
  refine List.IsPrefix.trans ?_ (afterTry_extends fuel _)
  rw [h.calls, firstResults_resetError, resetError_calls]
  exact List.prefix_append _ _

def SoftCall (it : Iteration) (s : IRunExecutionData) (k : Nat) (calls : List (Option EngineResponse)) : Prop :=
  0 < k → fate it s (k - 1) = .soft → calls[k]? = some none

omit hp in
theorem TrySpec.softCall (h : TrySpec it s c t k t') (hb : BeforeCall it s c t)
    {j : Nat} (hc : c ≤ j) (hj : j ≤ k) : SoftCall it s j t'.calls := by
  intro hpos hs
  have hne : c ≠ j := by
    rintro rfl
    rcases hb.outer with h0 | h0
    · omega
    · exact h0 hs
  have hlen : (t.calls ++ [some (firstResults it s t)]).length ≤ j := by
    simp only [List.length_append, hb.length, List.length_singleton]
    omega
  rw [h.calls, List.getElem?_append_right hlen, List.getElem?_replicate, if_pos]
  simp only [List.length_append, hb.length, List.length_singleton]
  omega

omit hp in
theorem SoftCall.mono {calls calls' : List (Option EngineResponse)} (h : SoftCall it s k calls)
    (hpre : calls <+: calls') : SoftCall it s k calls' := by
  intro hpos hs
  obtain ⟨rest, rfl⟩ := hpre
  have hk := h hpos hs
  rw [List.getElem?_append_left (List.getElem?_eq_some_iff.1 hk).1, hk]

theorem le_tryLoop {K : Nat} (hK : ∀ i < K, goesOn it s i ∧ (fails it s i ∨ i + 1 = K ∧ fate it s i = .breaks))
    (fuel : Nat) (hb : BeforeCall it s c t) (hc : c ≤ K) (hfuel : K + 1 - c ≤ fuel)
    (hlt : (counted it s c : Rat) < it.maxTries) :
    K + 1 ≤ (tryLoop it fuel (counted it s c) t).tries.calls.length ∧
      SoftCall it s K (tryLoop it fuel (counted it s c) t).tries.calls := by
  induction fuel generalizing c t with
  | zero => omega
  | succ fuel ih =>
    rw [tryLoop_succ fuel hlt]
    have hspec := oneTry_spec fuel hp (hb.resetError (counted it s c))
    have hreach : ∀ {k' : Nat} {t' t'' : Tries}, TrySpec it s c (resetError (counted it s c) t) k' t' → K ≤ k' →
        t'.calls <+: t''.calls → K + 1 ≤ t''.calls.length ∧ SoftCall it s K t''.calls := by
      intro k' t' t'' h hk' hpre
      have hl := h.length
      have := hpre.length_le
      exact ⟨by omega, (h.softCall (hb.resetError _) hc hk').mono hpre⟩
    revert hspec
    cases oneTry it fuel (counted it s c) (resetError (counted it s c) t) with
    | inr t' =>
      rintro ⟨k', hk', h, _⟩
      exact hreach h (by omega) (List.prefix_refl _)
    | inl p =>
      obtain ⟨ti, e⟩ := p
      cases e with
      | threw t' e =>
        rintro ⟨k', h, hend⟩
        have hpre : t'.calls <+: (afterTry it fuel (.inl (ti, .threw t' e))).tries.calls :=
          tryLoop_extends fuel (ti + 1) (reportNodeExecutionError it t' e)
        by_cases hkk : K ≤ k'
        · exact hreach h hkk hpre
        · obtain ⟨hg, hf⟩ := hK k' (by omega)
          rcases hend with ⟨hf', hti⟩ | ⟨hf', hti⟩ | ⟨hf', hng, _⟩
          · rw [goesOn, hf'] at hg
            rw [afterTry, hti]
            have hsoft := h.soft.1
            exact ih (h.beforeNext hf' e) (by omega) (by omega) hg
          · have hlast : k' + 1 = K := by
              rcases hf with (hf | hf) | hf
              · rw [hf] at hf'
                cases hf'
              · rw [hf] at hf'
                cases hf'
              · exact hf.1
            rw [goesOn, hf', ← hti] at hg
            refine ⟨?_, fun _ hs => ?_⟩
            · have hsoft := h.soft.1
              obtain ⟨f, rfl⟩ : ∃ f, fuel = f + 1 := ⟨fuel - 1, by omega⟩
              have hpin : getPinnedOutput (reportNodeExecutionError it t' e).run it.node = none := by
                unfold getPinnedOutput at hp ⊢
                rwa [show (reportNodeExecutionError it t' e).run.pinData = s.pinData from h.pinData]
              have hmore := tryLoop_calls hpin f (ti + 1) (by push_cast; exact hg)
              have hl : (reportNodeExecutionError it t' e).calls.length = k' + 1 := h.length
              rw [afterTry]
              omega
            · have hkk : K - 1 = k' := by omega
              rw [hkk, hf'] at hs
              cases hs
          · exact absurd hg hng
      | requested t' | nullOutput t' | finished t' =>
        rintro ⟨k', h, hng⟩
        refine hreach h ?_ (List.prefix_refl _)
        by_contra hkk
        exact hng (hK k' (by omega)).1

end Runs

section Budget

variable (it : Iteration) (s : IRunExecutionData)

def callsOf (fuel : Nat) : List (Option EngineResponse) := (tryNode it fuel s).tries.calls

def Succeeds (k : Nat) : Prop := fate it s k ≠ .thrown ∧ fate it s k ≠ .soft

def SameResults (sub : SubNodeExecutionData) (calls : List (Option EngineResponse)) : Prop :=
  (∀ c ∈ calls, ∀ c' ∈ calls, c = c') ∧
    ∀ c ∈ calls, ∃ r, c = some r ∧
      r.actionResponses.map ExecuteNodeResult.action = sub.actions.map SubNodeExecutionDataAction.action

structure RetryKept : Prop where
  budget : ∀ fuel, ((callsOf it s fuel).length : Rat) ≤ it.maxTries
  firstSuccess : ∀ fuel k, Succeeds it s k → (callsOf it s fuel).length ≤ k + 1
  resumed : ∀ sub, it.executionData.metadata.bind ITaskMetadata.subNodeExecutionData = some sub →
    ∀ fuel, SameResults sub (callsOf it s fuel)

/-- Within the budget a call settles before any other success, or the budget
is a whole number, every try but the last fails, and no call throws right
after a soft failure. -/
def StaysInBudget : Prop :=
  (∃ k : Nat, (k : Rat) + 1 ≤ it.maxTries ∧ fate it s k = .settles ∧ ∀ i < k, fails it s i) ∨
    ∃ k : Nat, (k : Rat) + 1 = it.maxTries ∧ fate it s k ≠ .settles ∧ (∀ i < k, fails it s i) ∧
      ∀ i < k, ¬ (fate it s i = .soft ∧ fate it s (i + 1) = .thrown)

/-- The results are there when the node resumes, and they are collected only
once or are the empty list for every call. -/
def ResumesOnce (sub : SubNodeExecutionData) : Prop :=
  (∀ a ∈ sub.actions, (nodeRuns s.runData a.nodeName)[a.runIndex]?.isSome) ∧
    (it.maxTries = 1 ∨ fate it s 0 = .settles ∨
      sub.actions = [] ∧ ∀ i : Nat, (i : Rat) + 1 < it.maxTries → (∀ j < i, fails it s j) → fate it s i ≠ .soft)

def RetryCondition : Prop :=
  (getPinnedOutput s it.node).isSome ∨
    StaysInBudget it s ∧
      ∀ sub, it.executionData.metadata.bind ITaskMetadata.subNodeExecutionData = some sub → ResumesOnce it s sub

end Budget

section BudgetProofs

variable {it : Iteration} {s : IRunExecutionData}

theorem not_succeeds (h : fails it s k) : ¬ Succeeds it s k := by
  rintro ⟨h1, h2⟩
  rcases h with h | h
  · exact h2 h
  · exact h1 h

theorem eq_breaks (hg : goesOn it s k) (hf : ¬ fails it s k) : fate it s k = .breaks := by
  cases hk : fate it s k with
  | soft => exact absurd (Or.inl hk) hf
  | thrown => exact absurd (Or.inr hk) hf
  | breaks => rfl
  | settles => simp [goesOn, hk] at hg

theorem staysInBudget_iff :
    StaysInBudget it s ↔
      ∃ k : Nat, (k : Rat) + 1 ≤ it.maxTries ∧ (∀ i < k, fails it s i) ∧ ¬ goesOn it s k := by
  constructor
  · rintro (⟨k, hk, hs, hf⟩ | ⟨k, hk, hs, hf, hadj⟩)
    · exact ⟨k, hk, hf, by simp [goesOn, hs]⟩
    · have hcount : counted it s (k + 1) = k + 1 := (counted_eq_iff (k + 1)).2 (fun i hi => hadj i (by omega))
      have hcount' : counted it s k = k := (counted_eq_iff k).2 (fun i hi => hadj i (by omega))
      refine ⟨k, hk.le, hf, ?_⟩
      cases hk' : fate it s k with
      | soft => simp only [goesOn, hk', hcount', ← hk]; simp
      | thrown => simp only [goesOn, hk', hcount, ← hk]; simp
      | settles => exact absurd hk' hs
      | breaks => simp only [goesOn, hk', hcount', ← hk]; simp
  · rintro ⟨k, hk, hf, hg⟩
    have hle := counted_le it s k
    have hle' := counted_le it s (k + 1)
    have hcast : (counted it s k : Rat) ≤ k := by exact_mod_cast hle
    have hcast' : (counted it s (k + 1) : Rat) ≤ k + 1 := by exact_mod_cast hle'
    cases hk' : fate it s k with
    | settles => exact Or.inl ⟨k, hk, hk', hf⟩
    | soft =>
      rw [goesOn_soft hk', not_not] at hg
      have hm : (k : Rat) + 1 = it.maxTries := by linarith
      have hck : counted it s k = k := by exact_mod_cast (by linarith : (counted it s k : Rat) = k)
      refine Or.inr ⟨k, hm, by simp [hk'], hf, fun i hi h => ?_⟩
      by_cases hik : i + 1 = k
      · rw [hik, hk'] at h
        cases h.2
      · exact (counted_eq_iff k).1 hck i (by omega) h
    | thrown =>
      simp only [goesOn, hk', not_lt] at hg
      have hm : (k : Rat) + 1 = it.maxTries := by linarith
      have hck : counted it s (k + 1) = k + 1 := by
        exact_mod_cast (by linarith : (counted it s (k + 1) : Rat) = k + 1)
      exact Or.inr ⟨k, hm, by simp [hk'], hf, fun i hi => (counted_eq_iff (k + 1)).1 hck i (by omega)⟩
    | breaks =>
      simp only [goesOn, hk', not_lt] at hg
      have hm : (k : Rat) + 1 = it.maxTries := by linarith
      have hck : counted it s k = k := by exact_mod_cast (by linarith : (counted it s k : Rat) = k)
      refine Or.inr ⟨k, hm, by simp [hk'], hf, fun i hi h => ?_⟩
      by_cases hik : i + 1 = k
      · rw [hik, hk'] at h
        cases h.2
      · exact (counted_eq_iff k).1 hck i (by omega) h

theorem counted_zero_lt (it : Iteration) (s : IRunExecutionData) : (counted it s 0 : Rat) < it.maxTries := by
  have h := one_le_maxTries it
  simp only [counted, Nat.cast_zero]
  linarith

section Unpinned

variable (hp : getPinnedOutput s it.node = none)
include hp

theorem callsOf_le (hf : ∀ i < k, fails it s i) (hg : ¬ goesOn it s k) (fuel : Nat) :
    (callsOf it s fuel).length ≤ k + 1 :=
  tryLoop_le hp hf hg fuel (beforeFirst it s) (Nat.zero_le k)

theorem le_callsOf {K : Nat} (hK : ∀ i < K, goesOn it s i ∧ (fails it s i ∨ i + 1 = K ∧ fate it s i = .breaks)) :
    K + 1 ≤ (callsOf it s (K + 1)).length ∧ SoftCall it s K (callsOf it s (K + 1)) :=
  le_tryLoop hp hK (K + 1) (beforeFirst it s) (Nat.zero_le K) (by omega) (counted_zero_lt it s)

theorem stays_of_kept (hbudget : ∀ fuel, ((callsOf it s fuel).length : Rat) ≤ it.maxTries)
    (hfirst : ∀ fuel k, Succeeds it s k → (callsOf it s fuel).length ≤ k + 1) : StaysInBudget it s := by
  rw [staysInBudget_iff]
  by_contra hno
  have hgo : ∀ k : Nat, (k : Rat) + 1 ≤ it.maxTries → (∀ i < k, fails it s i) → goesOn it s k := by
    intro k hk hf
    by_contra hg
    exact hno ⟨k, hk, hf, hg⟩
  have hpos : (0 : Rat) ≤ it.maxTries := le_trans (by norm_num) (one_le_maxTries it)
  have hfloor : ∀ i : Nat, i < ⌊it.maxTries⌋₊ → (i : Rat) + 1 ≤ it.maxTries := by
    intro i hi
    have h1 : ((i + 1 : Nat) : Rat) ≤ (⌊it.maxTries⌋₊ : Rat) := by exact_mod_cast hi
    have h2 := Nat.floor_le hpos
    push_cast at h1
    linarith
  by_cases hall : ∀ i < ⌊it.maxTries⌋₊, fails it s i
  · have hmade := (le_callsOf hp (K := ⌊it.maxTries⌋₊) (fun i hi =>
      ⟨hgo i (hfloor i hi) (fun j hj => hall j (by omega)), Or.inl (hall i hi)⟩)).1
    have hcast : ((⌊it.maxTries⌋₊ + 1 : Nat) : Rat) ≤ it.maxTries :=
      le_trans (by exact_mod_cast hmade) (hbudget (⌊it.maxTries⌋₊ + 1))
    have hlt := Nat.lt_floor_add_one it.maxTries
    push_cast at hcast
    linarith
  · push Not at hall
    classical
    have hex : ∃ i, ¬ fails it s i := ⟨_, hall.choose_spec.2⟩
    obtain ⟨i, hi, hif⟩ := hall
    have hmin : ∀ j < Nat.find hex, fails it s j := fun j hj => not_not.1 (Nat.find_min hex hj)
    have hle : Nat.find hex ≤ i := Nat.find_min' hex hif
    have hgj := hgo (Nat.find hex) (hfloor _ (by omega)) hmin
    have hbreak := eq_breaks hgj (Nat.find_spec hex)
    have hmade := (le_callsOf hp (K := Nat.find hex + 1) (fun j hj => by
      by_cases hjk : j = Nat.find hex
      · rw [hjk]
        exact ⟨hgj, Or.inr ⟨rfl, hbreak⟩⟩
      · have hjlt : j < Nat.find hex := by omega
        exact ⟨hgo j (hfloor j (by omega)) (fun l hl => hmin l (by omega)), Or.inl (hmin j hjlt)⟩)).1
    have hstop := hfirst (Nat.find hex + 1 + 1) (Nat.find hex) ⟨by simp [hbreak], by simp [hbreak]⟩
    omega

theorem kept_of_stays (h : StaysInBudget it s) :
    (∀ fuel, ((callsOf it s fuel).length : Rat) ≤ it.maxTries) ∧
      ∀ fuel k, Succeeds it s k → (callsOf it s fuel).length ≤ k + 1 := by
  obtain ⟨k, hk, hf, hg⟩ := staysInBudget_iff.1 h
  refine ⟨fun fuel => ?_, fun fuel j hj => ?_⟩
  · have hle : ((callsOf it s fuel).length : Rat) ≤ (k : Rat) + 1 := by exact_mod_cast callsOf_le hp hf hg fuel
    linarith
  · have hle := callsOf_le hp hf hg fuel
    have hkj : k ≤ j := by
      by_contra hlt
      exact not_succeeds (hf j (by omega)) hj
    omega

end Unpinned

theorem actions_of_filterMap {runData : IRunData} {actions : List SubNodeExecutionDataAction} :
    (actions.filterMap (subNodeResult runData)).map ExecuteNodeResult.action =
        actions.map SubNodeExecutionDataAction.action ↔
      ∀ a ∈ actions, (nodeRuns runData a.nodeName)[a.runIndex]?.isSome := by
  induction actions with
  | nil => simp
  | cons a actions ih =>
    cases ha : (nodeRuns runData a.nodeName)[a.runIndex]? with
    | some data =>
      have hsome : subNodeResult runData a = some ⟨a.action, data⟩ := by simp [subNodeResult, ha]
      simp only [List.filterMap_cons, hsome, List.map_cons, List.cons.injEq, true_and, List.forall_mem_cons, ha,
        Option.isSome_some, ih]
    | none =>
      have hle := List.length_filterMap_le (subNodeResult runData) actions
      have hnone : subNodeResult runData a = none := by simp [subNodeResult, ha]
      simp only [List.filterMap_cons, hnone, List.map_cons, List.forall_mem_cons, ha, Option.isSome_none,
        Bool.false_eq_true, false_and, iff_false]
      intro h
      have hl := congrArg List.length h
      simp only [List.length_map, List.length_cons] at hl
      omega

section Resume

variable {sub : SubNodeExecutionData}
  (hsub : it.executionData.metadata.bind ITaskMetadata.subNodeExecutionData = some sub)
include hsub

theorem firstResults_eq (t : Tries) : firstResults it s t =
    ⟨t.subNodeExecutionResults.actionResponses ++ sub.actions.filterMap (subNodeResult s.runData), sub.metadata⟩ := by
  rw [firstResults, collectSubNodeResults, hsub]

variable (hp : getPinnedOutput s it.node = none)
include hp

theorem same_of_resumesOnce (hstays : StaysInBudget it s) (h : ResumesOnce it s sub) (fuel : Nat) :
    SameResults sub (callsOf it s fuel) := by
  obtain ⟨hslots, hone⟩ := h
  obtain ⟨k, hk, hf, hg⟩ := staysInBudget_iff.1 hstays
  have hactions := actions_of_filterMap.2 hslots
  have hsingle : (callsOf it s fuel).length ≤ 1 → SameResults sub (callsOf it s fuel) := by
    intro hle
    cases fuel with
    | zero =>
      rw [callsOf, tryNode, tryLoop_zero]
      exact ⟨fun c hc => absurd hc List.not_mem_nil, fun c hc => absurd hc List.not_mem_nil⟩
    | succ fuel =>
      obtain ⟨rest, hrest⟩ := tryLoop_first hp fuel (beforeFirst it s) (counted_zero_lt it s)
      have hcalls : callsOf it s (fuel + 1) = [some (firstResults it s { run := s })] := by
        have hl := congrArg List.length hrest
        have he : callsOf it s (fuel + 1) = (tryLoop it (fuel + 1) (counted it s 0) { run := s }).tries.calls := rfl
        rw [he] at hle ⊢
        simp only [List.nil_append, List.length_append, List.length_singleton] at hl
        rw [List.length_eq_zero_iff.1 (by omega : rest.length = 0)] at hrest
        exact hrest.symm
      rw [hcalls]
      refine ⟨by simp, fun c hc => ⟨firstResults it s { run := s }, List.mem_singleton.1 hc, ?_⟩⟩
      rw [firstResults_eq hsub]
      exact hactions
  rcases hone with hm | hs | ⟨hnil, hsoft⟩
  · refine hsingle (le_trans (callsOf_le hp hf hg fuel) ?_)
    have h0 : k = 0 := by
      rw [hm] at hk
      exact_mod_cast (by linarith [Nat.cast_nonneg (α := Rat) k] : (k : Rat) = 0)
    omega
  · exact hsingle (callsOf_le hp (k := 0) (fun i hi => absurd hi (by omega)) (by simp [goesOn, hs]) fuel)
  · have hall := tryLoop_same hp hf hg (r := ⟨[], sub.metadata⟩)
      (fun i hi => hsoft i (by
        have hik : (i : Rat) + 1 ≤ k := by exact_mod_cast hi
        linarith) (fun j hj => hf j (by omega))) rfl
      (fun t ht => by rw [firstResults_eq hsub, ht, hnil]; rfl) fuel (beforeFirst it s) (Nat.zero_le k)
      (fun x hx => absurd hx List.not_mem_nil) rfl
    refine ⟨fun c hc c' hc' => (hall c hc).trans (hall c' hc').symm, fun c hc => ⟨_, hall c hc, ?_⟩⟩
    simp [hnil]

theorem resumesOnce_of_same (hstays : StaysInBudget it s) (h : ∀ fuel, SameResults sub (callsOf it s fuel)) :
    ResumesOnce it s sub := by
  obtain ⟨k, hk, hf, hg⟩ := staysInBudget_iff.1 hstays
  have hfirst := tryLoop_first hp 1 (beforeFirst it s) (counted_zero_lt it s)
  have hmem : some (firstResults it s { run := s }) ∈ callsOf it s 2 := hfirst.subset (by simp)
  have hslots : ∀ a ∈ sub.actions, (nodeRuns s.runData a.nodeName)[a.runIndex]?.isSome := by
    obtain ⟨r, hr, hr'⟩ := (h 2).2 _ hmem
    rw [← Option.some.inj hr, firstResults_eq hsub] at hr'
    exact actions_of_filterMap.1 hr'
  have hnosoft : ∀ i : Nat, (i : Rat) + 1 < it.maxTries → (∀ j < i, fails it s j) → fate it s i ≠ .soft := by
    intro i hi hfi hs
    have hgo : ∀ j < i + 1, goesOn it s j ∧ (fails it s j ∨ j + 1 = i + 1 ∧ fate it s j = .breaks) := by
      intro j hj
      have hfj : fails it s j := by
        by_cases hji : j = i
        · exact hji ▸ Or.inl hs
        · exact hfi j (by omega)
      have h1 : (counted it s j : Rat) ≤ i := by exact_mod_cast le_trans (counted_le it s j) (by omega)
      have h2 : (counted it s (j + 1) : Rat) ≤ i + 1 := by
        exact_mod_cast le_trans (counted_le it s (j + 1)) (by omega)
      refine ⟨?_, Or.inl hfj⟩
      rcases hfj with hfj | hfj
      · rw [goesOn_soft hfj]
        intro he
        linarith
      · rw [goesOn, hfj]
        exact lt_of_le_of_lt h2 hi
    obtain ⟨_, hcall⟩ := le_callsOf hp hgo
    have hnone := hcall (Nat.succ_pos i) (by simpa using hs)
    obtain ⟨r, hr, _⟩ := (h _).2 none (List.mem_of_getElem? hnone)
    cases hr
  refine ⟨hslots, ?_⟩
  by_cases hm : it.maxTries = 1
  · exact Or.inl hm
  have hm1 : (1 : Rat) < it.maxTries := lt_of_le_of_ne (one_le_maxTries it) (Ne.symm hm)
  cases h0 : fate it s 0 with
  | settles => exact Or.inr (Or.inl rfl)
  | soft => exact absurd h0 (hnosoft 0 (by simpa using hm1) (fun j hj => absurd hj (by omega)))
  | breaks =>
    cases k with
    | zero => exact absurd (by simpa [goesOn, h0, counted] using hm1) hg
    | succ k =>
      rcases hf 0 (by omega) with hs | hs
      · rw [h0] at hs
        cases hs
      · rw [h0] at hs
        cases hs
  | thrown =>
    refine Or.inr (Or.inr ⟨?_, hnosoft⟩)
    have hg0 : goesOn it s 0 := by simpa [goesOn, h0, counted] using hm1
    have hmade : 2 ≤ (callsOf it s 2).length := (le_callsOf hp (K := 1) (fun i hi => by
      obtain rfl : i = 0 := by omega
      exact ⟨hg0, Or.inl (Or.inr h0)⟩)).1
    obtain ⟨k', t', _, hspec, hend⟩ := tryLoop_next hp hf hg 1 (beforeFirst it s) (Nat.zero_le k) (counted_zero_lt it s)
    have hk0 : k' = 0 := by
      by_contra hne
      have hs := (hspec.soft.2 0 (Nat.le_refl 0) (by omega)).1
      rw [h0] at hs
      cases hs
    subst hk0
    rcases hend with he | ⟨_, _, e, he⟩
    · have hl : (callsOf it s 2).length = 1 := (congrArg List.length he).trans hspec.length
      omega
    · have hsecond := tryLoop_first hp 0 (hspec.beforeNext h0 e) (by simpa [counted] using hm1)
      have he' : callsOf it s 2 = (tryLoop it 1 (counted it s 1) (reportNodeExecutionError it t' e)).tries.calls :=
        congrArg (fun o => o.tries.calls) he
      have hmem' : some (firstResults it s (reportNodeExecutionError it t' e)) ∈ callsOf it s 2 := by
        rw [he']
        exact hsecond.subset (by simp)
      have hsame := Option.some.inj ((h 2).1 _ hmem _ hmem')
      have hres : (reportNodeExecutionError it t' e).subNodeExecutionResults = firstResults it s { run := s } :=
        hspec.results.trans (firstResults_resetError _ _)
      rw [firstResults_eq hsub (reportNodeExecutionError it t' e), hres] at hsame
      have hl := congrArg (fun r : EngineResponse => r.actionResponses.length) hsame
      have hactions := congrArg List.length (actions_of_filterMap.2 hslots)
      rw [firstResults_eq hsub] at hl
      simp only [makeEngineResponse, List.nil_append, List.length_append, List.length_map] at hl hactions
      rw [← List.length_eq_zero_iff]
      omega

end Resume

theorem callsOf_pinned (hp : (getPinnedOutput s it.node).isSome) (fuel : Nat) : callsOf it s fuel = [] := by
  have hall : ∀ (fuel tryIndex : Nat) (t : Tries), t.calls = [] → t.run.pinData = s.pinData →
      (tryLoop it fuel tryIndex t).tries.calls = [] := by
    intro fuel
    induction fuel with
    | zero =>
      intro tryIndex t ht _
      rwa [tryLoop_zero]
    | succ fuel ih =>
      intro tryIndex t ht hpin
      by_cases hlt : (tryIndex : Rat) < it.maxTries
      · have hreset : (resetError tryIndex t).run.pinData = s.pinData := by
          unfold resetError
          split <;> exact hpin
        obtain ⟨pinned, hpinned⟩ := Option.isSome_iff_exists.1 hp
        have hone : oneTry it fuel tryIndex (resetError tryIndex t) =
            .inl (tryIndex, settleOutput it (resetError tryIndex t) (some pinned)) := by
          have hpin' : getPinnedOutput (resetError tryIndex t).run it.node = some pinned := by
            unfold getPinnedOutput at hpinned ⊢
            rwa [hreset]
          rw [oneTry, hpin']
        obtain ⟨hc, _, hd⟩ := settleOutput_frame it (resetError tryIndex t) (some pinned)
        rw [resetError_calls, ht] at hc
        rw [hreset] at hd
        rw [tryLoop_succ fuel hlt, hone]
        revert hc hd
        cases settleOutput it (resetError tryIndex t) (some pinned) with
        | threw t' e => exact fun hc hd => ih (tryIndex + 1) (reportNodeExecutionError it t' e) hc hd
        | requested t' | nullOutput t' | finished t' => exact fun hc _ => hc
      · rwa [tryLoop_stop _ hlt]
  exact hall fuel 0 { run := s } rfl rfl

end BudgetProofs

/-- One iteration keeps the retry contract exactly under the stated condition on its calls. -/
theorem retry_kept_iff (it : Iteration) (s : IRunExecutionData) : RetryKept it s ↔ RetryCondition it s := by
  cases hp : getPinnedOutput s it.node with
  | some pinned =>
    have hsome : (getPinnedOutput s it.node).isSome := by simp [hp]
    refine ⟨fun _ => Or.inl hsome, fun _ => ⟨fun fuel => ?_, fun fuel k _ => ?_, fun sub _ fuel => ?_⟩⟩
    · rw [callsOf_pinned hsome]
      exact le_trans (by simp) (one_le_maxTries it)
    · rw [callsOf_pinned hsome]
      exact Nat.zero_le _
    · rw [callsOf_pinned hsome]
      exact ⟨fun c hc => absurd hc List.not_mem_nil, fun c hc => absurd hc List.not_mem_nil⟩
  | none =>
    constructor
    · rintro ⟨hbudget, hfirst, hresumed⟩
      have hstays := stays_of_kept hp hbudget hfirst
      exact Or.inr ⟨hstays, fun sub hsub => resumesOnce_of_same hsub hp hstays (hresumed sub hsub)⟩
    · rintro (hsome | ⟨hstays, hsub⟩)
      · simp [hp] at hsome
      · obtain ⟨hbudget, hfirst⟩ := kept_of_stays hp hstays
        exact ⟨hbudget, hfirst, fun sub h fuel => same_of_resumesOnce h hp hstays (hsub sub h) fuel⟩

section Example

def retryingNode : INode :=
  { name := "HTTP", type := "httpRequest", typeVersion := 1, position := (0, 0), retryOnFail := some true
    maxTries := some 2 }

/-- A soft failure, then a call that throws, then a success. -/
def softThenThrown : NodeEnv where
  runNode
    | 0 => .response (some [.items [{ json := [("error", .str "quota")] }]])
    | 1 => .threw (.nodeError "timeout")
    | _ => .response (some [.items [{ json := [] }]])
  putsToWait := fun _ => false
  processNodeOutput := fun _ data => .ok data

def emptyWorkflow : Workflow where
  nodes := setNodes []
  nodes_named := setNodes_named []
  connectionsBySourceNode := ObjectMap.empty
  executionOrder := some .v1
  getByNameAndVersion := fun _ _ => ⟨1, none⟩
  getSimpleParameterValue := fun _ _ => none

def softThenThrownIteration : Iteration where
  workflow := emptyWorkflow
  env := softThenThrown
  node := retryingNode
  executionData := { node := some retryingNode, main := some [.items [{ json := [] }]], source := none }
  runIndex := 0

/-- With two tries allowed, the node is called three times. -/
theorem retry_budget_exceeded : ¬ RetryKept softThenThrownIteration {} := by
  intro h
  have hb := h.budget 3
  rw [show (callsOf softThenThrownIteration {} 3).length = 3 from by decide +kernel,
    show softThenThrownIteration.maxTries = 2 from by decide +kernel] at hb
  norm_num at hb

end Example

end N8n.WorkflowExecute
