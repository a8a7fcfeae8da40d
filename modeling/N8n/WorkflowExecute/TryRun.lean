import N8n.WorkflowExecute.RetryBudget

namespace N8n.WorkflowExecute

structure KeptByTries (it : Iteration) (P : IRunExecutionData → Prop) : Prop where
  waits : ∀ run b, P run → P { run with waitTill := b }
  executed : ∀ run name, P run → P { run with lastNodeExecuted := name }
  requests : ∀ run k request, it.env.runNode k = .request request → P run →
    P (handleEngineRequest it.workflow run it.context request).1

variable {t t' : Tries}

section Kept

variable {it : Iteration} {P : IRunExecutionData → Prop} (hP : KeptByTries it P)
include hP

theorem callRunNode_kept (h : P t.run) (results : Option EngineResponse) :
    P (callRunNode it t results).run := hP.waits _ _ h

theorem softRetries_kept (fuel tryIndex : Nat) (h : P t.run) : P (softRetries it fuel tryIndex t).tries.run := by
  induction fuel generalizing tryIndex t with
  | zero =>
    rw [softRetries]
    split <;> exact h
  | succ fuel ih =>
    rw [softRetries]
    split
    · dsimp only
      split
      · exact callRunNode_kept hP h none
      · exact ih _ (callRunNode_kept hP h none)
      · exact ih _ (callRunNode_kept hP h none)
    · exact h

theorem markLastNodeExecuted_kept (node : INode) {run : IRunExecutionData} (h : P run) (out : Option NodeOutput) :
    P (markLastNodeExecuted node run out) := by
  rw [markLastNodeExecuted]
  split
  · exact hP.executed _ _ h
  · exact h

theorem settleOutput_kept (h : P t.run) (out : Option NodeOutput) : P (settleOutput it t out).tries.run := by
  rw [settleOutput]
  split
  · exact h
  · next paired _ =>
    have hrun := markLastNodeExecuted_kept hP it.node h paired
    dsimp only
    split
    · exact hrun
    · split <;> exact hrun
    · exact hrun

theorem settleResult_kept (h : P t.run) : P (settleResult it t (lastResult it t)).tries.run := by
  rw [settleResult.eq_def]
  split
  · exact h
  · next request hr =>
    have hq := hP.requests t.run _ request hr h
    split
    · next run e he =>
      rw [he] at hq
      exact hq
    · next run he =>
      rw [he] at hq
      exact hq
  · split
    · exact h
    · exact settleOutput_kept hP h _

theorem oneTry_kept (fuel tryIndex : Nat) (h : P t.run) : P (triesOf (oneTry it fuel tryIndex t)).run := by
  rw [oneTry]
  split
  · exact settleOutput_kept hP h _
  · have hcall : P (callRunNode it (collectResults it t) (some (collectResults it t).subNodeExecutionResults)).run :=
      hP.waits _ _ h
    have hsoft := softRetries_kept hP fuel tryIndex hcall
    dsimp only
    split
    · exact hcall
    all_goals
      revert hsoft
      cases softRetries it fuel tryIndex
          (callRunNode it (collectResults it t) (some (collectResults it t).subNodeExecutionResults)) with
      | running t' => exact id
      | threw ti t' e => exact id
      | returned ti t' => exact fun hsoft => settleResult_kept hP hsoft

theorem tryLoop_kept (fuel tryIndex : Nat) (h : P t.run) : P (tryLoop it fuel tryIndex t).tries.run := by
  induction fuel generalizing tryIndex t with
  | zero => rwa [tryLoop_zero]
  | succ fuel ih =>
    by_cases hlt : (tryIndex : Rat) < it.maxTries
    · have hreset : P (resetError tryIndex t).run := by
        rw [resetError]
        split <;> exact h
      have hone := oneTry_kept hP fuel tryIndex hreset
      rw [tryLoop_succ fuel hlt]
      revert hone
      cases oneTry it fuel tryIndex (resetError tryIndex t) with
      | inr t' => exact id
      | inl p =>
        obtain ⟨i, e⟩ := p
        cases e with
        | threw t' e => exact fun hone => ih (i + 1) (hP.executed _ _ hone)
        | requested t' | nullOutput t' | finished t' => exact id
    · rwa [tryLoop_stop _ hlt]

theorem tryNode_kept (fuel : Nat) {s : IRunExecutionData} (h : P s) : P (tryNode it fuel s).tries.run :=
  tryLoop_kept hP fuel 0 h

def RequestedFrom (it : Iteration) (P : IRunExecutionData → Prop) (run' : IRunExecutionData) : Prop :=
  ∃ run k request, P run ∧ it.env.runNode k = .request request ∧
    handleEngineRequest it.workflow run it.context request = (run', none)

omit hP in
theorem settleOutput_ne_requested (t : Tries) (out : Option NodeOutput) (t' : Tries) :
    settleOutput it t out ≠ .requested t' := by
  rw [settleOutput]
  split
  · exact by simp
  · dsimp only
    split
    · exact by simp
    · split <;> exact by simp
    · exact by simp

omit hP in
theorem settleResult_requested (h : P t.run) (ht : settleResult it t (lastResult it t) = .requested t') :
    RequestedFrom it P t'.run := by
  rw [settleResult.eq_def] at ht
  split at ht
  · cases ht
  · next request hr =>
    split at ht
    · cases ht
    · next run he =>
      cases ht
      exact ⟨t.run, _, request, h, hr, he⟩
  · split at ht
    · cases ht
    · exact absurd ht (settleOutput_ne_requested t _ t')

theorem oneTry_requested (fuel tryIndex : Nat) (h : P t.run) {i : Nat}
    (ht : oneTry it fuel tryIndex t = .inl (i, .requested t')) : RequestedFrom it P t'.run := by
  rw [oneTry] at ht
  split at ht
  · exact absurd (Prod.mk.inj (Sum.inl.inj ht)).2 (settleOutput_ne_requested t _ t')
  · have hcall : P (callRunNode it (collectResults it t) (some (collectResults it t).subNodeExecutionResults)).run :=
      hP.waits _ _ h
    have hsoft := softRetries_kept hP fuel tryIndex hcall
    dsimp only at ht
    split at ht
    · cases ht
    all_goals
      split at ht
      · cases ht
      · cases ht
      · next hs =>
        rw [hs] at hsoft
        exact settleResult_requested hsoft (Prod.mk.inj (Sum.inl.inj ht)).2

theorem tryLoop_requested (fuel tryIndex : Nat) (h : P t.run)
    (ht : tryLoop it fuel tryIndex t = .requested t') : RequestedFrom it P t'.run := by
  induction fuel generalizing tryIndex t with
  | zero =>
    rw [tryLoop] at ht
    split at ht <;> cases ht
  | succ fuel ih =>
    by_cases hlt : (tryIndex : Rat) < it.maxTries
    · have hreset : P (resetError tryIndex t).run := by
        rw [resetError]
        split <;> exact h
      have hone := oneTry_kept hP fuel tryIndex hreset
      rw [tryLoop_succ fuel hlt] at ht
      cases ho : oneTry it fuel tryIndex (resetError tryIndex t) with
      | inr t'' =>
        rw [ho] at ht
        cases ht
      | inl p =>
        obtain ⟨i, e⟩ := p
        rw [ho] at ht hone
        cases e with
        | threw t'' e => exact ih (i + 1) (t := reportNodeExecutionError it t'' e) (hP.executed _ _ hone) ht
        | requested t'' =>
          cases ht
          exact oneTry_requested hP fuel tryIndex hreset ho
        | nullOutput t'' | finished t'' => cases ht
    · rw [tryLoop_stop _ hlt] at ht
      cases ht

theorem tryNode_requested (fuel : Nat) {s : IRunExecutionData} (h : P s)
    (ht : tryNode it fuel s = .requested t) : RequestedFrom it P t.run :=
  tryLoop_requested hP fuel 0 h ht

end Kept

section Null

variable {it : Iteration}

theorem assignPairedItems_isSome {out : NodeOutput} {e : IExecuteData} {paired : Option NodeOutput}
    (h : assignPairedItems (some out) e = .ok paired) : paired.isSome := by
  cases out with
  | nil =>
    cases h
    rfl
  | cons slot rest =>
    rw [assignPairedItems] at h
    split at h
    · cases h
    · next main _ =>
      simp only [bind, Except.bind, pure, Except.pure] at h
      split at h
      · cases h
      · split at h <;> cases h
        rfl

theorem settleOutput_null {out : Option NodeOutput} (h : settleOutput it t out = .nullOutput t') : out = none := by
  cases out with
  | none => rfl
  | some out =>
    rw [settleOutput] at h
    split at h
    · cases h
    · next paired hp =>
      obtain ⟨data, hdata⟩ := Option.isSome_iff_exists.1 (assignPairedItems_isSome hp)
      rw [hdata] at h
      dsimp only at h
      split at h
      · cases h
      · next hnone =>
        rw [ensureAlwaysOutputData] at hnone
        split at hnone
        · cases hnone
        all_goals
          split at hnone
          · cases hnone
          · split at hnone <;> cases hnone
      · cases h

theorem oneTry_null {fuel tryIndex : Nat} {i : Nat} (h : oneTry it fuel tryIndex t = .inl (i, .nullOutput t')) :
    ∃ k data, it.env.runNode k = .response data ∧ it.env.processNodeOutput k data = .ok none := by
  rw [oneTry] at h
  split at h
  · next pinned _ => cases settleOutput_null (Prod.mk.inj (Sum.inl.inj h)).2
  · dsimp only at h
    split at h
    · cases h
    all_goals
      split at h
      · cases h
      · cases h
      · have hs := (Prod.mk.inj (Sum.inl.inj h)).2
        rw [settleResult.eq_def] at hs
        split at hs
        · cases hs
        · split at hs <;> cases hs
        · next data hdata =>
          split at hs
          · cases hs
          · next out ho => exact ⟨_, data, hdata, settleOutput_null hs ▸ ho⟩

theorem tryLoop_null {fuel tryIndex : Nat} (h : tryLoop it fuel tryIndex t = .nullOutput t') :
    ∃ k data, it.env.runNode k = .response data ∧ it.env.processNodeOutput k data = .ok none := by
  induction fuel generalizing tryIndex t with
  | zero =>
    rw [tryLoop] at h
    split at h <;> cases h
  | succ fuel ih =>
    by_cases hlt : (tryIndex : Rat) < it.maxTries
    · rw [tryLoop_succ fuel hlt] at h
      cases ho : oneTry it fuel tryIndex (resetError tryIndex t) with
      | inr t'' =>
        rw [ho] at h
        cases h
      | inl p =>
        obtain ⟨i, e⟩ := p
        rw [ho] at h
        cases e with
        | threw t'' e => exact ih h
        | nullOutput t'' => exact oneTry_null ho
        | requested t'' | finished t'' => cases h
    · rw [tryLoop_stop _ hlt] at h
      cases h

end Null

end N8n.WorkflowExecute
