import Mathlib.Tactic.Linarith
import N8n.WorkflowExecute.Retry

namespace N8n.WorkflowExecute

open Lib

/-- How a call goes for the loops of the tries: `breaks` is a call that
succeeded, but whose output or request could not be processed. -/
inductive Fate where
  | soft
  | thrown
  | settles
  | breaks
  deriving DecidableEq

section Fates

variable (it : Iteration) (s : IRunExecutionData)

def called (run : IRunExecutionData) (k : Nat) : IRunExecutionData :=
  { run with waitTill := run.waitTill || it.env.putsToWait k }

@[grind =] def threwAt (k : Nat) : Bool :=
  match it.env.runNode k with
  | .threw _ => true
  | .request _ | .response _ => false

/-- The run execution data before call `k`, when every earlier call failed. -/
def runBefore : Nat → IRunExecutionData
  | 0 => s
  | k + 1 =>
    if threwAt it k then { called it (runBefore k) k with lastNodeExecuted := some it.node.name }
    else called it (runBefore k) k

def outputThrows (out : Option NodeOutput) : Bool :=
  match assignPairedItems out it.executionData with
  | .error _ => true
  | .ok paired =>
    match ensureAlwaysOutputData paired it.executionData it.node with
    | .error _ => true
    | .ok _ => false

/-- Processing the result of call `k` throws. -/
def settleThrows (run : IRunExecutionData) (k : Nat) : RunNodeResult → Bool
  | .threw _ => true
  | .request request => (handleEngineRequest it.workflow run it.context request).2.isSome
  | .response data =>
    match it.env.processNodeOutput k data with
    | .error _ => true
    | .ok out => outputThrows it out

@[grind =] def fate (k : Nat) : Fate :=
  if threwAt it k then .thrown
  else if checkFailure (it.env.runNode k) then .soft
  else if settleThrows it (called it (runBefore it s k) k) k (it.env.runNode k) then .breaks
  else .settles

def fails (k : Nat) : Prop := fate it s k = .soft ∨ fate it s k = .thrown

/-- The try index call `k` counts as. A call of the inner loop that throws is not counted. -/
@[grind =] def counted : Nat → Nat
  | 0 => 0
  | 1 => 1
  | k + 2 =>
    if fate it s k = .soft ∧ fate it s (k + 1) = .thrown then counted (k + 1) else counted (k + 1) + 1

/-- Another call follows call `k`, when every earlier call failed. -/
@[grind =] def goesOn (k : Nat) : Prop :=
  match fate it s k with
  | .soft => (counted it s k : Rat) ≠ it.maxTries - 1
  | .thrown => (counted it s (k + 1) : Rat) < it.maxTries
  | .breaks => (counted it s k : Rat) + 1 < it.maxTries
  | .settles => False

end Fates

variable {k c : Nat} {calls : List (Option EngineResponse)} {results : EngineResponse} {t : Tries}

section Facts

variable {it : Iteration} {s : IRunExecutionData}

theorem threwAt_iff : threwAt it k = true ↔ fate it s k = .thrown := by
  unfold fate
  by_cases h : threwAt it k <;> simp only [h, if_true, Bool.false_eq_true, if_false, false_iff]
  split
  · exact Fate.noConfusion
  · split <;> exact Fate.noConfusion

theorem result_of_thrown (h : fate it s k = .thrown) : ∃ e, it.env.runNode k = .threw e := by
  have ht := threwAt_iff.2 h
  unfold threwAt at ht
  split at ht
  · next e he => exact ⟨e, he⟩
  · cases ht
  · cases ht

theorem checkFailure_iff : checkFailure (it.env.runNode k) = true ↔ fate it s k = .soft := by
  unfold fate
  by_cases ht : threwAt it k
  · have hc : checkFailure (it.env.runNode k) = false := by
      unfold threwAt at ht
      split at ht
      · next e he => rw [he]; rfl
      · cases ht
      · cases ht
    simp [ht, hc]
  · by_cases hc : checkFailure (it.env.runNode k)
    · simp [ht, hc]
    · simp only [ht, hc, Bool.false_eq_true, if_false, false_iff]
      split <;> exact Fate.noConfusion

theorem counted_le (it : Iteration) (s : IRunExecutionData) (k : Nat) : counted it s k ≤ k := by
  induction k using counted.induct it s with
  | case1 => exact Nat.le_refl _
  | case2 => exact Nat.le_refl _
  | case3 k h ih =>
    rw [counted, if_pos h]
    omega
  | case4 k h ih =>
    rw [counted, if_neg h]
    omega

theorem counted_succ_of_not_thrown (h : fate it s k ≠ .thrown) : counted it s (k + 1) = counted it s k + 1 := by
  cases k with
  | zero => rfl
  | succ k => rw [counted, if_neg (fun hk => h hk.2)]

theorem counted_succ_of_outer (h : k = 0 ∨ fate it s (k - 1) ≠ .soft) : counted it s (k + 1) = counted it s k + 1 := by
  cases k with
  | zero => rfl
  | succ k =>
    rw [counted, if_neg]
    intro hk
    rcases h with h | h
    · omega
    · exact h hk.1

theorem counted_succ_of_inner (h : fate it s k = .soft) (h' : fate it s (k + 1) = .thrown) :
    counted it s (k + 2) = counted it s (k + 1) := by
  rw [counted, if_pos ⟨h, h'⟩]

theorem counted_eq_iff (k : Nat) :
    counted it s k = k ↔ ∀ i, i + 1 < k → ¬ (fate it s i = .soft ∧ fate it s (i + 1) = .thrown) := by
  induction k with
  | zero => simp [counted]
  | succ k ih =>
    cases k with
    | zero => simp [counted]
    | succ k =>
      have hle := counted_le it s (k + 1)
      rw [counted]
      by_cases h : fate it s k = .soft ∧ fate it s (k + 1) = .thrown
      · rw [if_pos h]
        constructor
        · intro he
          omega
        · intro hall
          exact absurd h (hall k (by omega))
      · rw [if_neg h]
        constructor
        · intro he i hi
          by_cases hik : i = k
          · exact hik ▸ h
          · exact ih.1 (by omega) i (by omega)
        · intro hall
          have := ih.2 (fun i hi => hall i (by omega))
          omega

theorem one_le_maxTries (it : Iteration) : 1 ≤ it.maxTries := by
  unfold Iteration.maxTries getRetryParams
  dsimp only
  split
  · exact le_refl _
  · exact le_min (by norm_num) (le_trans (by norm_num) (le_max_left _ _))

theorem runBefore_pinData (k : Nat) : (runBefore it s k).pinData = s.pinData := by
  induction k with
  | zero => rfl
  | succ k ih =>
    rw [runBefore]
    split <;> exact ih

theorem runBefore_runData (k : Nat) : (runBefore it s k).runData = s.runData := by
  induction k with
  | zero => rfl
  | succ k ih =>
    rw [runBefore]
    split <;> exact ih

end Facts

section Steps

variable {it : Iteration} {s : IRunExecutionData}

/-- The variables after call `k`, the calls from `c + 1` on being those of the inner loop. -/
structure AfterCall (it : Iteration) (s : IRunExecutionData) (c k : Nat) (calls : List (Option EngineResponse))
    (results : EngineResponse) (t : Tries) : Prop where
  later : c ≤ k
  softBefore : ∀ i, c ≤ i → i < k → fate it s i = .soft ∧ goesOn it s i
  calls : t.calls = calls ++ List.replicate (k - c) none
  length : t.calls.length = k + 1
  run : t.run = called it (runBefore it s k) k
  results : t.subNodeExecutionResults = results

theorem goesOn_soft (h : fate it s k = .soft) : goesOn it s k ↔ (counted it s k : Rat) ≠ it.maxTries - 1 := by
  simp only [goesOn, h]

theorem AfterCall.lastResult (h : AfterCall it s c k calls results t) : lastResult it t = it.env.runNode k := by
  rw [WorkflowExecute.lastResult, h.length, Nat.add_sub_cancel]

theorem AfterCall.next (h : AfterCall it s c k calls results t) (hs : fate it s k = .soft) (hg : goesOn it s k) :
    AfterCall it s c (k + 1) calls results (callRunNode it t none) := by
  have hlater := h.later
  have hnt : threwAt it k = false := by
    rw [← Bool.not_eq_true, threwAt_iff (s := s), hs]
    exact Fate.noConfusion
  refine ⟨by omega, ?_, ?_, by simp [callRunNode, h.length], ?_, h.results⟩
  · intro i hi hik
    by_cases hk : i = k
    · exact hk ▸ ⟨hs, hg⟩
    · exact h.softBefore i hi (by omega)
  · have he : k + 1 - c = (k - c) + 1 := by omega
    simp only [callRunNode, h.calls, he, List.replicate_succ', List.append_assoc]
  · simp only [callRunNode, h.length, h.run, called, runBefore, hnt, Bool.false_eq_true, if_false]

theorem softRetries_spec (fuel : Nat) (h : AfterCall it s c k calls results t) (hf : fate it s k ≠ .thrown) :
    match softRetries it fuel (counted it s k) t with
    | .returned ti t' => ∃ k', k ≤ k' ∧ AfterCall it s c k' calls results t' ∧ ti = counted it s k' ∧
        fate it s k' ≠ .thrown ∧ (fate it s k' = .soft → ¬ goesOn it s k')
    | .threw ti t' _ => ∃ k', k ≤ k' ∧ AfterCall it s c k' calls results t' ∧ fate it s k' = .thrown ∧
        ti + 1 = counted it s (k' + 1)
    | .running t' => ∃ k', k + fuel ≤ k' ∧ AfterCall it s c k' calls results t' ∧ fate it s k' = .soft ∧
        goesOn it s k' := by
  induction fuel generalizing k t with
  | zero =>
    unfold softRetries
    by_cases hc : checkFailure (lastResult it t) ∧ (counted it s k : Rat) ≠ it.maxTries - 1
    · rw [if_pos hc]
      have hs : fate it s k = .soft := checkFailure_iff.1 (h.lastResult ▸ hc.1)
      exact ⟨k, Nat.le_refl _, h, hs, (goesOn_soft hs).2 hc.2⟩
    · rw [if_neg hc]
      refine ⟨k, Nat.le_refl _, h, rfl, hf, fun hs hg => hc ⟨?_, (goesOn_soft hs).1 hg⟩⟩
      rw [h.lastResult]
      exact checkFailure_iff.2 hs
  | succ fuel ih =>
    unfold softRetries
    by_cases hc : checkFailure (lastResult it t) ∧ (counted it s k : Rat) ≠ it.maxTries - 1
    · rw [if_pos hc]
      have hs : fate it s k = .soft := checkFailure_iff.1 (h.lastResult ▸ hc.1)
      have hn := h.next hs ((goesOn_soft hs).2 hc.2)
      have hr := hn.lastResult
      have hcount : counted it s (k + 1) = counted it s k + 1 := counted_succ_of_not_thrown (by simp [hs])
      dsimp only
      by_cases ht : fate it s (k + 1) = .thrown
      · obtain ⟨e, he⟩ := result_of_thrown ht
        rw [hr, he]
        refine ⟨k + 1, by omega, hn, ht, ?_⟩
        rw [counted_succ_of_inner hs ht, hcount]
      · have hnt : ∀ e, it.env.runNode (k + 1) ≠ .threw e := by
          intro e he
          exact ht (threwAt_iff.1 (by simp [threwAt, he]))
        have hrec := ih hn ht
        rw [hcount] at hrec
        rw [hr]
        cases hx : it.env.runNode (k + 1) with
        | threw e => exact absurd hx (hnt e)
        | request r | response r =>
          dsimp only
          revert hrec
          cases softRetries it fuel (counted it s k + 1) (callRunNode it t none) with
          | returned ti t' =>
            rintro ⟨k', hk, hrest⟩
            exact ⟨k', by omega, hrest⟩
          | threw ti t' e =>
            rintro ⟨k', hk, hrest⟩
            exact ⟨k', by omega, hrest⟩
          | running t' =>
            rintro ⟨k', hk, hrest⟩
            exact ⟨k', by omega, hrest⟩
    · rw [if_neg hc]
      refine ⟨k, Nat.le_refl _, h, rfl, hf, fun hs hg => hc ⟨?_, (goesOn_soft hs).1 hg⟩⟩
      rw [h.lastResult]
      exact checkFailure_iff.2 hs

def TryEnd.tries : TryEnd → Tries
  | .requested t | .nullOutput t | .finished t | .threw t _ => t

def TryEnd.threwAway : TryEnd → Bool
  | .threw _ _ => true
  | .requested _ | .nullOutput _ | .finished _ => false

theorem settleOutput_threw (t : Tries) (out : Option NodeOutput) :
    (settleOutput it t out).threwAway = outputThrows it out := by
  unfold settleOutput outputThrows
  cases assignPairedItems out it.executionData with
  | error e => rfl
  | ok paired =>
    dsimp only
    cases ensureAlwaysOutputData paired it.executionData it.node with
    | error e => rfl
    | ok out =>
      cases out with
      | none => dsimp only; split <;> rfl
      | some out => rfl

theorem markLastNodeExecuted_pinData (node : INode) (run : IRunExecutionData) (out : Option NodeOutput) :
    (markLastNodeExecuted node run out).pinData = run.pinData := by
  unfold markLastNodeExecuted
  split <;> rfl

theorem settleOutput_frame (it : Iteration) (t : Tries) (out : Option NodeOutput) :
    (settleOutput it t out).tries.calls = t.calls ∧
      (settleOutput it t out).tries.subNodeExecutionResults = t.subNodeExecutionResults ∧
      (settleOutput it t out).tries.run.pinData = t.run.pinData := by
  unfold settleOutput
  split
  · exact ⟨rfl, rfl, rfl⟩
  · next paired _ =>
    have hrun := markLastNodeExecuted_pinData it.node t.run paired
    dsimp only
    split
    · exact ⟨rfl, rfl, hrun⟩
    · split <;> exact ⟨rfl, rfl, hrun⟩
    · exact ⟨rfl, rfl, hrun⟩

theorem settleResult_threw (it : Iteration) (h : t.calls.length = k + 1) (r : RunNodeResult) :
    (settleResult it t r).threwAway = settleThrows it t.run k r := by
  unfold settleResult settleThrows
  cases r with
  | threw e => rfl
  | request request =>
    dsimp only
    cases handleEngineRequest it.workflow t.run it.context request with
    | mk run err => cases err <;> rfl
  | response data =>
    rw [h, Nat.add_sub_cancel]
    dsimp only
    cases it.env.processNodeOutput k data with
    | error e => rfl
    | ok out => exact settleOutput_threw t out

theorem settleResult_frame (it : Iteration) (t : Tries) (r : RunNodeResult) :
    (settleResult it t r).tries.calls = t.calls ∧
      (settleResult it t r).tries.subNodeExecutionResults = t.subNodeExecutionResults ∧
      (settleResult it t r).tries.run.pinData = t.run.pinData := by
  unfold settleResult
  cases r with
  | threw e => exact ⟨rfl, rfl, rfl⟩
  | request request =>
    have hp := handleEngineRequest_pinData it.workflow t.run it.context request
    dsimp only
    split
    · next run e he =>
      rw [he] at hp
      exact ⟨rfl, rfl, hp⟩
    · next run he =>
      rw [he] at hp
      exact ⟨rfl, rfl, hp⟩
  | response data =>
    dsimp only
    split
    · exact ⟨rfl, rfl, rfl⟩
    · exact settleOutput_frame it t _

/-- The variables before call `c` of the outer loop. -/
structure BeforeCall (it : Iteration) (s : IRunExecutionData) (c : Nat) (t : Tries) : Prop where
  length : t.calls.length = c
  run : t.run = runBefore it s c
  outer : c = 0 ∨ fate it s (c - 1) ≠ .soft

def firstResults (it : Iteration) (s : IRunExecutionData) (t : Tries) : EngineResponse :=
  collectSubNodeResults s.runData it.executionData t.subNodeExecutionResults

/-- What one try of the outer loop does: call `c`, calls of the inner loop up to `k`, and its end. -/
structure TrySpec (it : Iteration) (s : IRunExecutionData) (c : Nat) (t : Tries) (k : Nat) (t' : Tries) : Prop where
  after : ∃ t'', AfterCall it s c k (t.calls ++ [some (firstResults it s t)]) (firstResults it s t) t'' ∧
    t'.calls = t''.calls ∧ (fate it s k = .thrown → t'.run = t''.run)
  results : t'.subNodeExecutionResults = firstResults it s t
  pinData : t'.run.pinData = s.pinData

theorem called_pinData (run : IRunExecutionData) (k : Nat) : (called it run k).pinData = run.pinData := rfl

theorem AfterCall.trySpec {t' : Tries}
    (h : AfterCall it s c k (t.calls ++ [some (firstResults it s t)]) (firstResults it s t) t') :
    TrySpec it s c t k t' :=
  ⟨⟨t', h, rfl, fun _ => rfl⟩, h.results, by rw [h.run, called_pinData, runBefore_pinData]⟩

theorem fate_of_settles (hf : fate it s k ≠ .thrown) (hs : fate it s k = .soft → ¬ goesOn it s k)
    (ht : settleThrows it (called it (runBefore it s k) k) k (it.env.runNode k) = false) : ¬ goesOn it s k := by
  intro hg
  cases hk : fate it s k with
  | soft => exact hs hk hg
  | thrown => exact hf hk
  | settles => simp [goesOn, hk] at hg
  | breaks =>
    unfold fate at hk
    split at hk
    · cases hk
    · split at hk
      · cases hk
      · rw [ht, if_neg Bool.false_ne_true] at hk
        cases hk

theorem fate_of_settle_throws (hf : fate it s k ≠ .thrown)
    (ht : settleThrows it (called it (runBefore it s k) k) k (it.env.runNode k) = true) :
    fate it s k = .breaks ∨ fate it s k = .soft := by
  cases hk : fate it s k with
  | soft => exact Or.inr rfl
  | thrown => exact absurd hk hf
  | breaks => exact Or.inl rfl
  | settles =>
    unfold fate at hk
    split at hk
    · cases hk
    · split at hk
      · cases hk
      · cases hk

theorem oneTry_spec (fuel : Nat) (hp : getPinnedOutput s it.node = none)
    (h : BeforeCall it s c t) :
    match oneTry it fuel (counted it s c) t with
    | .inr t' => ∃ k, c + fuel ≤ k ∧ TrySpec it s c t k t' ∧ fate it s k = .soft ∧ goesOn it s k
    | .inl (ti, .threw t' _) => ∃ k, TrySpec it s c t k t' ∧
        ((fate it s k = .thrown ∧ ti + 1 = counted it s (k + 1)) ∨ (fate it s k = .breaks ∧ ti = counted it s k) ∨
          (fate it s k = .soft ∧ ¬ goesOn it s k ∧ ti = counted it s k))
    | .inl (_, e) => ∃ k, TrySpec it s c t k e.tries ∧ ¬ goesOn it s k := by
  have hpin : getPinnedOutput t.run it.node = none := by
    unfold getPinnedOutput at hp ⊢
    rwa [h.run, runBefore_pinData]
  have hfirst : AfterCall it s c c (t.calls ++ [some (firstResults it s t)]) (firstResults it s t)
      (callRunNode it (collectResults it t) (some (collectResults it t).subNodeExecutionResults)) := by
    refine ⟨Nat.le_refl _, fun i hi hic => by omega, ?_, by simp [callRunNode, collectResults, h.length], ?_, ?_⟩
    · simp [callRunNode, collectResults, firstResults, h.run, runBefore_runData]
    · simp [callRunNode, collectResults, called, h.run, h.length]
    · simp [callRunNode, collectResults, firstResults, h.run, runBefore_runData]
  unfold oneTry
  rw [hpin]
  dsimp only
  rw [hfirst.lastResult]
  by_cases hf : fate it s c = .thrown
  · obtain ⟨e, he⟩ := result_of_thrown hf
    rw [he]
    exact ⟨c, hfirst.trySpec, Or.inl ⟨hf, (counted_succ_of_outer h.outer).symm⟩⟩
  · have hnt : ∀ e, it.env.runNode c ≠ .threw e := by
      intro e he
      exact hf (threwAt_iff.1 (by simp [threwAt, he]))
    have hsoft := softRetries_spec fuel hfirst hf
    cases hx : it.env.runNode c with
    | threw e => exact absurd hx (hnt e)
    | request r | response r =>
      dsimp only
      revert hsoft
      cases softRetries it fuel (counted it s c)
          (callRunNode it (collectResults it t) (some (collectResults it t).subNodeExecutionResults)) with
      | running t' =>
        rintro ⟨k, hk, ha, hs, hg⟩
        exact ⟨k, hk, ha.trySpec, hs, hg⟩
      | threw ti t' e =>
        rintro ⟨k, _, ha, hk, hti⟩
        exact ⟨k, ha.trySpec, Or.inl ⟨hk, hti⟩⟩
      | returned ti t' =>
        rintro ⟨k, _, ha, rfl, hk, hg⟩
        dsimp only
        rw [ha.lastResult]
        have hthrew := settleResult_threw it ha.length (it.env.runNode k)
        obtain ⟨hc, hr, hd⟩ := settleResult_frame it t' (it.env.runNode k)
        rw [ha.run] at hthrew
        have hspec : TrySpec it s c t k (settleResult it t' (it.env.runNode k)).tries := by
          refine ⟨⟨t', ha, hc, fun hk' => absurd hk' hk⟩, hr.trans ha.results, ?_⟩
          rw [hd, ha.run, called_pinData, runBefore_pinData]
        revert hthrew hspec
        cases settleResult it t' (it.env.runNode k) with
        | threw t'' e =>
          intro hthrew hspec
          refine ⟨k, hspec, Or.inr ?_⟩
          rcases fate_of_settle_throws hk hthrew.symm with hb | hb
          · exact Or.inl ⟨hb, rfl⟩
          · exact Or.inr ⟨hb, hg hb, rfl⟩
        | requested t'' | nullOutput t'' | finished t'' =>
          intro hthrew hspec
          exact ⟨k, hspec, fate_of_settles hk hg hthrew.symm⟩

end Steps

end N8n.WorkflowExecute
