import N8n.TaskRequester.Settlements

namespace N8n.TaskRequester

open N8n.Lib

namespace RequesterState

variable {σ δ ξ : Type} {s s' : RequesterState σ δ ξ}

def isAccepted : CallPhase δ ξ → Bool
  | .accepted _ => true
  | _ => false

/-- An execution is cancelled while none of its calls has a task that is not registered yet, and no task is ready for a
request whose execution was cancelled. -/
def FindsTasks (s : RequesterState σ δ ξ) : RequesterAction σ δ ξ → Prop
  | .cancelTasks executionId => ∀ call ∈ s.calls, call.executionId = some executionId → isAccepted call.phase = false
  | .onMessage (.taskReady requestId _) => requestId ∈ s.requestAcceptRejects.items →
      ∀ call ∈ s.calls[requestId]?, call.cancelled = false
  | _ => True

instance (s : RequesterState σ δ ξ) (action : RequesterAction σ δ ξ) : Decidable (s.FindsTasks action) :=
  match action with
  | .cancelTasks executionId =>
    inferInstanceAs (Decidable (∀ call ∈ s.calls, call.executionId = some executionId →
      isAccepted call.phase = false))
  | .onMessage (.taskReady requestId _) =>
    inferInstanceAs (Decidable (requestId ∈ s.requestAcceptRejects.items →
      ∀ call ∈ s.calls[requestId]?, call.cancelled = false))
  | .startTask .. | .resume _ | .onMessage (.requestExpired _) | .onMessage (.taskDone ..)
  | .onMessage (.taskError ..) => .isTrue trivial

structure Held (s : RequesterState σ δ ξ) : Prop where
  sentCancelled : s.sentCancelled = []
  accepted : ∀ (i : Nat) (call : Call σ δ ξ), s.calls[i]? = some call → isAccepted call.phase = true →
    call.cancelled = false

theorem Held.setPhase (h : s.Held) {i : Nat} {f : CallPhase δ ξ → CallPhase δ ξ}
    (hf : ∀ call, s.calls[i]? = some call → isAccepted (f call.phase) = true → call.cancelled = false) :
    (s.setPhase i f).Held := by
  refine ⟨h.sentCancelled, fun j call hj hacc => ?_⟩
  rw [setPhase_calls] at hj
  split at hj
  · next hij =>
    subst hij
    obtain ⟨old, hold, rfl⟩ := Option.map_eq_some_iff.1 hj
    exact hf old hold hacc
  · exact h.accepted j call hj hacc

theorem Held.answerTask (h : s.Held) (taskId : String) (answer : TaskAnswer δ ξ) :
    (s.answerTask taskId answer).Held := by
  rw [RequesterState.answerTask]
  split
  · have herased : { s with taskAcceptRejects := s.taskAcceptRejects.erase taskId }.Held :=
      ⟨h.sentCancelled, h.accepted⟩
    refine herased.setPhase fun call hi hacc => h.accepted _ call hi ?_
    cases hp : call.phase <;> simp_all [CallPhase.answer, isAccepted]
  · exact h

theorem Held.cancelTask (h : s.Held) (taskId reason : String) : (s.cancelTask taskId reason).Held := by
  rw [RequesterState.cancelTask]
  split
  · have herased : ({ s with tasks := s.tasks.erase taskId }.send (.taskCancel taskId reason)).Held :=
      ⟨h.sentCancelled, h.accepted⟩
    exact herased.answerTask taskId _
  · exact h

theorem Held.cancelTasks (h : s.Held) {executionId : String} (hok : s.FindsTasks (.cancelTasks executionId)) :
    (s.cancelTasks executionId).Held := by
  have hmarked : (s.markCancelled executionId).Held := by
    refine ⟨h.sentCancelled, fun i call hi hacc => ?_⟩
    have hi : (s.calls[i]?).map (fun call : Call σ δ ξ =>
      { call with cancelled := call.cancelled || decide (call.executionId = some executionId) }) = some call :=
      List.getElem?_map.symm.trans hi
    obtain ⟨old, hold, rfl⟩ := Option.map_eq_some_iff.1 hi
    by_cases he : old.executionId = some executionId
    · have hnot := hok old (List.mem_of_getElem? hold) he
      exact absurd hacc (by rw [hnot]; exact Bool.false_ne_true)
    · have hkept := h.accepted i old hold hacc
      simp [hkept, he]
  rw [RequesterState.cancelTasks]
  generalize s.markCancelled executionId = marked at hmarked
  induction (s.getTaskIds executionId).items generalizing marked with
  | nil => exact hmarked
  | cons taskId taskIds ih => exact ih _ (hmarked.cancelTask taskId _)

theorem Held.onMessage (h : s.Held) {message : BrokerMessage δ ξ} (hok : s.FindsTasks (.onMessage message)) :
    ((s.receive message).onMessage message).Held := by
  have hreceived : (s.receive message).Held := ⟨h.sentCancelled, h.accepted⟩
  cases message with
  | taskReady requestId taskId =>
    simp only [RequesterState.onMessage, RequesterState.taskReady]
    split
    · next hr =>
      have hreleased : { s.receive (.taskReady requestId taskId) with
        requestAcceptRejects := s.requestAcceptRejects.erase requestId }.Held := ⟨h.sentCancelled, h.accepted⟩
      exact hreleased.setPhase fun call hi _ => hok hr call hi
    · exact ⟨h.sentCancelled, h.accepted⟩
  | requestExpired requestId =>
    simp only [RequesterState.onMessage, RequesterState.requestExpired]
    split
    · have hreleased : { s.receive (.requestExpired requestId) with
        requestAcceptRejects := s.requestAcceptRejects.erase requestId }.Held := ⟨h.sentCancelled, h.accepted⟩
      refine hreleased.setPhase fun call hi hacc => h.accepted requestId call hi ?_
      cases hp : call.phase <;> simp_all [CallPhase.rejectRequest, isAccepted]
    · exact hreceived
  | taskDone taskId data => exact hreceived.answerTask taskId _
  | taskError taskId error => exact hreceived.answerTask taskId _

theorem Held.settle (h : s.Held) (i : Nat) (settlement : Settlement δ ξ) : (s.settle i settlement).Held := by
  have hlogged : { s with settlements := s.settlements ++ [(i, settlement)] }.Held := ⟨h.sentCancelled, h.accepted⟩
  exact hlogged.setPhase fun _ _ hacc => absurd hacc Bool.false_ne_true

theorem Held.resume (h : s.Held) {i : Nat} (hs : s.resume i = some s') : s'.Held := by
  obtain ⟨call, hi, hs⟩ := Option.bind_eq_some_iff.1 hs
  split at hs
  · next taskId hp =>
    cases hs
    have hfree := h.accepted i call hi (by rw [hp]; rfl)
    have hregistered : ({ s with
      tasks := s.tasks.set taskId i
      executionIdsToTaskIds := addTaskId call.executionId taskId s.executionIdsToTaskIds
      taskAcceptRejects := s.taskAcceptRejects.set taskId i
      sentCancelled := if call.cancelled then s.sentCancelled ++ [i] else s.sentCancelled }.send
        (.taskSettings taskId call.settings)).Held := by
      refine ⟨?_, h.accepted⟩
      rw [RequesterState.send, hfree]
      exact h.sentCancelled
    exact hregistered.setPhase fun _ _ hacc => absurd hacc Bool.false_ne_true
  · cases hs
    exact h.settle i .requestTimedOut
  · next taskId answer _ =>
    cases hs
    have hcleared : { s with
      tasks := s.tasks.erase taskId
      executionIdsToTaskIds := clearExecutionsMap taskId s.executionIdsToTaskIds }.Held :=
      ⟨h.sentCancelled, h.accepted⟩
    exact hcleared.settle i (.result taskId answer)
  · cases hs

theorem Held.step (h : s.Held) {action : RequesterAction σ δ ξ} (hok : s.FindsTasks action)
    (hs : s.step action = some s') : s'.Held := by
  cases action with
  | startTask taskType settings executionId =>
    cases hs
    refine ⟨h.sentCancelled, fun i call hi hacc => ?_⟩
    obtain hi | hi := List.mem_append.1 (List.mem_of_getElem? hi)
    · obtain ⟨j, hj⟩ := List.getElem?_of_mem hi
      exact h.accepted j call hj hacc
    · obtain rfl := List.mem_singleton.1 hi
      rfl
  | onMessage message =>
    cases hs
    exact h.onMessage hok
  | resume i => exact h.resume hs
  | cancelTasks executionId =>
    cases hs
    exact h.cancelTasks hok

theorem held_of_reachable (h : (requester σ δ ξ).Reachable FindsTasks s) : s.Held := by
  refine h.invariant ?_ fun s a s' hok hi hs => hi.step hok hs
  rintro _ rfl
  exact ⟨rfl, by intro _ _ h; cases h⟩

structure Correct (s : RequesterState σ δ ξ) : Prop where
  once : (s.settlements.map Prod.fst).Nodup
  own : ∀ p ∈ s.settlements, s.Own p.1 p.2
  unknown : ∀ message, ¬ s.Awaits message → s.onMessage message = s.replyUnknown message
  cleared : s.Cleared
  cancelled : s.sentCancelled = []

end RequesterState

/-- The calls settle once with their own answers and leave nothing behind, and no cancelled call sends its settings. -/
theorem requester_correct {σ δ ξ : Type} {s : RequesterState σ δ ξ}
    (h : (requester σ δ ξ).Reachable RequesterState.FindsTasks s) : s.Correct := by
  have hinv := RequesterState.inv_of_reachable h
  refine ⟨hinv.once, fun p hm => ?_, fun message hm => hinv.unknown hm, hinv.cleared,
    (RequesterState.held_of_reachable h).sentCancelled⟩
  obtain ⟨call, hi, hp⟩ := hinv.settled p hm
  have hown := hinv.origins p.1 call hi
  rw [hp] at hown
  exact hown

/-- A call that is cancelled while it runs settles with the cancellation. -/
theorem requester_correct_cancelled : ∃ s : RequesterState String String String,
    s.settlements = [(0, .result "task" (.reject (.cancelled "Task cancelled by user")))] ∧ s.Correct := by
  have hrun : ((requester String String String).run (fun s a => decide (s.FindsTasks a)) .initial
      [.startTask "javascript" "code" (some "execution"), .onMessage (.taskReady 0 "task"), .resume 0,
        .cancelTasks "execution", .resume 0]).any
      (fun s => decide (s.settlements = [(0, .result "task" (.reject (.cancelled "Task cancelled by user")))])) =
      true := by
    decide +kernel
  obtain ⟨s, hs, hsettled⟩ := (Option.any_eq_true ..).1 hrun
  have hleads := (TransitionSystem.run_leads hs).mono fun _ _ => of_decide_eq_true
  exact ⟨s, of_decide_eq_true hsettled, requester_correct ⟨_, rfl, hleads⟩⟩

/-- A call that waits for a runner when its execution is cancelled goes on to send its settings. -/
theorem cancelled_request_goes_on : ∃ s : RequesterState String String String,
    (requester String String String).Reachable TransitionSystem.Any s ∧ ¬ s.Correct := by
  have hrun : ((requester String String String).run (fun _ _ => true) .initial
      [.startTask "javascript" "code" (some "execution"), .cancelTasks "execution", .onMessage (.taskReady 0 "task"),
        .resume 0]).any (fun s => decide (s.sentCancelled = [0])) = true := by
    decide +kernel
  obtain ⟨s, hs, hsent⟩ := (Option.any_eq_true ..).1 hrun
  refine ⟨s, ⟨_, rfl, (TransitionSystem.run_leads hs).mono fun _ _ _ => trivial⟩, fun h => ?_⟩
  have hnone := h.cancelled
  rw [of_decide_eq_true hsent] at hnone
  cases hnone

end N8n.TaskRequester
