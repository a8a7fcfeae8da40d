import N8n.TaskRunner.OfferSlots

namespace N8n.TaskRunner

open N8n.Lib

def RunnerMessage.reported {δ ξ : Type} : RunnerMessage δ ξ → Option String
  | .taskDone taskId _ | .taskError taskId _ => some taskId
  | _ => none

namespace TaskState

variable {task : TaskState}

structure Sound (task : TaskState) (reported : Prop) : Prop where
  waiting : task.status = .waitingForSettings ↔ task.execution = .notStarted
  cancelled : task.execution ≠ .notStarted → (task.cancelled = true ↔ task.status = .abortingCancelled)
  timer : task.timeoutTimer = true → task.finished = false
  timedOut : task.timedOutWaiting = true → task.execution = .notStarted ∧ task.cancelled = false
  reported : reported ↔ task.execution = .settled ∧ task.cancelled = false ∨ task.timedOutWaiting = true

theorem finished_eq_false : task.finished = false ↔ task.execution ≠ .settled ∧
    (task.execution = .notStarted → task.cancelled = false ∧ task.timedOutWaiting = false) := by
  rw [finished]
  cases task.execution <;> cases task.cancelled <;> cases task.timedOutWaiting <;> decide

theorem Sound.not_timedOut {reported : Prop} (h : task.Sound reported) (hlive : task.finished = false) :
    task.timedOutWaiting = false := by
  apply (Bool.not_eq_true _).mp
  intro htimed
  have hwaits := (finished_eq_false.1 hlive).2 (h.timedOut htimed).1
  exact absurd (hwaits.2.symm.trans htimed) Bool.false_ne_true

theorem Sound.not_reported {reported : Prop} (h : task.Sound reported) (hlive : task.finished = false) :
    ¬ reported := by
  intro hr
  obtain ⟨hsettled, -⟩ | htimed := h.reported.1 hr
  · exact (finished_eq_false.1 hlive).1 hsettled
  · exact absurd ((h.not_timedOut hlive).symm.trans htimed) Bool.false_ne_true

theorem Sound.pending {reported : Prop} (h : task.Sound reported) (hlive : task.finished = false)
    (hstatus : task.status ≠ .waitingForSettings) : task.execution = .pending := by
  have hsettled := (finished_eq_false.1 hlive).1
  have hstarted : task.execution ≠ .notStarted := fun hnone => hstatus (h.waiting.2 hnone)
  cases hp : task.execution with
  | pending => rfl
  | notStarted => exact absurd hp hstarted
  | settled => exact absurd hp hsettled

end TaskState

variable {f : TaskState → TaskState} {i : Nat} {task : TaskState}

namespace RunnerState

variable {δ ξ : Type} {opts : TaskRunnerOpts δ ξ} {s s' : RunnerState δ ξ}

structure TasksInv (s : RunnerState δ ξ) : Prop where
  running : ∀ taskId i, s.runningTasks.get? taskId = some i ↔
    ∃ task, s.taskStates[i]? = some task ∧ task.taskId = taskId ∧ task.finished = false
  sound : ∀ (i : Nat) (task : TaskState), s.taskStates[i]? = some task → task.Sound (i ∈ s.reports)
  known : ∀ i ∈ s.reports, ∃ task, s.taskStates[i]? = some task
  once : s.reports.Nodup
  sent : s.sent.filterMap RunnerMessage.reported = s.reports.filterMap fun i => s.taskStates[i]?.map TaskState.taskId

theorem TasksInv.of_same (h : s.TasksInv) (hstates : s'.taskStates = s.taskStates)
    (hrunning : s'.runningTasks = s.runningTasks) (hreports : s'.reports = s.reports)
    (hsent : s'.sent.filterMap RunnerMessage.reported = s.sent.filterMap RunnerMessage.reported) : s'.TasksInv := by
  refine ⟨?_, ?_, ?_, ?_, ?_⟩
  · rw [hstates, hrunning]
    exact h.running
  · rw [hstates, hreports]
    exact h.sound
  · rw [hstates, hreports]
    exact h.known
  · rw [hreports]
    exact h.once
  · rw [hstates, hreports, hsent]
    exact h.sent

theorem getElem?_modify_self {tasks : List TaskState} (f : TaskState → TaskState)
    (hi : tasks[i]? = some task) : (tasks.modify i f)[i]? = some (f task) := by
  rw [List.getElem?_modify_eq, hi]
  rfl

theorem TasksInv.change (h : s.TasksInv) {b : Bool}
    (hi : s.taskStates[i]? = some task) (hlive : task.finished = false) (hid : (f task).taskId = task.taskId)
    (hstates : s'.taskStates = s.taskStates.modify i f)
    (hrunning : ∀ taskId, s'.runningTasks.get? taskId =
      if (f task).finished = true ∧ taskId = task.taskId then none else s.runningTasks.get? taskId)
    (hsound : (f task).Sound (b = true)) (hreports : s'.reports = s.reports ++ if b then [i] else [])
    (hsent : s'.sent.filterMap RunnerMessage.reported =
      s.sent.filterMap RunnerMessage.reported ++ if b then [task.taskId] else []) : s'.TasksInv := by
  have hself : s'.taskStates[i]? = some (f task) := by
    rw [hstates]
    exact getElem?_modify_self f hi
  have hother : ∀ j, j ≠ i → s'.taskStates[j]? = s.taskStates[j]? := by
    intro j hj
    rw [hstates]
    exact List.getElem?_modify_ne f _ (Ne.symm hj)
  have hnot : i ∉ s.reports := (h.sound i task hi).not_reported hlive
  have hmem : ∀ j, j ∈ s'.reports ↔ j ∈ s.reports ∨ b = true ∧ j = i := by
    intro j
    rw [hreports]
    cases b <;> simp
  have hids : ∀ j : Nat, s'.taskStates[j]?.map TaskState.taskId = s.taskStates[j]?.map TaskState.taskId := by
    intro j
    by_cases hj : j = i
    · subst hj
      rw [hself, hi, Option.map_some, Option.map_some, hid]
    · rw [hother j hj]
  constructor
  · intro taskId j
    rw [hrunning]
    by_cases hj : j = i
    · subst hj
      rw [hself]
      split
      · next hdone =>
        refine ⟨by simp, ?_⟩
        rintro ⟨_, hsome, -, hf⟩
        cases hsome
        exact absurd (hdone.1.symm.trans hf) (by decide)
      · next hdone =>
        rw [h.running taskId j]
        constructor
        · rintro ⟨_, hsome, htask, -⟩
          obtain rfl := Option.some.inj (hi.symm.trans hsome)
          refine ⟨_, rfl, hid.trans htask, ?_⟩
          exact (Bool.not_eq_true _).mp fun hf => hdone ⟨hf, htask.symm⟩
        · rintro ⟨_, hsome, htask, -⟩
          cases hsome
          exact ⟨task, hi, hid.symm.trans htask, hlive⟩
    · rw [hother j hj]
      split
      · next hdone =>
        refine ⟨by simp, ?_⟩
        -- Another task under the same id would be the one that is registered.
        rintro ⟨other, hsome, htask, hf⟩
        have hreg := (h.running taskId j).2 ⟨other, hsome, htask, hf⟩
        have hreg' := (h.running taskId i).2 ⟨task, hi, hdone.2.symm, hlive⟩
        exact absurd (Option.some.inj (hreg.symm.trans hreg')) hj
      · exact h.running taskId j
  · intro j other hsome
    by_cases hj : j = i
    · subst hj
      obtain rfl := Option.some.inj (hself.symm.trans hsome)
      have hiff : (j ∈ s'.reports) ↔ b = true := by
        rw [hmem j]
        exact ⟨fun h => h.elim (fun h => absurd h hnot) And.left, fun h => .inr ⟨h, rfl⟩⟩
      exact ⟨hsound.waiting, hsound.cancelled, hsound.timer, hsound.timedOut, hiff.trans hsound.reported⟩
    · rw [hother j hj] at hsome
      have hold := h.sound j other hsome
      have hiff : (j ∈ s'.reports) ↔ j ∈ s.reports := by
        rw [hmem j]
        exact ⟨fun h => h.elim id (fun h => absurd h.2 hj), .inl⟩
      exact ⟨hold.waiting, hold.cancelled, hold.timer, hold.timedOut, hiff.trans hold.reported⟩
  · intro j hm
    by_cases hj : j = i
    · subst hj
      exact ⟨_, hself⟩
    · rw [hother j hj]
      obtain hm | ⟨-, rfl⟩ := (hmem j).1 hm
      · exact h.known j hm
      · exact absurd rfl hj
  · rw [hreports]
    cases b with
    | false => simpa using h.once
    | true => exact h.once.append (List.nodup_singleton i) (List.disjoint_singleton.2 hnot)
  · rw [hsent, hreports, h.sent, List.filterMap_append]
    simp only [hids]
    cases b with
    | false => rfl
    | true => simp [hi]

theorem TasksInv.lookup (h : s.TasksInv) {taskId : String} (hg : s.runningTasks.get? taskId = some i) :
    ∃ task, s.taskStates[i]? = some task ∧ task.taskId = taskId ∧ task.finished = false ∧
      task.Sound (i ∈ s.reports) := by
  obtain ⟨task, hi, htask, hlive⟩ := (h.running taskId i).1 hg
  exact ⟨task, hi, htask, hlive, h.sound i task hi⟩

theorem send_reported (m : RunnerMessage δ ξ) (s : RunnerState δ ξ) :
    (s.send m).sent.filterMap RunnerMessage.reported =
      s.sent.filterMap RunnerMessage.reported ++ m.reported.toList := by
  rw [send, List.filterMap_append]
  cases h : m.reported <;> simp [h]

theorem sendOffers_reported (s : RunnerState δ ξ) : (s.sendOffers opts).sent.filterMap RunnerMessage.reported =
    s.sent.filterMap RunnerMessage.reported := by
  obtain ⟨offers, hoffers, hsent⟩ := (sendOffers_sent opts s).messages
  have hnone : offers.filterMap RunnerMessage.reported = [] := by
    apply List.filterMap_eq_nil_iff.2
    intro m hm
    have hoffer := hoffers m hm
    cases m <;> first | rfl | cases hoffer
  rw [hsent, List.filterMap_append, hnone, List.append_nil]

structure Finished (i : Nat) (taskId : String) (s s' : RunnerState δ ξ) : Prop where
  taskStates : s'.taskStates = s.taskStates.modify i fun task => { task with timeoutTimer := false }
  runningTasks : s'.runningTasks = s.runningTasks.erase taskId
  reports : s'.reports = s.reports
  sent : s'.sent.filterMap RunnerMessage.reported = s.sent.filterMap RunnerMessage.reported
  dataRequests : s'.dataRequests = s.dataRequests
  nodeTypesRequests : s'.nodeTypesRequests = s.nodeTypesRequests
  rpcCalls : s'.rpcCalls = s.rpcCalls

theorem finishTask_finished (opts : TaskRunnerOpts δ ξ) (i : Nat) (taskId : String) (s : RunnerState δ ξ) :
    Finished i taskId s (s.finishTask opts i taskId) := by
  have h := sendOffers_sent opts ({ s with runningTasks := s.runningTasks.erase taskId }.setTask i fun task =>
    { task with timeoutTimer := false })
  exact ⟨h.taskStates, h.runningTasks, h.reports, sendOffers_reported _, h.dataRequests, h.nodeTypesRequests,
    h.rpcCalls⟩

theorem TasksInv.goesOn (h : s.TasksInv)
    (hi : s.taskStates[i]? = some task) (hlive : task.finished = false) (hid : (f task).taskId = task.taskId)
    (hlive' : (f task).finished = false) (hsound : (f task).Sound False)
    (hstates : s'.taskStates = s.taskStates.modify i f) (hrunning : s'.runningTasks = s.runningTasks)
    (hreports : s'.reports = s.reports)
    (hsent : s'.sent.filterMap RunnerMessage.reported = s.sent.filterMap RunnerMessage.reported) : s'.TasksInv := by
  refine h.change (b := false) hi hlive hid hstates (fun taskId => ?_) ?_ (hreports.trans (List.append_nil _).symm)
    (hsent.trans (List.append_nil _).symm)
  · rw [hrunning, hlive']
    rfl
  · simpa using hsound

theorem TasksInv.ends (h : s.TasksInv) {b : Bool}
    {t : RunnerState δ ξ} (hi : s.taskStates[i]? = some task) (hlive : task.finished = false)
    (hid : (f task).taskId = task.taskId) (hdone : (f task).finished = true)
    (hsound : ({ f task with timeoutTimer := false } : TaskState).Sound (b = true))
    (hf : Finished i task.taskId t s') (hstates : t.taskStates = s.taskStates.modify i f)
    (hrunning : ∀ taskId, taskId ≠ task.taskId → t.runningTasks.get? taskId = s.runningTasks.get? taskId)
    (hreports : t.reports = s.reports ++ if b then [i] else [])
    (hsent : t.sent.filterMap RunnerMessage.reported =
      s.sent.filterMap RunnerMessage.reported ++ if b then [task.taskId] else []) : s'.TasksInv := by
  have hmodified : s'.taskStates = s.taskStates.modify i fun task => { f task with timeoutTimer := false } := by
    rw [hf.taskStates, hstates, List.modify_modify_eq]
    rfl
  refine h.change (b := b) (f := fun task => { f task with timeoutTimer := false }) hi hlive hid hmodified
    (fun taskId => ?_) hsound (hf.reports.trans hreports) (hf.sent.trans hsent)
  rw [hf.runningTasks, ObjectMap.get?_erase]
  by_cases ht : taskId = task.taskId
  · rw [if_pos ht, if_pos ⟨hdone, ht⟩]
  · rw [if_neg ht, if_neg fun h => ht h.2]
    exact hrunning taskId ht

theorem TasksInv.taskCancelled (h : s.TasksInv) (taskId : String) : (s.taskCancelled opts taskId).TasksInv := by
  rw [RunnerState.taskCancelled]
  split
  · exact h
  · next i hg =>
    obtain ⟨task, hi, rfl, hlive, hsound⟩ := h.lookup hg
    obtain ⟨hsettled, hfresh⟩ := TaskState.finished_eq_false.1 hlive
    have hwaits := hsound.not_timedOut hlive
    rw [hi, Option.map_some]
    split
    · next hstatus =>
      have hnone := hsound.waiting.1 (Option.some.inj hstatus)
      refine h.ends (b := false) (f := fun task => { task with cancelled := true }) hi hlive rfl ?_ ?_
        (finishTask_finished opts i task.taskId _) rfl (fun _ _ => rfl) (List.append_nil _).symm
        (List.append_nil _).symm
      · simp [TaskState.finished, hnone]
      · constructor <;> simp_all
    · next hstatus =>
      have hpending : task.execution ≠ .notStarted := fun hnone => by
        rw [hsound.waiting.2 hnone] at hstatus
        cases hstatus
      refine h.goesOn hi hlive rfl ?_ ?_ rfl rfl rfl rfl
      · simp [TaskState.finished, hsettled, hpending]
      · constructor <;> simp_all [TaskState.finished]
    · exact h

theorem TasksInv.fired (h : s.TasksInv) (hi : s.taskStates[i]? = some task)
    (hlive : task.finished = false) : (s.fireTimer i).runningTasks.get? task.taskId = some i ∧
    (s.fireTimer i).taskStates[i]?.map TaskState.status = some task.status := by
  have hfired := getElem?_modify_self (fun task =>
    { task with timeoutTimer := false, timedOutWaiting := task.status = .waitingForSettings }) hi
  exact ⟨(h.running task.taskId i).2 ⟨task, hi, rfl, hlive⟩, congrArg (Option.map TaskState.status) hfired⟩

theorem TasksInv.taskTimeout (h : s.TasksInv) (hi : s.taskStates[i]? = some task)
    (htimer : task.timeoutTimer = true) : ((s.fireTimer i).taskTimedOut opts task.taskId).TasksInv := by
  have hsound := h.sound i task hi
  have hlive := hsound.timer htimer
  have hwaits := hsound.not_timedOut hlive
  obtain ⟨hg, hstatus⟩ := h.fired hi hlive
  cases hp : task.status with
  | waitingForSettings =>
    have hnone := hsound.waiting.1 hp
    simp only [taskTimedOut, hg, hstatus, hp]
    refine h.ends (b := true) hi hlive rfl ?_ ?_ (finishTask_finished opts i task.taskId _) rfl (fun _ _ => rfl) rfl
      (send_reported _ _)
    · simp [TaskState.finished, hnone, hp]
    · have hfresh := (TaskState.finished_eq_false.1 hlive).2 hnone
      constructor <;> simp_all
  | running =>
    have hpending := hsound.pending hlive (by rw [hp]; decide)
    have hcancelled := hsound.cancelled (by rw [hpending]; decide)
    simp only [taskTimedOut, hg, hstatus, hp]
    refine h.goesOn hi hlive rfl ?_ ?_ (List.modify_modify_eq ..) rfl rfl rfl
    · simp [TaskState.finished, hpending]
    · constructor <;> simp_all
  | abortingCancelled | abortingTimeout =>
    have hpending := hsound.pending hlive (by rw [hp]; decide)
    have hcancelled := hsound.cancelled (by rw [hpending]; decide)
    simp only [taskTimedOut, hg, hstatus, hp]
    refine h.goesOn hi hlive rfl ?_ ?_ rfl rfl rfl rfl
    · simp [TaskState.finished, hpending]
    · constructor <;> simp_all

theorem TasksInv.receivedSettings (h : s.TasksInv) (taskId : String) : (s.receivedSettings taskId).TasksInv := by
  rw [RunnerState.receivedSettings]
  split
  · exact h
  · next i hg =>
    obtain ⟨task, hi, rfl, hlive, hsound⟩ := h.lookup hg
    have hwaits := hsound.not_timedOut hlive
    rw [hi, Option.map_some]
    split
    · next hstatus =>
      have hnone := hsound.waiting.1 (Option.some.inj hstatus)
      have hfresh := (TaskState.finished_eq_false.1 hlive).2 hnone
      refine h.goesOn hi hlive rfl ?_ ?_ rfl rfl rfl rfl
      · simp [TaskState.finished]
      · constructor <;> simp_all [TaskState.finished]
    · exact h

theorem TasksInv.settled (h : s.TasksInv) {b : Bool} {t : RunnerState δ ξ}
    (hi : s.taskStates[i]? = some task) (hp : task.execution = .pending)
    (hb : b = true ↔ task.status ≠ .abortingCancelled) (hdone : ({ f task with timeoutTimer := false } : TaskState) =
      { task with execution := .settled, timeoutTimer := false })
    (hf : Finished i task.taskId t s') (hstates : t.taskStates = s.taskStates.modify i f)
    (hrunning : ∀ taskId, taskId ≠ task.taskId → t.runningTasks.get? taskId = s.runningTasks.get? taskId)
    (hreports : t.reports = s.reports ++ if b then [i] else [])
    (hsent : t.sent.filterMap RunnerMessage.reported =
      s.sent.filterMap RunnerMessage.reported ++ if b then [task.taskId] else []) : s'.TasksInv := by
  have hsound := h.sound i task hi
  have hstarted : task.execution ≠ .notStarted := by rw [hp]; nofun
  have hcancelled := hsound.cancelled hstarted
  have hlive : task.finished = false := TaskState.finished_eq_false.2 ⟨by rw [hp]; nofun, fun hn => absurd hn hstarted⟩
  have hwaits := hsound.not_timedOut hlive
  have hstatus : task.status ≠ .waitingForSettings := fun hw => hstarted (hsound.waiting.1 hw)
  have hexecution : (f task).execution = .settled := (congrArg TaskState.execution hdone :)
  refine h.ends hi hlive (congrArg TaskState.taskId hdone :) ?_ ?_ hf hstates hrunning hreports hsent
  · simp [TaskState.finished, hexecution]
  · rw [hdone]
    refine ⟨⟨fun hw => absurd hw hstatus, by simp⟩, fun _ => hcancelled, by simp,
      fun ht => absurd (hwaits.symm.trans ht) Bool.false_ne_true, ?_⟩
    rw [hb]
    constructor
    · exact fun hs => .inl ⟨rfl, (Bool.not_eq_true _).mp fun hc => hs (hcancelled.1 hc)⟩
    · rintro (⟨-, hc⟩ | ht)
      · exact fun hs => Bool.false_ne_true (hc.symm.trans (hcancelled.2 hs))
      · exact absurd (hwaits.symm.trans ht) Bool.false_ne_true

theorem TasksInv.executionFailed (h : s.TasksInv) {error : ξ}
    {t : RunnerState δ ξ} (hi : s.taskStates[i]? = some task) (hp : task.execution = .pending)
    (hdone : ({ f task with timeoutTimer := false } : TaskState) =
      { task with execution := .settled, timeoutTimer := false })
    (hstates : t.taskStates = s.taskStates.modify i f)
    (hrunning : ∀ taskId, taskId ≠ task.taskId → t.runningTasks.get? taskId = s.runningTasks.get? taskId)
    (hreports : t.reports = s.reports)
    (hsent : t.sent.filterMap RunnerMessage.reported = s.sent.filterMap RunnerMessage.reported) :
    (t.taskExecutionFailed opts i task error).TasksInv := by
  have hstarted : task.status ≠ .waitingForSettings := fun hw => by
    rw [(h.sound i task hi).waiting.1 hw] at hp
    cases hp
  have hreported : ∀ error : TaskError ξ, (t.report i (.taskError task.taskId error)).reports = s.reports ++ [i] ∧
      (t.report i (.taskError task.taskId error)).sent.filterMap RunnerMessage.reported =
        s.sent.filterMap RunnerMessage.reported ++ [task.taskId] := by
    intro error
    exact ⟨congrArg (· ++ [i]) hreports, (send_reported _ _).trans (congrArg (· ++ [task.taskId]) hsent)⟩
  cases hstatus : task.status with
  | waitingForSettings => exact absurd hstatus hstarted
  | running | abortingTimeout =>
    simp only [taskExecutionFailed, hstatus]
    obtain ⟨hr, hs⟩ := hreported (.error error)
    refine h.settled (b := true) hi hp ?_ hdone (finishTask_finished opts i task.taskId _) hstates hrunning hr hs
    rw [hstatus]
    decide
  | abortingCancelled =>
    simp only [taskExecutionFailed, hstatus]
    refine h.settled (b := false) hi hp ?_ hdone (finishTask_finished opts i task.taskId _) hstates hrunning
      (hreports.trans (List.append_nil _).symm) (hsent.trans (List.append_nil _).symm)
    rw [hstatus]
    decide

theorem TasksInv.executionSettles (h : s.TasksInv) {outcome : Except ξ δ}
    (hs : s.executionSettles opts i outcome = some s') : s'.TasksInv := by
  obtain ⟨task, hi, hs⟩ := Option.bind_eq_some_iff.1 hs
  split at hs
  · next hp =>
    cases outcome with
    | error error =>
      cases hs
      exact h.executionFailed hi hp rfl rfl (fun _ _ => rfl) rfl rfl
    | ok data =>
      cases hs
      have hsettled : ∀ m : RunnerMessage δ ξ, m.reported = some task.taskId →
          task.status ≠ .abortingCancelled →
          (((s.setTask i fun task => { task with execution := .settled }).report i m).finishTask opts i
            task.taskId).TasksInv := by
        intro m hm hstatus
        refine h.settled (b := true) hi hp (by simpa using hstatus) rfl (finishTask_finished opts i task.taskId _)
          rfl (fun _ _ => rfl) rfl ?_
        exact (send_reported _ _).trans (by rw [hm]; rfl)
      -- The second attempt to report starts from the task that was finished in the first.
      have hfailed : ∀ error, (((s.setTask i fun task => { task with execution := .settled }).finishTask opts i
          task.taskId).taskExecutionFailed opts i task error).TasksInv := by
        intro error
        have hf := finishTask_finished opts i task.taskId
          (s.setTask i fun task => { task with execution := .settled })
        refine h.executionFailed hi hp (f := fun task => { task with execution := .settled, timeoutTimer := false })
          rfl ?_ ?_ hf.reports hf.sent
        · rw [hf.taskStates, setTask, List.modify_modify_eq]
          rfl
        · intro taskId hne
          rw [hf.runningTasks, ObjectMap.get?_erase_ne _ hne]
          rfl
      cases hstatus : task.status with
      | waitingForSettings =>
        rw [(h.sound i task hi).waiting.1 hstatus] at hp
        cases hp
      | running | abortingTimeout =>
        simp only [taskExecutionSucceeded, hstatus]
        split
        · exact hsettled _ rfl (by rw [hstatus]; decide)
        · exact hfailed _
      | abortingCancelled =>
        simp only [taskExecutionSucceeded, hstatus]
        refine h.settled (b := false) hi hp ?_ rfl (finishTask_finished opts i task.taskId _) rfl (fun _ _ => rfl)
          (List.append_nil _).symm (List.append_nil _).symm
        rw [hstatus]
        decide
  · cases hs

theorem TasksInv.acceptTask (h : s.TasksInv) {taskId : String} (hfree : s.runningTasks.get? taskId = none) :
    (s.acceptTask taskId).TasksInv := by
  have hnew : (s.acceptTask taskId).taskStates[s.taskStates.length]? =
      some ⟨taskId, .waitingForSettings, true, .notStarted, false, false⟩ := List.getElem?_concat_length
  have hold : ∀ {i : Nat}, i ≠ s.taskStates.length → (s.acceptTask taskId).taskStates[i]? = s.taskStates[i]? := by
    intro i hi
    change (s.taskStates ++ [_])[i]? = _
    rw [List.getElem?_append]
    split
    · rfl
    · rw [List.getElem?_eq_none (by simp; omega), List.getElem?_eq_none (by omega)]
  have hlast : s.taskStates[s.taskStates.length]? = none := List.getElem?_eq_none (Nat.le_refl _)
  have hknown : ∀ i ∈ s.reports, i ≠ s.taskStates.length := by
    rintro i hm rfl
    obtain ⟨task, hi⟩ := h.known _ hm
    cases hlast.symm.trans hi
  have hreg : ∀ other, (s.acceptTask taskId).runningTasks.get? other =
      if other = taskId then some s.taskStates.length else s.runningTasks.get? other :=
    fun other => s.runningTasks.get?_set taskId other s.taskStates.length
  constructor
  · intro other i
    rw [hreg]
    by_cases hi : i = s.taskStates.length
    · subst hi
      rw [hnew]
      split
      · next ho => exact ⟨fun _ => ⟨_, rfl, ho.symm, rfl⟩, fun _ => rfl⟩
      · next ho =>
        constructor
        · intro hg
          obtain ⟨_, hsome, -⟩ := (h.running other _).1 hg
          cases hlast.symm.trans hsome
        · rintro ⟨_, hsome, htask, -⟩
          cases hsome
          exact absurd htask.symm ho
    · rw [hold hi]
      split
      · next ho =>
        subst ho
        constructor
        · exact fun hg => absurd (Option.some.inj hg).symm hi
        · intro hg
          cases hfree.symm.trans ((h.running other i).2 hg)
      · exact h.running other i
  · intro i task hsome
    by_cases hi : i = s.taskStates.length
    · subst hi
      obtain rfl := Option.some.inj (hnew.symm.trans hsome)
      exact ⟨⟨fun _ => rfl, fun _ => rfl⟩, fun hn => absurd rfl hn, fun _ => rfl, by simp,
        ⟨fun hm => absurd rfl (hknown _ hm), by rintro (⟨hn, -⟩ | hn) <;> cases hn⟩⟩
    · rw [hold hi] at hsome
      exact h.sound i task hsome
  · intro i hm
    rw [hold (hknown i hm)]
    exact h.known i hm
  · exact h.once
  · have hsame : (s.acceptTask taskId).sent.filterMap RunnerMessage.reported =
        s.sent.filterMap RunnerMessage.reported := (send_reported _ _).trans (List.append_nil _)
    rw [hsame]
    refine h.sent.trans (List.filterMap_congr fun i hm => ?_)
    exact congrArg (Option.map TaskState.taskId) (hold (hknown i hm)).symm

def acceptsOffer (opts : TaskRunnerOpts δ ξ) (s : RunnerState δ ξ) (offerId : Nat) : Bool :=
  !s.isDraining && s.hasOpenTaskSlots opts && s.openOffers.any fun offer => offer.offerId = offerId

/-- The runner is not registered once it drains, accepted tasks have ids of their own, and an aborted task makes no
request and has its calls answered when it settles. -/
def Proper (opts : TaskRunnerOpts δ ξ) (s : RunnerState δ ξ) : RunnerAction δ ξ → Prop
  | .onMessage .runnerRegistered => s.isDraining = false
  | .onMessage (.taskOfferAccept offerId taskId) =>
    s.acceptsOffer opts offerId = true → s.runningTasks.has taskId = false
  | .request i _ => ∀ task ∈ s.taskStates[i]?, task.status.aborting = false
  | .executionSettles i _ => ∀ task ∈ s.taskStates[i]?, task.status.aborting = true →
      ∀ call ∈ s.rpcCalls, call.task = i → call.answered = true
  | _ => True

theorem TasksInv.offerAccepted (h : s.TasksInv) {offerId : Nat} {taskId : String}
    (hok : s.Proper opts (.onMessage (.taskOfferAccept offerId taskId))) :
    (s.offerAccepted opts offerId taskId).TasksInv := by
  have hsend : ∀ (t : RunnerState δ ξ) (m : RunnerMessage δ ξ), t.TasksInv → m.reported = none → (t.send m).TasksInv :=
    fun t m ht hm => ht.of_same rfl rfl rfl (by rw [send_reported, hm, Option.toList_none, List.append_nil])
  have hdelete : (s.deleteOffer offerId).TasksInv := h.of_same rfl rfl rfl rfl
  rw [RunnerState.offerAccepted]
  split
  · exact hsend s _ h rfl
  · next hd =>
    split
    · exact hsend _ _ hdelete rfl
    · next hslot =>
      split
      · next hopen =>
        refine hdelete.acceptTask (Option.not_isSome_iff_eq_none.1 ?_)
        have haccepts : s.acceptsOffer opts offerId = true := by
          simp only [acceptsOffer, hopen, Bool.and_true, Bool.and_eq_true, Bool.not_eq_true']
          exact ⟨(Bool.not_eq_true _).mp hd, (Bool.not_eq_false _).mp hslot⟩
        rw [Bool.not_eq_true]
        exact hok haccepts
      · exact hsend s _ h rfl

theorem TasksInv.step (h : s.TasksInv) {action : RunnerAction δ ξ} (hok : s.Proper opts action)
    (hs : s.step opts action = some s') : s'.TasksInv := by
  cases action with
  | onMessage message =>
    cases hs
    cases message with
    | infoRequest => exact h.of_same rfl rfl rfl ((send_reported _ _).trans (List.append_nil _))
    | runnerRegistered | taskDataResponse | nodeTypes | rpcResponse => exact h.of_same rfl rfl rfl rfl
    | taskOfferAccept offerId taskId =>
      have hlogged : { s with accepts := s.accepts ++ [taskId] }.TasksInv := h.of_same rfl rfl rfl rfl
      exact hlogged.offerAccepted hok
    | taskCancel taskId _ => exact h.taskCancelled taskId
    | taskSettings taskId => exact h.receivedSettings taskId
    | drain =>
      rw [onMessage, onBrokerDrain, releaseBrokerDrainWait_same]
      exact h.of_same rfl rfl rfl rfl
  | offerInterval =>
    simp only [RunnerState.step] at hs
    split at hs <;> cases hs
    have hsent := sendOffers_sent opts s
    exact h.of_same hsent.taskStates hsent.runningTasks hsent.reports (sendOffers_reported s)
  | offerExpires offerId =>
    cases hs
    exact h.of_same rfl rfl rfl rfl
  | taskTimeout i =>
    obtain ⟨task, hi, hs⟩ := Option.bind_eq_some_iff.1 hs
    split at hs
    · next htimer =>
      cases hs
      exact h.taskTimeout hi htimer
    · cases hs
  | executionSettles i outcome => exact h.executionSettles hs
  | request i kind =>
    obtain ⟨task, _, hs⟩ := Option.bind_eq_some_iff.1 hs
    split at hs
    · cases hs
    · cases kind <;> cases hs <;> exact h.of_same rfl rfl rfl ((send_reported _ _).trans (List.append_nil _))
  | resumeRequest kind requestId =>
    cases hs
    cases kind <;> exact h.of_same rfl rfl rfl rfl
  | stop | graceElapses | commitToDraining =>
    simp only [RunnerState.step] at hs
    split at hs <;> cases hs
    exact h.of_same rfl rfl rfl rfl
  | connectionCloses =>
    simp only [RunnerState.step] at hs
    split at hs <;> cases hs
    rw [releaseBrokerDrainWait_same]
    exact h.of_same rfl rfl rfl rfl

end RunnerState

end N8n.TaskRunner
