import N8n.TaskRunner.TaskLifecycle

namespace N8n.TaskRunner

open N8n.Lib

def TaskState.aborted (task : TaskState) : Bool :=
  task.cancelled || task.timedOutWaiting || task.status = .abortingTimeout

variable {i : Nat} {task : TaskState} {f : TaskState → TaskState}

namespace RunnerState

variable {δ ξ : Type} {opts : TaskRunnerOpts δ ξ} {s s' : RunnerState δ ξ}

structure RequestsInv (s : RunnerState δ ξ) : Prop where
  data : ∀ request ∈ s.dataRequests ++ s.nodeTypesRequests, ∃ task, s.taskStates[request.task]? = some task ∧
    task.taskId = request.taskId ∧ task.execution ≠ .notStarted ∧ task.status.aborting = false
  rpc : ∀ call ∈ s.rpcCalls, call.answered = false → ∃ task, s.taskStates[call.task]? = some task ∧
    task.execution ≠ .notStarted ∧ (task.status.aborting = true → task.execution = .pending)

theorem RequestsInv.of_same (h : s.RequestsInv)
    (hstates : ∀ (i : Nat) (task : TaskState), s.taskStates[i]? = some task → s'.taskStates[i]? = some task)
    (hdata : ∀ request ∈ s'.dataRequests ++ s'.nodeTypesRequests, ∃ r ∈ s.dataRequests ++ s.nodeTypesRequests,
      r.task = request.task ∧ r.taskId = request.taskId)
    (hrpc : ∀ call ∈ s'.rpcCalls, call.answered = false → call ∈ s.rpcCalls) : s'.RequestsInv := by
  refine ⟨fun request hm => ?_, fun call hm ha => ?_⟩
  · obtain ⟨r, hr, htask, hid⟩ := hdata request hm
    obtain ⟨task, hi, hother⟩ := h.data r hr
    rw [← htask, ← hid]
    exact ⟨task, hstates _ _ hi, hother⟩
  · obtain ⟨task, hi, hother⟩ := h.rpc call (hrpc call hm ha) ha
    exact ⟨task, hstates _ _ hi, hother⟩

theorem RequestsInv.change (h : s.RequestsInv)
    (hi : s.taskStates[i]? = some task) (hid : (f task).taskId = task.taskId)
    (hstates : s'.taskStates = s.taskStates.modify i f)
    (hstarted : task.execution ≠ .notStarted → (f task).execution ≠ .notStarted)
    (hdata : ∀ request ∈ s'.dataRequests ++ s'.nodeTypesRequests, request ∈ s.dataRequests ++ s.nodeTypesRequests ∧
      (request.taskId = task.taskId → task.status.aborting = false → (f task).status.aborting = false))
    (hrpc : ∀ call ∈ s'.rpcCalls, call.answered = false → call ∈ s.rpcCalls ∧
      (call.task = i → (f task).status.aborting = true → (f task).execution = .pending)) : s'.RequestsInv := by
  have hself : s'.taskStates[i]? = some (f task) := by
    rw [hstates]
    exact getElem?_modify_self f hi
  have hother : ∀ j, j ≠ i → s'.taskStates[j]? = s.taskStates[j]? := by
    intro j hj
    rw [hstates]
    exact List.getElem?_modify_ne f _ (Ne.symm hj)
  refine ⟨fun request hm => ?_, fun call hm ha => ?_⟩
  · obtain ⟨hm, hkept⟩ := hdata request hm
    obtain ⟨owner, ho, htask, hexec, habort⟩ := h.data request hm
    by_cases hj : request.task = i
    · rw [hj] at ho
      obtain rfl := Option.some.inj (hi.symm.trans ho)
      rw [hj]
      exact ⟨_, hself, hid.trans htask, hstarted hexec, hkept htask.symm habort⟩
    · rw [hother _ hj]
      exact ⟨owner, ho, htask, hexec, habort⟩
  · obtain ⟨hm, hkept⟩ := hrpc call hm ha
    obtain ⟨owner, ho, hexec, habort⟩ := h.rpc call hm ha
    by_cases hj : call.task = i
    · rw [hj] at ho
      obtain rfl := Option.some.inj (hi.symm.trans ho)
      rw [hj]
      exact ⟨_, hself, hstarted hexec, hkept hj⟩
    · rw [hother _ hj]
      exact ⟨owner, ho, hexec, habort⟩

theorem mem_cancelTaskRequests {taskId : String} {request : DataRequest}
    (hm : request ∈ (s.cancelTaskRequests taskId).dataRequests ++ (s.cancelTaskRequests taskId).nodeTypesRequests) :
    request ∈ s.dataRequests ++ s.nodeTypesRequests ∧ request.taskId ≠ taskId := by
  rw [cancelTaskRequests, ← List.filter_append] at hm
  simpa using List.mem_filter.1 hm

theorem RequestsInv.abort (h : s.RequestsInv)
    {t : RunnerState δ ξ} (hi : s.taskStates[i]? = some task) (hid : (f task).taskId = task.taskId)
    (hpending : (f task).execution = .pending) (hstates : t.taskStates = s.taskStates.modify i f)
    (hdata : t.dataRequests = s.dataRequests) (hnodes : t.nodeTypesRequests = s.nodeTypesRequests)
    (hrpc : t.rpcCalls = s.rpcCalls) : (t.cancelTaskRequests task.taskId).RequestsInv := by
  refine h.change hi hid hstates (fun _ => ?_) (fun request hm => ?_) (fun call hm _ => ?_)
  · rw [hpending]
    simp
  · obtain ⟨hm, hne⟩ := mem_cancelTaskRequests hm
    rw [hdata, hnodes] at hm
    exact ⟨hm, fun h => absurd h hne⟩
  · exact ⟨hrpc ▸ hm, fun _ _ => hpending⟩

theorem RequestsInv.finish (h : s.RequestsInv)
    {t : RunnerState δ ξ} {taskId : String} (hi : s.taskStates[i]? = some task) (hid : (f task).taskId = task.taskId)
    (hstatus : (f task).status = task.status)
    (hexecution : task.execution ≠ .notStarted → (f task).execution ≠ .notStarted)
    (hf : Finished i taskId t s') (hstates : t.taskStates = s.taskStates.modify i f)
    (hdata : t.dataRequests = s.dataRequests) (hnodes : t.nodeTypesRequests = s.nodeTypesRequests)
    (hrpc : t.rpcCalls = s.rpcCalls)
    (hcalls : ∀ call ∈ s.rpcCalls, call.answered = false → call.task = i → task.status.aborting = true →
      (f task).execution = .pending) : s'.RequestsInv := by
  have hmodified : s'.taskStates = s.taskStates.modify i fun task => { f task with timeoutTimer := false } := by
    rw [hf.taskStates, hstates, List.modify_modify_eq]
    rfl
  refine h.change (f := fun task => { f task with timeoutTimer := false }) hi hid hmodified hexecution
    (fun request hm => ?_) (fun call hm ha => ?_)
  · rw [hf.dataRequests, hf.nodeTypesRequests, hdata, hnodes] at hm
    exact ⟨hm, fun _ h => hstatus ▸ h⟩
  · rw [hf.rpcCalls, hrpc] at hm
    exact ⟨hm, fun hc habort => hcalls call hm ha hc (hstatus ▸ habort)⟩

theorem RequestsInv.taskCancelled (h : s.RequestsInv) (ht : s.TasksInv) (taskId : String) :
    (s.taskCancelled opts taskId).RequestsInv := by
  rw [RunnerState.taskCancelled]
  split
  · exact h
  · next i hg =>
    obtain ⟨task, hi, rfl, hlive, hsound⟩ := ht.lookup hg
    rw [hi, Option.map_some]
    split
    · next hstatus =>
      have hstatus : task.status = .waitingForSettings := Option.some.inj hstatus
      refine h.finish (f := fun task => { task with cancelled := true }) hi rfl rfl id
        (finishTask_finished opts i task.taskId _) rfl rfl rfl rfl fun call _ _ _ habort => ?_
      rw [hstatus] at habort
      cases habort
    · next hstatus =>
      have hstatus : task.status = .running := Option.some.inj hstatus
      exact h.abort hi rfl (hsound.pending hlive (by rw [hstatus]; decide)) rfl rfl rfl rfl
    · exact h

theorem RequestsInv.taskTimeout (h : s.RequestsInv) (ht : s.TasksInv)
    (hi : s.taskStates[i]? = some task) (htimer : task.timeoutTimer = true) :
    ((s.fireTimer i).taskTimedOut opts task.taskId).RequestsInv := by
  have hsound := ht.sound i task hi
  have hlive := hsound.timer htimer
  obtain ⟨hg, hstatus⟩ := ht.fired hi hlive
  cases hp : task.status with
  | waitingForSettings =>
    simp only [taskTimedOut, hg, hstatus, hp]
    refine h.finish hi rfl rfl id (finishTask_finished opts i task.taskId _) rfl rfl rfl rfl
      fun call _ _ _ habort => ?_
    rw [hp] at habort
    cases habort
  | running =>
    simp only [taskTimedOut, hg, hstatus, hp]
    exact h.abort hi rfl (hsound.pending hlive (by rw [hp]; decide)) (List.modify_modify_eq ..) rfl rfl rfl
  | abortingCancelled | abortingTimeout =>
    simp only [taskTimedOut, hg, hstatus, hp]
    exact h.change hi rfl rfl id (fun request hm => ⟨hm, fun _ h => h⟩)
      fun call hm _ => ⟨hm, fun _ _ => hsound.pending hlive (by rw [hp]; decide)⟩

theorem RequestsInv.receivedSettings (h : s.RequestsInv) (ht : s.TasksInv) (taskId : String) :
    (s.receivedSettings taskId).RequestsInv := by
  rw [RunnerState.receivedSettings]
  split
  · exact h
  · next i hg =>
    obtain ⟨task, hi, rfl, hlive, hsound⟩ := ht.lookup hg
    rw [hi, Option.map_some]
    split
    · exact h.change hi rfl rfl (fun _ => by simp) (fun request hm => ⟨hm, fun _ _ => rfl⟩)
        fun call hm _ => ⟨hm, fun _ _ => rfl⟩
    · exact h

theorem RequestsInv.executionSettles (h : s.RequestsInv) {outcome : Except ξ δ}
    (hok : s.Proper opts (.executionSettles i outcome)) (hs : s.executionSettles opts i outcome = some s') :
    s'.RequestsInv := by
  obtain ⟨task, hi, hs⟩ := Option.bind_eq_some_iff.1 hs
  -- However the execution is reported, the task is finished in the end, and its calls are answered if it was aborted.
  have hfinish : ∀ {t t' : RunnerState δ ξ} (f : TaskState → TaskState), Finished i task.taskId t t' →
      (f task).taskId = task.taskId → (f task).status = task.status → (f task).execution = .settled →
      t.taskStates = s.taskStates.modify i f → t.dataRequests = s.dataRequests →
      t.nodeTypesRequests = s.nodeTypesRequests → t.rpcCalls = s.rpcCalls → t'.RequestsInv := by
    intro t t' f hf hid hstatus hexecution hstates hdata hnodes hrpc
    refine h.finish hi hid hstatus (fun _ => ?_) hf hstates hdata hnodes hrpc fun call hm ha hc habort => ?_
    · rw [hexecution]
      simp
    · exact absurd ((hok task hi habort call hm hc).symm.trans ha) (by decide)
  have hfailed : ∀ {t : RunnerState δ ξ} (f : TaskState → TaskState) (error : ξ),
      (f task).taskId = task.taskId → (f task).status = task.status → (f task).execution = .settled →
      t.taskStates = s.taskStates.modify i f → t.dataRequests = s.dataRequests →
      t.nodeTypesRequests = s.nodeTypesRequests → t.rpcCalls = s.rpcCalls →
      (t.taskExecutionFailed opts i task error).RequestsInv := by
    intro t f error hid hstatus hexecution hstates hdata hnodes hrpc
    rw [taskExecutionFailed]
    split <;>
      exact hfinish f (finishTask_finished opts i task.taskId _) hid hstatus hexecution hstates hdata hnodes hrpc
  split at hs
  · cases outcome with
    | error error =>
      cases hs
      exact hfailed _ error rfl rfl rfl rfl rfl rfl rfl
    | ok data =>
      cases hs
      have hdone := hfinish _ (finishTask_finished opts i task.taskId
        (s.setTask i fun task => { task with execution := .settled })) rfl rfl rfl rfl rfl rfl rfl
      rw [taskExecutionSucceeded]
      cases opts.stringifyError data with
      | none =>
        have hsent := hfinish _ (finishTask_finished opts i task.taskId ((s.setTask i fun task =>
          { task with execution := .settled }).report i (.taskDone task.taskId data))) rfl rfl rfl rfl rfl rfl rfl
        split
        · exact hsent
        · exact hsent
        · exact hdone
        · exact hdone
      | some error =>
        have hf := finishTask_finished opts i task.taskId
          (s.setTask i fun task => { task with execution := .settled })
        have hstates := hf.taskStates
        rw [setTask, List.modify_modify_eq] at hstates
        have hsent := hfailed (fun task => { task with execution := .settled, timeoutTimer := false }) error
          rfl rfl rfl hstates hf.dataRequests hf.nodeTypesRequests hf.rpcCalls
        split
        · exact hsent
        · exact hsent
        · exact hdone
        · exact hdone
  · cases hs

theorem RequestsInv.offerAccepted (h : s.RequestsInv) (offerId : Nat) (taskId : String) :
    (s.offerAccepted opts offerId taskId).RequestsInv := by
  have hkeep : ∀ {t : RunnerState δ ξ}, t.taskStates = s.taskStates → t.dataRequests = s.dataRequests →
      t.nodeTypesRequests = s.nodeTypesRequests → t.rpcCalls = s.rpcCalls → t.RequestsInv := by
    intro t hstates hdata hnodes hrpc
    refine h.of_same (fun i task hi => hstates ▸ hi) (fun request hm => ⟨request, ?_, rfl, rfl⟩)
      fun call hm _ => hrpc ▸ hm
    rw [← hdata, ← hnodes]
    exact hm
  rw [RunnerState.offerAccepted]
  split
  · exact hkeep rfl rfl rfl rfl
  · split
    · exact hkeep rfl rfl rfl rfl
    · split
      · refine h.of_same (fun i task hi => ?_) (fun request hm => ⟨request, hm, rfl, rfl⟩) fun call hm _ => hm
        obtain ⟨hlt, -⟩ := List.getElem?_eq_some_iff.1 hi
        exact (List.getElem?_append_left hlt).trans hi
      · exact hkeep rfl rfl rfl rfl

theorem RequestsInv.request (h : s.RequestsInv) {kind : RequestKind} (hok : s.Proper opts (.request i kind))
    (hs : s.request i kind = some s') : s'.RequestsInv := by
  obtain ⟨task, hi, hs⟩ := Option.bind_eq_some_iff.1 hs
  have habort := hok task hi
  split at hs
  · cases hs
  · next hstarted =>
    have hmade : ∀ r : DataRequest, r.task = i → r.taskId = task.taskId → ∃ owner,
        s.taskStates[r.task]? = some owner ∧ owner.taskId = r.taskId ∧ owner.execution ≠ .notStarted ∧
          owner.status.aborting = false := by
      intro r htask hid
      exact ⟨task, htask ▸ hi, hid.symm, hstarted, habort⟩
    cases kind with
    | data =>
      cases hs
      refine ⟨fun r hm => ?_, h.rpc⟩
      obtain hm | hm := List.mem_append.1 hm
      · obtain hm | hm := List.mem_append.1 hm
        · exact h.data r (List.mem_append_left _ hm)
        · obtain rfl := List.mem_singleton.1 hm
          exact hmade _ rfl rfl
      · exact h.data r (List.mem_append_right _ hm)
    | nodeTypes =>
      cases hs
      refine ⟨fun r hm => ?_, h.rpc⟩
      obtain hm | hm := List.mem_append.1 hm
      · exact h.data r (List.mem_append_left _ hm)
      · obtain hm | hm := List.mem_append.1 hm
        · exact h.data r (List.mem_append_right _ hm)
        · obtain rfl := List.mem_singleton.1 hm
          exact hmade _ rfl rfl
    | rpc =>
      cases hs
      refine ⟨h.data, fun call hm ha => ?_⟩
      obtain hm | hm := List.mem_append.1 hm
      · exact h.rpc call hm ha
      · obtain rfl := List.mem_singleton.1 hm
        exact ⟨task, hi, hstarted, fun hab => absurd (habort.symm.trans hab) Bool.false_ne_true⟩

theorem answerRequest_same (requestId : Nat) (request : DataRequest) :
    (answerRequest requestId request).task = request.task ∧
      (answerRequest requestId request).taskId = request.taskId := by
  rw [answerRequest]
  split <;> exact ⟨rfl, rfl⟩

theorem RequestsInv.answered (h : s.RequestsInv) {f : DataRequest → DataRequest}
    (hf : ∀ r, (f r).task = r.task ∧ (f r).taskId = r.taskId) (hstates : s'.taskStates = s.taskStates)
    (hdata : ∀ r ∈ s'.dataRequests, r ∈ s.dataRequests ∨ r ∈ s.dataRequests.map f)
    (hnodes : ∀ r ∈ s'.nodeTypesRequests, r ∈ s.nodeTypesRequests ∨ r ∈ s.nodeTypesRequests.map f)
    (hrpc : ∀ call ∈ s'.rpcCalls, call.answered = false → call ∈ s.rpcCalls) : s'.RequestsInv := by
  have hback : ∀ (r : DataRequest) (rs : List DataRequest), r ∈ rs ∨ r ∈ rs.map f →
      ∃ r' ∈ rs, r'.task = r.task ∧ r'.taskId = r.taskId := by
    rintro r rs (hm | hm)
    · exact ⟨r, hm, rfl, rfl⟩
    · obtain ⟨r', hr, rfl⟩ := List.mem_map.1 hm
      exact ⟨r', hr, (hf r').1.symm, (hf r').2.symm⟩
  refine h.of_same (fun i task hi => hstates ▸ hi) (fun request hm => ?_) hrpc
  obtain hm | hm := List.mem_append.1 hm
  · obtain ⟨r, hr, heq⟩ := hback request _ (hdata request hm)
    exact ⟨r, List.mem_append_left _ hr, heq⟩
  · obtain ⟨r, hr, heq⟩ := hback request _ (hnodes request hm)
    exact ⟨r, List.mem_append_right _ hr, heq⟩

theorem RequestsInv.step (h : s.RequestsInv) (ht : s.TasksInv) {action : RunnerAction δ ξ}
    (hok : s.Proper opts action) (hs : s.step opts action = some s') : s'.RequestsInv := by
  have hsame : ∀ {t : RunnerState δ ξ}, t.taskStates = s.taskStates → t.dataRequests = s.dataRequests →
      t.nodeTypesRequests = s.nodeTypesRequests → t.rpcCalls = s.rpcCalls → t.RequestsInv := by
    intro t hstates hdata hnodes hrpc
    exact h.answered (f := id) (fun _ => ⟨rfl, rfl⟩) hstates (fun r hm => .inl (hdata ▸ hm))
      (fun r hm => .inl (hnodes ▸ hm)) fun call hm _ => hrpc ▸ hm
  cases action with
  | onMessage message =>
    cases hs
    cases message with
    | infoRequest | runnerRegistered => exact hsame rfl rfl rfl rfl
    | taskOfferAccept offerId taskId =>
      have hlogged : { s with accepts := s.accepts ++ [taskId] }.RequestsInv := hsame rfl rfl rfl rfl
      exact hlogged.offerAccepted offerId taskId
    | taskCancel taskId _ => exact h.taskCancelled ht taskId
    | taskSettings taskId => exact h.receivedSettings ht taskId
    | taskDataResponse requestId =>
      exact h.answered (answerRequest_same requestId) rfl (fun r hm => .inr hm) (fun r hm => .inl hm)
        fun _ hm _ => hm
    | nodeTypes requestId =>
      exact h.answered (answerRequest_same requestId) rfl (fun r hm => .inl hm) (fun r hm => .inr hm)
        fun _ hm _ => hm
    | rpcResponse callId =>
      refine h.answered (f := id) (fun _ => ⟨rfl, rfl⟩) rfl (fun r hm => .inl hm) (fun r hm => .inl hm)
        fun call hm ha => ?_
      obtain ⟨old, hm, rfl⟩ := List.mem_map.1 hm
      split at ha
      · cases ha
      · next hne => rwa [if_neg hne]
    | drain =>
      rw [onMessage, onBrokerDrain, releaseBrokerDrainWait_same]
      exact hsame rfl rfl rfl rfl
  | offerInterval =>
    simp only [RunnerState.step] at hs
    split at hs <;> cases hs
    have hsent := sendOffers_sent opts s
    exact hsame hsent.taskStates hsent.dataRequests hsent.nodeTypesRequests hsent.rpcCalls
  | offerExpires offerId =>
    cases hs
    exact hsame rfl rfl rfl rfl
  | taskTimeout i =>
    obtain ⟨task, hi, hs⟩ := Option.bind_eq_some_iff.1 hs
    split at hs
    · next htimer =>
      cases hs
      exact h.taskTimeout ht hi htimer
    · cases hs
  | executionSettles i outcome => exact h.executionSettles hok hs
  | request i kind => exact h.request hok hs
  | resumeRequest kind requestId =>
    cases hs
    refine h.answered (f := id) (fun _ => ⟨rfl, rfl⟩) ?_ (fun r hm => .inl ?_) (fun r hm => .inl ?_)
      fun call hm _ => ?_
    · cases kind <;> rfl
    all_goals
      cases kind <;> first | exact hm | exact List.mem_of_mem_filter hm
  | stop | graceElapses | commitToDraining =>
    simp only [RunnerState.step] at hs
    split at hs <;> cases hs
    exact hsame rfl rfl rfl rfl
  | connectionCloses =>
    simp only [RunnerState.step] at hs
    split at hs <;> cases hs
    rw [releaseBrokerDrainWait_same]
    exact hsame rfl rfl rfl rfl

structure ProperInv (s : RunnerState δ ξ) : Prop where
  tasks : s.TasksInv
  requests : s.RequestsInv
  drained : s.Drained

theorem properInv_of_reachable (h : (runner opts).Reachable (Proper opts) s) : s.ProperInv := by
  refine h.invariant ?_ fun s a s' hok hi hs => ⟨hi.tasks.step hok hs, hi.requests.step hi.tasks hok hs,
    hi.drained.step (fun ha => ?_) hs⟩
  · rintro _ rfl
    have hnone : ∀ {α : Type} {P : α → Prop}, ∀ a ∈ ([] : List α), P a := fun _ h => absurd h List.not_mem_nil
    refine ⟨⟨fun taskId i => ⟨nofun, ?_⟩, nofun, hnone, List.nodup_nil, rfl⟩, ⟨hnone, hnone⟩, ⟨nofun, hnone⟩⟩
    rintro ⟨_, hsome, -⟩
    cases hsome
  · subst ha
    exact hok

structure NoneAborted (s : RunnerState δ ξ) : Prop where
  data : ∀ request ∈ s.dataRequests ++ s.nodeTypesRequests, request.answered = false →
    ∀ task ∈ s.taskStates[request.task]?, task.aborted = false
  rpc : ∀ call ∈ s.rpcCalls, call.answered = false → ∀ task ∈ s.taskStates[call.task]?, task.aborted = false

structure Correct (opts : TaskRunnerOpts δ ξ) (s : RunnerState δ ξ) : Prop where
  slots : s.openOffers.length + s.runningTasks.entries.length ≤ opts.maxConcurrency
  answers : s.sent.filterMap RunnerMessage.acceptAnswer = s.accepts
  reports : ∀ (i : Nat) (task : TaskState), s.taskStates[i]? = some task → s.reports.count i ≤ 1 ∧
    (task.cancelled = true → s.reports.count i = 0) ∧
    (task.execution = .settled ∧ task.cancelled = false ∨ task.timedOutWaiting = true → s.reports.count i = 1)
  reported : s.sent.filterMap RunnerMessage.reported =
    s.reports.filterMap fun i => s.taskStates[i]?.map TaskState.taskId
  draining : ∀ m ∈ s.sentDraining, m.isCommitment = false
  requests : s.runningTasks.entries = [] → s.NoneAborted

theorem TasksInv.reports (h : s.TasksInv) (hi : s.taskStates[i]? = some task) :
    s.reports.count i ≤ 1 ∧ (task.cancelled = true → s.reports.count i = 0) ∧
    (task.execution = .settled ∧ task.cancelled = false ∨ task.timedOutWaiting = true → s.reports.count i = 1) := by
  have hsound := h.sound i task hi
  refine ⟨List.nodup_iff_count_le_one.1 h.once i, fun hc => ?_, fun hdone => ?_⟩
  · refine List.count_eq_zero.2 fun hm => ?_
    obtain ⟨-, hfree⟩ | htimed := hsound.reported.1 hm
    · exact Bool.false_ne_true (hfree.symm.trans hc)
    · exact Bool.false_ne_true ((hsound.timedOut htimed).2.symm.trans hc)
  · exact List.count_eq_one_of_mem h.once (hsound.reported.2 hdone)

theorem TasksInv.aborted_eq (h : s.TasksInv) (hi : s.taskStates[i]? = some task)
    (hstarted : task.execution ≠ .notStarted) : task.aborted = task.status.aborting := by
  have hsound := h.sound i task hi
  have hcancelled := hsound.cancelled hstarted
  have hwaits : task.timedOutWaiting = false :=
    (Bool.not_eq_true _).mp fun htimed => hstarted (hsound.timedOut htimed).1
  cases hp : task.status <;> simp_all [TaskState.aborted, TaskStatus.aborting]

theorem ProperInv.noneAborted (h : s.ProperInv) (hempty : s.runningTasks.entries = []) : s.NoneAborted := by
  refine ⟨fun request hm _ task hi => ?_, fun call hm ha task hi => ?_⟩
  · obtain ⟨owner, ho, -, hstarted, habort⟩ := h.requests.data request hm
    obtain rfl := Option.some.inj (ho.symm.trans hi)
    exact (h.tasks.aborted_eq ho hstarted).trans habort
  · obtain ⟨owner, ho, hstarted, habort⟩ := h.requests.rpc call hm ha
    obtain rfl := Option.some.inj (ho.symm.trans hi)
    rw [h.tasks.aborted_eq ho hstarted]
    apply (Bool.not_eq_true _).mp
    intro hab
    -- The task is still executing, so it is one of the running tasks.
    have hlive : owner.finished = false :=
      TaskState.finished_eq_false.2 ⟨by rw [habort hab]; nofun, fun hn => absurd hn hstarted⟩
    have hreg := (h.tasks.running owner.taskId call.task).2 ⟨owner, ho, rfl, hlive⟩
    have hmem := s.runningTasks.mem_entries.2 hreg
    rw [hempty] at hmem
    cases hmem

instance (opts : TaskRunnerOpts δ ξ) (s : RunnerState δ ξ) (action : RunnerAction δ ξ) :
    Decidable (s.Proper opts action) :=
  match action with
  | .onMessage .runnerRegistered => inferInstanceAs (Decidable (s.isDraining = false))
  | .onMessage (.taskOfferAccept offerId taskId) =>
    inferInstanceAs (Decidable (s.acceptsOffer opts offerId = true → s.runningTasks.has taskId = false))
  | .request i _ => inferInstanceAs (Decidable (∀ task ∈ s.taskStates[i]?, task.status.aborting = false))
  | .executionSettles i _ =>
    inferInstanceAs (Decidable (∀ task ∈ s.taskStates[i]?, task.status.aborting = true →
      ∀ call ∈ s.rpcCalls, call.task = i → call.answered = true))
  | .onMessage .infoRequest | .onMessage (.taskCancel ..) | .onMessage (.taskSettings _)
  | .onMessage (.taskDataResponse _) | .onMessage (.nodeTypes _) | .onMessage (.rpcResponse _) | .onMessage .drain
  | .offerInterval | .offerExpires _ | .taskTimeout _ | .resumeRequest .. | .stop _ | .graceElapses
  | .commitToDraining | .connectionCloses => .isTrue trivial

end RunnerState

/-- The runner stays within its slots, answers each accepted offer, reports each task once, offers nothing while it
drains, and leaves no request of an aborted task. -/
theorem runner_correct {δ ξ : Type} {opts : TaskRunnerOpts δ ξ} {s : RunnerState δ ξ}
    (h : (runner opts).Reachable (RunnerState.Proper opts) s) : s.Correct opts := by
  have hoffering := RunnerState.offering_of_reachable h
  have hinv := RunnerState.properInv_of_reachable h
  exact ⟨hoffering.taken, hoffering.answers, fun i task hi => hinv.tasks.reports hi, hinv.tasks.sent,
    hinv.drained.sent, hinv.noneAborted⟩

def exampleOpts : TaskRunnerOpts String String := ⟨"javascript", "runner", 1, 60, 10, fun _ => none⟩

/-- A task that calls back and returns its data, with a drain at the end. -/
theorem runner_correct_served : ∃ s : RunnerState String String, s.reports = [0] ∧ s.Correct exampleOpts := by
  have hrun : ((runner exampleOpts).run (fun s a => decide (s.Proper exampleOpts a)) .initial
      [.onMessage .runnerRegistered, .offerInterval, .onMessage (.taskOfferAccept 0 "task"),
        .onMessage (.taskSettings "task"), .request 0 .rpc, .onMessage (.rpcResponse 1), .resumeRequest .rpc 1,
        .onMessage .drain, .executionSettles 0 (.ok "data")]).any (fun s => decide (s.reports = [0])) = true := by
    decide +kernel
  obtain ⟨s, hs, hreports⟩ := (Option.any_eq_true ..).1 hrun
  have hleads := (TransitionSystem.run_leads hs).mono fun _ _ => of_decide_eq_true
  exact ⟨s, of_decide_eq_true hreports, runner_correct ⟨_, rfl, hleads⟩⟩

/-- The calls of a cancelled task stay behind. -/
theorem cancelled_call_left : ∃ s : RunnerState String String,
    (runner exampleOpts).Reachable TransitionSystem.Any s ∧ ¬ s.Correct exampleOpts := by
  have hrun : ((runner exampleOpts).run (fun _ _ => true) .initial
      [.onMessage .runnerRegistered, .offerInterval, .onMessage (.taskOfferAccept 0 "task"),
        .onMessage (.taskSettings "task"), .request 0 .rpc, .onMessage (.taskCancel "task" "cancelled"),
        .executionSettles 0 (.error "cancelled")]).any (fun s => decide (s.runningTasks.entries = [] ∧
          s.rpcCalls = [⟨1, 0, false⟩] ∧ s.taskStates[0]?.map TaskState.aborted = some true)) = true := by
    decide +kernel
  obtain ⟨s, hs, hleft⟩ := (Option.any_eq_true ..).1 hrun
  obtain ⟨hempty, hcalls, habort⟩ := of_decide_eq_true hleft
  refine ⟨s, ⟨_, rfl, (TransitionSystem.run_leads hs).mono fun _ _ _ => trivial⟩, fun h => ?_⟩
  obtain ⟨task, hi, habort⟩ := Option.map_eq_some_iff.1 habort
  have hnone := (h.requests hempty).rpc ⟨1, 0, false⟩ (hcalls ▸ List.mem_singleton_self _) rfl task hi
  exact Bool.false_ne_true (hnone.symm.trans habort)

end N8n.TaskRunner
