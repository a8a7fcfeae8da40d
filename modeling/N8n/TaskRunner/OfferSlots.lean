import N8n.TaskRunner.Runner

namespace N8n.TaskRunner

open N8n.Lib

namespace RunnerMessage

variable {δ ξ : Type}

def acceptAnswer : RunnerMessage δ ξ → Option String
  | .taskAccepted taskId | .taskRejected taskId _ => some taskId
  | _ => none

def isOffer : RunnerMessage δ ξ → Bool
  | .taskOffer .. => true
  | _ => false

def isCommitment : RunnerMessage δ ξ → Bool
  | .taskOffer .. | .taskAccepted _ => true
  | _ => false

end RunnerMessage

namespace RunnerState

variable {δ ξ : Type} {opts : TaskRunnerOpts δ ξ} {s s' s'' : RunnerState δ ξ}

def taken (s : RunnerState δ ξ) : Nat := s.openOffers.length + s.runningTasks.entries.length

/-- Only the offers and the messages of offers are new. -/
structure OffersSent (s s' : RunnerState δ ξ) : Prop where
  runningTasks : s'.runningTasks = s.runningTasks
  taskStates : s'.taskStates = s.taskStates
  dataRequests : s'.dataRequests = s.dataRequests
  nodeTypesRequests : s'.nodeTypesRequests = s.nodeTypesRequests
  rpcCalls : s'.rpcCalls = s.rpcCalls
  isDraining : s'.isDraining = s.isDraining
  canSendOffers : s'.canSendOffers = s.canSendOffers
  offerInterval : s'.offerInterval = s.offerInterval
  accepts : s'.accepts = s.accepts
  reports : s'.reports = s.reports
  sentDraining : s.isDraining = false → s'.sentDraining = s.sentDraining
  messages : ∃ offers : List (RunnerMessage δ ξ), (∀ m ∈ offers, m.isOffer = true) ∧ s'.sent = s.sent ++ offers

theorem OffersSent.refl (s : RunnerState δ ξ) : OffersSent s s :=
  ⟨rfl, rfl, rfl, rfl, rfl, rfl, rfl, rfl, rfl, rfl, fun _ => rfl, [], by simp, (List.append_nil _).symm⟩

theorem iterate_sendOffer (opts : TaskRunnerOpts δ ξ) (n : Nat) (s : RunnerState δ ξ) :
    OffersSent s ((sendOffer opts)^[n] s) ∧ ((sendOffer opts)^[n] s).openOffers.length = s.openOffers.length + n := by
  induction n with
  | zero => exact ⟨.refl s, rfl⟩
  | succ n ih =>
    obtain ⟨h, hlen⟩ := ih
    rw [Function.iterate_succ_apply']
    generalize (sendOffer opts)^[n] s = t at h hlen
    refine ⟨⟨h.runningTasks, h.taskStates, h.dataRequests, h.nodeTypesRequests, h.rpcCalls, h.isDraining,
      h.canSendOffers, h.offerInterval, h.accepts, h.reports, fun hd => ?_, ?_⟩, ?_⟩
    · have hd' : t.isDraining = false := h.isDraining.trans hd
      rw [sendOffer, send, hd']
      exact h.sentDraining hd
    · obtain ⟨offers, hoffers, hsent⟩ := h.messages
      refine ⟨offers ++ [.taskOffer t.nanoid opts.taskType], ?_, ?_⟩
      · simp only [List.forall_mem_append, List.forall_mem_singleton]
        exact ⟨hoffers, rfl⟩
      · rw [sendOffer, send, hsent, List.append_assoc]
    · simp only [sendOffer, send, List.length_append, List.length_singleton, hlen]
      omega

theorem sendOffers_sent (opts : TaskRunnerOpts δ ξ) (s : RunnerState δ ξ) : OffersSent s (s.sendOffers opts) := by
  have hstale : OffersSent s s.deleteStaleOffers :=
    ⟨rfl, rfl, rfl, rfl, rfl, rfl, rfl, rfl, rfl, rfl, fun _ => rfl, [], by simp, (List.append_nil _).symm⟩
  simp only [sendOffers]
  split
  · have h := (iterate_sendOffer opts (s.deleteStaleOffers.offersToSend opts) s.deleteStaleOffers).1
    exact ⟨h.runningTasks, h.taskStates, h.dataRequests, h.nodeTypesRequests, h.rpcCalls, h.isDraining,
      h.canSendOffers, h.offerInterval, h.accepts, h.reports, h.sentDraining, h.messages⟩
  · exact hstale

theorem sendOffers_taken (s : RunnerState δ ξ) : (s.sendOffers opts).taken ≤ max s.taken opts.maxConcurrency := by
  have hstale : s.deleteStaleOffers.openOffers.length ≤ s.openOffers.length := List.length_filter_le ..
  have hrun : s.deleteStaleOffers.runningTasks = s.runningTasks := rfl
  simp only [sendOffers]
  split
  · obtain ⟨hsent, hlen⟩ := iterate_sendOffer opts (s.deleteStaleOffers.offersToSend opts) s.deleteStaleOffers
    rw [taken, hlen, hsent.runningTasks, offersToSend, hrun, taken]
    omega
  · rw [taken, taken, hrun]
    omega

theorem sendOffers_closed (h : s.canSendOffers = false) : s.sendOffers opts = s.deleteStaleOffers :=
  if_neg (by rw [deleteStaleOffers, h]; exact Bool.false_ne_true)

/-- The step takes slots up to the limit only, and answers no accepted offer. -/
structure Served (opts : TaskRunnerOpts δ ξ) (s s' : RunnerState δ ξ) : Prop where
  taken : s'.taken ≤ max s.taken opts.maxConcurrency
  answers : s'.sent.filterMap RunnerMessage.acceptAnswer = s.sent.filterMap RunnerMessage.acceptAnswer
  accepts : s'.accepts = s.accepts
  isDraining : s'.isDraining = s.isDraining
  canSendOffers : s'.canSendOffers = s.canSendOffers
  offerInterval : s'.offerInterval = s.offerInterval
  drained : (s.isDraining = true → s.canSendOffers = false) →
    ∀ m ∈ s'.sentDraining, m ∈ s.sentDraining ∨ m.isCommitment = false

theorem Served.trans (h : Served opts s s') (h' : Served opts s' s'') : Served opts s s'' := by
  refine ⟨?_, h'.answers.trans h.answers, h'.accepts.trans h.accepts, h'.isDraining.trans h.isDraining,
    h'.canSendOffers.trans h.canSendOffers, h'.offerInterval.trans h.offerInterval, fun hc m hm => ?_⟩
  · have h₁ := h.taken
    have h₂ := h'.taken
    omega
  · obtain hm | hm := h'.drained (fun hd => h.canSendOffers.trans (hc (h.isDraining.symm.trans hd))) m hm
    · exact h.drained hc m hm
    · exact .inr hm

theorem Served.of_same (htaken : s'.taken ≤ s.taken) (hsent : s'.sent = s.sent) (haccepts : s'.accepts = s.accepts)
    (hdraining : s'.isDraining = s.isDraining) (hcan : s'.canSendOffers = s.canSendOffers)
    (hinterval : s'.offerInterval = s.offerInterval) (hlate : s'.sentDraining = s.sentDraining) : Served opts s s' :=
  ⟨htaken.trans (Nat.le_max_left ..), by rw [hsent], haccepts, hdraining, hcan, hinterval,
    fun _ m hm => .inl (hlate ▸ hm)⟩

theorem Served.refl (s : RunnerState δ ξ) : Served opts s s := .of_same (Nat.le_refl _) rfl rfl rfl rfl rfl rfl

theorem served_send {m : RunnerMessage δ ξ} (ha : m.acceptAnswer = none) (hc : m.isCommitment = false)
    (s : RunnerState δ ξ) : Served opts s (s.send m) := by
  refine ⟨Nat.le_max_left .., ?_, rfl, rfl, rfl, rfl, fun _ m hm => ?_⟩
  · rw [send, List.filterMap_append, List.filterMap_cons_none ha, List.filterMap_nil, List.append_nil]
  · rw [send] at hm
    split at hm
    · obtain hm | hm := List.mem_append.1 hm
      · exact .inl hm
      · obtain rfl := List.mem_singleton.1 hm
        exact .inr hc
    · exact .inl hm

theorem served_sendOffers (s : RunnerState δ ξ) : Served opts s (s.sendOffers opts) := by
  have h := sendOffers_sent opts s
  refine ⟨sendOffers_taken s, ?_, h.accepts, h.isDraining, h.canSendOffers, h.offerInterval, fun hc m hm => ?_⟩
  · obtain ⟨offers, hoffers, hsent⟩ := h.messages
    have hnone : offers.filterMap RunnerMessage.acceptAnswer = [] := by
      apply List.filterMap_eq_nil_iff.2
      intro m hm
      have hoffer := hoffers m hm
      cases m <;> first | rfl | cases hoffer
    rw [hsent, List.filterMap_append, hnone, List.append_nil]
  · by_cases hd : s.isDraining = true
    · rw [sendOffers_closed (hc hd)] at hm
      exact .inl hm
    · rw [h.sentDraining ((Bool.not_eq_true _).mp hd)] at hm
      exact .inl hm

theorem served_setTask (i : Nat) (f : TaskState → TaskState) (s : RunnerState δ ξ) : Served opts s (s.setTask i f) :=
  .of_same (Nat.le_refl _) rfl rfl rfl rfl rfl rfl

theorem served_finishTask (i : Nat) (taskId : String) (s : RunnerState δ ξ) :
    Served opts s (s.finishTask opts i taskId) := by
  have herase : Served opts s { s with runningTasks := s.runningTasks.erase taskId } :=
    .of_same (Nat.add_le_add_left (List.length_filter_le ..) _) rfl rfl rfl rfl rfl rfl
  exact (herase.trans (served_setTask i _ _)).trans (served_sendOffers _)

theorem served_report {message : RunnerMessage δ ξ} (ha : message.acceptAnswer = none)
    (hc : message.isCommitment = false) (i : Nat) (s : RunnerState δ ξ) : Served opts s (s.report i message) := by
  have hlog : Served opts s { s with reports := s.reports ++ [i] } :=
    .of_same (Nat.le_refl _) rfl rfl rfl rfl rfl rfl
  exact hlog.trans (served_send ha hc _)

theorem served_cancelTaskRequests (taskId : String) (s : RunnerState δ ξ) :
    Served opts s (s.cancelTaskRequests taskId) :=
  .of_same (Nat.le_refl _) rfl rfl rfl rfl rfl rfl

theorem served_taskCancelled (taskId : String) (s : RunnerState δ ξ) : Served opts s (s.taskCancelled opts taskId) := by
  rw [taskCancelled]
  split
  · exact .refl s
  · next i _ =>
    split
    · exact (served_setTask i _ s).trans (served_finishTask i taskId _)
    · exact (served_setTask i _ s).trans (served_cancelTaskRequests taskId _)
    · exact .refl s

theorem served_taskTimedOut (taskId : String) (s : RunnerState δ ξ) : Served opts s (s.taskTimedOut opts taskId) := by
  rw [taskTimedOut]
  split
  · exact .refl s
  · next i _ =>
    split
    · exact (served_report rfl rfl i s).trans (served_finishTask i taskId _)
    · exact (served_setTask i _ s).trans (served_cancelTaskRequests taskId _)
    · exact .refl s

theorem served_receivedSettings (taskId : String) (s : RunnerState δ ξ) :
    Served opts s (s.receivedSettings taskId) := by
  rw [receivedSettings]
  split
  · exact .refl s
  · split
    · exact served_setTask _ _ s
    · exact .refl s

theorem served_taskExecutionFailed (i : Nat) (task : TaskState) (error : ξ) (s : RunnerState δ ξ) :
    Served opts s (s.taskExecutionFailed opts i task error) := by
  rw [taskExecutionFailed]
  split
  · exact (served_report rfl rfl i s).trans (served_finishTask i task.taskId _)
  · exact (served_report rfl rfl i s).trans (served_finishTask i task.taskId _)
  · exact served_finishTask i task.taskId s
  · exact served_finishTask i task.taskId s

theorem served_taskExecutionSucceeded (i : Nat) (task : TaskState) (data : δ) (s : RunnerState δ ξ) :
    Served opts s (s.taskExecutionSucceeded opts i task data) := by
  rw [taskExecutionSucceeded]
  cases opts.stringifyError data with
  | none =>
    have hsent : Served opts s ((s.report i (.taskDone task.taskId data)).finishTask opts i task.taskId) :=
      (served_report rfl rfl i s).trans (served_finishTask i task.taskId _)
    split
    · exact hsent
    · exact hsent
    · exact served_finishTask i task.taskId s
    · exact served_finishTask i task.taskId s
  | some error =>
    have hsent : Served opts s _ :=
      (served_finishTask i task.taskId s).trans (served_taskExecutionFailed i task error _)
    split
    · exact hsent
    · exact hsent
    · exact served_finishTask i task.taskId s
    · exact served_finishTask i task.taskId s

theorem served_executionSettles {i : Nat} {outcome : Except ξ δ} (hs : s.executionSettles opts i outcome = some s') :
    Served opts s s' := by
  obtain ⟨task, _, hs⟩ := Option.bind_eq_some_iff.1 hs
  split at hs
  · cases outcome with
    | ok data =>
      cases hs
      exact (served_setTask i _ s).trans (served_taskExecutionSucceeded i task data _)
    | error error =>
      cases hs
      exact (served_setTask i _ s).trans (served_taskExecutionFailed i task error _)
  · cases hs

theorem served_request {i : Nat} {kind : RequestKind} (hs : s.request i kind = some s') : Served opts s s' := by
  obtain ⟨task, _, hs⟩ := Option.bind_eq_some_iff.1 hs
  split at hs
  · cases hs
  · cases kind with
    | data =>
      cases hs
      exact (served_send (m := .taskDataRequest task.taskId s.nanoid) rfl rfl s).trans
        (.of_same (Nat.le_refl _) rfl rfl rfl rfl rfl rfl)
    | nodeTypes =>
      cases hs
      exact (served_send (m := .nodeTypesRequest task.taskId s.nanoid) rfl rfl s).trans
        (.of_same (Nat.le_refl _) rfl rfl rfl rfl rfl rfl)
    | rpc =>
      cases hs
      exact (served_send (m := .rpc task.taskId s.nanoid) rfl rfl s).trans
        (.of_same (Nat.le_refl _) rfl rfl rfl rfl rfl rfl)

def changesOffering : RunnerAction δ ξ → Bool
  | .onMessage (.taskOfferAccept ..) | .onMessage .runnerRegistered | .onMessage .drain | .commitToDraining
  | .connectionCloses => true
  | _ => false

theorem served_step {action : RunnerAction δ ξ} (hr : changesOffering action = false)
    (hs : s.step opts action = some s') : Served opts s s' := by
  cases action with
  | onMessage message =>
    cases hs
    cases message with
    | infoRequest => exact served_send rfl rfl s
    | runnerRegistered | taskOfferAccept | drain => cases hr
    | taskCancel taskId _ => exact served_taskCancelled taskId s
    | taskSettings taskId => exact served_receivedSettings taskId s
    | taskDataResponse | nodeTypes | rpcResponse => exact .of_same (Nat.le_refl _) rfl rfl rfl rfl rfl rfl
  | offerInterval =>
    simp only [step] at hs
    split at hs <;> cases hs
    exact served_sendOffers s
  | offerExpires offerId =>
    cases hs
    exact .of_same (Nat.le_of_eq (by simp only [taken, List.length_map])) rfl rfl rfl rfl rfl rfl
  | taskTimeout i =>
    obtain ⟨task, _, hs⟩ := Option.bind_eq_some_iff.1 hs
    split at hs <;> cases hs
    exact (served_setTask i _ s).trans (served_taskTimedOut task.taskId _)
  | executionSettles i outcome => exact served_executionSettles hs
  | request i kind => exact served_request hs
  | resumeRequest kind requestId =>
    cases hs
    cases kind <;> exact .of_same (Nat.le_refl _) rfl rfl rfl rfl rfl rfl
  | stop =>
    simp only [step] at hs
    split at hs <;> cases hs
    exact .of_same (Nat.le_refl _) rfl rfl rfl rfl rfl rfl
  | graceElapses =>
    simp only [step] at hs
    split at hs <;> cases hs
    exact .of_same (Nat.le_refl _) rfl rfl rfl rfl rfl rfl
  | commitToDraining | connectionCloses => cases hr

theorem releaseBrokerDrainWait_same (s : RunnerState δ ξ) : s.releaseBrokerDrainWait =
    { s with stopPhase := s.releaseBrokerDrainWait.stopPhase } := by
  rw [releaseBrokerDrainWait]
  split <;> rfl

theorem deleteOffer_length {offerId : Nat} (h : s.openOffers.any (fun offer => offer.offerId = offerId) = true) :
    (s.deleteOffer offerId).openOffers.length < s.openOffers.length := by
  obtain ⟨offer, hm, hid⟩ := List.any_eq_true.1 h
  refine List.length_filter_lt_length_iff_exists.2 ⟨offer, hm, ?_⟩
  simpa using hid

theorem entries_set_length {κ α : Type} [DecidableEq κ] (m : ObjectMap κ α) (k : κ) (v : α) :
    (m.set k v).entries.length ≤ m.entries.length + 1 := by
  have hperm := (m.set_perm k v).length_eq
  have herase : (m.erase k).entries.length ≤ m.entries.length := List.length_filter_le ..
  rw [hperm, List.length_cons]
  omega

theorem offerAccepted_answers (opts : TaskRunnerOpts δ ξ) (offerId : Nat) (taskId : String) (s : RunnerState δ ξ) :
    (s.offerAccepted opts offerId taskId).taken ≤ max s.taken opts.maxConcurrency ∧
    (s.offerAccepted opts offerId taskId).accepts = s.accepts ∧
    (s.offerAccepted opts offerId taskId).sent.filterMap RunnerMessage.acceptAnswer =
      s.sent.filterMap RunnerMessage.acceptAnswer ++ [taskId] := by
  have hanswer : ∀ {message : RunnerMessage δ ξ}, message.acceptAnswer = some taskId →
      (s.sent ++ [message]).filterMap RunnerMessage.acceptAnswer =
        s.sent.filterMap RunnerMessage.acceptAnswer ++ [taskId] := by
    intro message h
    rw [List.filterMap_append, List.filterMap_cons_some h, List.filterMap_nil]
  have hdelete : (s.deleteOffer offerId).taken ≤ s.taken := Nat.add_le_add_right (List.length_filter_le ..) _
  rw [offerAccepted]
  split
  · exact ⟨Nat.le_max_left .., rfl, hanswer rfl⟩
  · split
    · exact ⟨hdelete.trans (Nat.le_max_left ..), rfl, hanswer rfl⟩
    · split
      · next hopen =>
        refine ⟨?_, rfl, hanswer rfl⟩
        have hlt := deleteOffer_length hopen
        have hset := entries_set_length s.runningTasks taskId s.taskStates.length
        simp only [acceptTask, send, taken] at hset ⊢
        have hrun : (s.deleteOffer offerId).runningTasks = s.runningTasks := rfl
        have hstates : (s.deleteOffer offerId).taskStates = s.taskStates := rfl
        rw [hrun, hstates]
        omega
      · exact ⟨Nat.le_max_left .., rfl, hanswer rfl⟩

/-- The slots are within the limit, and the answers are those of the reported offers, in their order. -/
structure Offering (opts : TaskRunnerOpts δ ξ) (s : RunnerState δ ξ) : Prop where
  taken : s.taken ≤ opts.maxConcurrency
  answers : s.sent.filterMap RunnerMessage.acceptAnswer = s.accepts

theorem Offering.step (h : Offering opts s) {action : RunnerAction δ ξ} (hs : s.step opts action = some s') :
    Offering opts s' := by
  by_cases hr : changesOffering action = false
  · have hserved := served_step hr hs
    have htaken := hserved.taken
    have hold := h.taken
    exact ⟨by omega, (hserved.answers.trans h.answers).trans hserved.accepts.symm⟩
  · cases action with
    | onMessage message =>
      cases hs
      cases message with
      | taskOfferAccept offerId taskId =>
        obtain ⟨htaken, haccepts, hanswers⟩ := offerAccepted_answers opts offerId taskId
          { s with accepts := s.accepts ++ [taskId] }
        refine ⟨htaken.trans (max_le h.taken (Nat.le_refl _)), ?_⟩
        rw [onMessage, haccepts, hanswers, ← h.answers]
      | runnerRegistered => exact ⟨h.taken, h.answers⟩
      | drain =>
        rw [onMessage, onBrokerDrain, releaseBrokerDrainWait_same]
        exact ⟨h.taken, h.answers⟩
      | infoRequest | taskCancel | taskSettings | taskDataResponse | nodeTypes | rpcResponse => exact absurd rfl hr
    | commitToDraining =>
      simp only [RunnerState.step] at hs
      split at hs <;> cases hs
      exact ⟨(Nat.add_le_add_right (Nat.zero_le _) _).trans h.taken, h.answers⟩
    | connectionCloses =>
      simp only [RunnerState.step] at hs
      split at hs <;> cases hs
      rw [releaseBrokerDrainWait_same]
      exact ⟨h.taken, h.answers⟩
    | offerInterval | offerExpires | taskTimeout | executionSettles | request | resumeRequest | stop | graceElapses =>
      exact absurd rfl hr

theorem offering_of_reachable {ok : RunnerState δ ξ → RunnerAction δ ξ → Prop} (h : (runner opts).Reachable ok s) :
    Offering opts s := by
  refine h.invariant ?_ fun s a s' _ hi hs => hi.step hs
  rintro _ rfl
  exact ⟨Nat.zero_le _, rfl⟩

structure Drained (s : RunnerState δ ξ) : Prop where
  closed : s.isDraining = true → s.canSendOffers = false ∧ s.offerInterval = false
  sent : ∀ m ∈ s.sentDraining, m.isCommitment = false

theorem Drained.served (h : s.Drained) (hs : Served opts s s') : s'.Drained := by
  refine ⟨fun hd => ?_, fun m hm => ?_⟩
  · rw [hs.canSendOffers, hs.offerInterval]
    exact h.closed (hs.isDraining.symm.trans hd)
  · obtain hm | hm := hs.drained (fun hd => (h.closed hd).1) m hm
    · exact h.sent m hm
    · exact hm

theorem Drained.offerAccepted (h : s.Drained) (offerId : Nat) (taskId : String) :
    (s.offerAccepted opts offerId taskId).Drained := by
  have hsent : ∀ {m : RunnerMessage δ ξ}, m.isCommitment = false → ∀ m' ∈ (s.send m).sentDraining,
      m'.isCommitment = false := by
    intro m hc m' hm
    rw [send] at hm
    split at hm
    · obtain hm | hm := List.mem_append.1 hm
      · exact h.sent m' hm
      · exact List.mem_singleton.1 hm ▸ hc
    · exact h.sent m' hm
  rw [RunnerState.offerAccepted]
  split
  · exact ⟨h.closed, hsent rfl⟩
  · next hd =>
    split
    · exact ⟨h.closed, hsent (m := .taskRejected taskId _) rfl⟩
    · split
      · refine ⟨h.closed, fun m hm => h.sent m ?_⟩
        simpa [acceptTask, send, deleteOffer, hd] using hm
      · exact ⟨h.closed, hsent rfl⟩

theorem Drained.step (h : s.Drained) {action : RunnerAction δ ξ}
    (hok : action = .onMessage .runnerRegistered → s.isDraining = false) (hs : s.step opts action = some s') :
    s'.Drained := by
  by_cases hr : changesOffering action = false
  · exact h.served (served_step hr hs)
  · cases action with
    | onMessage message =>
      cases hs
      cases message with
      | taskOfferAccept offerId taskId =>
        have hlogged : { s with accepts := s.accepts ++ [taskId] }.Drained := ⟨h.closed, h.sent⟩
        exact hlogged.offerAccepted offerId taskId
      | runnerRegistered =>
        have hserving := hok rfl
        exact ⟨fun hd => absurd (hserving.symm.trans hd) Bool.false_ne_true, h.sent⟩
      | drain =>
        rw [onMessage, onBrokerDrain, releaseBrokerDrainWait_same]
        exact ⟨fun _ => ⟨rfl, rfl⟩, h.sent⟩
      | infoRequest | taskCancel | taskSettings | taskDataResponse | nodeTypes | rpcResponse => exact absurd rfl hr
    | commitToDraining =>
      simp only [RunnerState.step] at hs
      split at hs <;> cases hs
      exact ⟨fun _ => ⟨rfl, rfl⟩, h.sent⟩
    | connectionCloses =>
      simp only [RunnerState.step] at hs
      split at hs <;> cases hs
      rw [releaseBrokerDrainWait_same]
      exact ⟨fun _ => ⟨rfl, rfl⟩, h.sent⟩
    | offerInterval | offerExpires | taskTimeout | executionSettles | request | resumeRequest | stop | graceElapses =>
      exact absurd rfl hr

end RunnerState

end N8n.TaskRunner
