import N8n.TaskBroker.Effects

namespace N8n.TaskBroker

open N8n.Lib

def Broker.Reaches (s : Broker) (runnerId : String) : Prop :=
  (s.knownRunners runnerId).map TaskRunner.reachable = some true

instance (s : Broker) (runnerId : String) : Decidable (s.Reaches runnerId) := inferInstanceAs (Decidable (_ = _))

def Broker.Offers (s : Broker) (o : TaskOffer) (r : TaskRequest) : Prop :=
  o.taskType = r.taskType ∧ ¬ o.Expired s.now ∧ s.Reaches o.runnerId

instance (s : Broker) (o : TaskOffer) (r : TaskRequest) : Decidable (s.Offers o r) :=
  inferInstanceAs (Decidable (_ ∧ _))

/-- The acceptance goes on to make its request idle, and no matching follows at once: the runner defers the task, the
message to the runner fails, or it has not come back when the acknowledgement window elapsed. -/
def Broker.LeavesIdle (s : Broker) (a : Acceptance) : Prop :=
  a.phase = .offering .threw ∨ a.phase = .releasing .threw ∨
    (a.phase = .awaitingRunner ∧
      (a.runnerAnswer = some .deferred ∨
        (a.runnerAnswer = some .timedOut ∧ s.runnerDelivery a.offer.runnerId = .pending)))

instance (s : Broker) (a : Acceptance) : Decidable (s.LeavesIdle a) := inferInstanceAs (Decidable (_ ∨ _))

/-- No acceptance leaves its request idle beside an offer for it, and no runner becomes reachable whose offer waits
beside an idle request. -/
def Broker.Rematches (s : Broker) : BrokerAction → Prop
  | .resume taskId => ∀ a ∈ s.acceptances[taskId]?, s.LeavesIdle a → ∀ r ∈ s.pendingTaskRequests,
      r.ref = a.request.ref → (a.phase.offered = true ∨ r.acceptInProgress = false) →
      ∀ o ∈ s.pendingTaskOffers, ¬ s.Offers o r
  | .registerRunner runnerId runner => runner.reachable = true → ¬ s.Reaches runnerId →
      ∀ r ∈ s.pendingTaskRequests, r.acceptInProgress = false → ∀ o ∈ s.pendingTaskOffers,
      o.runnerId = runnerId → o.taskType = r.taskType → o.Expired s.now
  | _ => True

instance (s : Broker) (a : BrokerAction) : Decidable (s.Rematches a) := by
  cases a with
  | resume | registerRunner => exact inferInstanceAs (Decidable (∀ _, _))
  | _ => exact inferInstanceAs (Decidable True)

def Phase.rematches : Phase → Bool
  | .releasing .returned => true
  | .releasing .threw => true
  | _ => false

def Broker.Rematching (s : Broker) : Prop :=
  ∀ r ∈ s.pendingTaskRequests, r.acceptInProgress = false → ∀ o ∈ s.pendingTaskOffers, s.Offers o r →
    ∃ (n : Nat) (a : Acceptance), s.acceptances[n]? = some a ∧ a.request.ref = r.ref ∧ a.phase.rematches = true

structure Broker.Quiet (s s' : Broker) : Prop where
  requests : ∀ r' ∈ s'.pendingTaskRequests, ∃ r ∈ s.pendingTaskRequests, r.ref = r'.ref ∧ r.taskType = r'.taskType ∧
    (r'.acceptInProgress = false → r.acceptInProgress = false)
  offers : ∀ o ∈ s'.pendingTaskOffers, o ∈ s.pendingTaskOffers
  now : s.now ≤ s'.now
  reaches : ∀ runnerId, s'.Reaches runnerId → s.Reaches runnerId
  rematches : ∀ (n : Nat) (a : Acceptance), s.acceptances[n]? = some a → a.phase.rematches = true →
    ∃ a' : Acceptance, s'.acceptances[n]? = some a' ∧ a'.phase = a.phase ∧ a'.request = a.request

variable {mode : RunnerMode} {s s' s'' : Broker} {n : Nat} {a : Acceptance}

theorem not_expired_of_le {o : TaskOffer} {now now' : Int} (hle : now ≤ now') (h : ¬ o.Expired now') :
    ¬ o.Expired now := fun he => h ⟨he.1, Int.lt_of_lt_of_le he.2 hle⟩

theorem Broker.Rematching.quiet (h : s.Rematching) (hq : s.Quiet s') : s'.Rematching := by
  intro r' hr' hidle o ho ⟨htype, hexp, hreach⟩
  obtain ⟨r, hr, href, hrtype, hflag⟩ := hq.requests r' hr'
  obtain ⟨n, a, ha, haref, hphase⟩ := h r hr (hflag hidle) o (hq.offers o ho)
    ⟨htype.trans hrtype.symm, not_expired_of_le hq.now hexp, hq.reaches _ hreach⟩
  obtain ⟨a', ha', hphase', hreq⟩ := hq.rematches n a ha hphase
  exact ⟨n, a', ha', (congrArg TaskRequest.ref hreq).trans (haref.trans href), (congrArg _ hphase').trans hphase⟩

theorem Broker.Quiet.refl (s : Broker) : s.Quiet s :=
  ⟨fun r hr => ⟨r, hr, rfl, rfl, id⟩, fun _ => id, Int.le_refl _, fun _ => id, fun _ a ha _ => ⟨a, ha, rfl, rfl⟩⟩

theorem Broker.Quiet.trans (h : s.Quiet s') (h' : s'.Quiet s'') : s.Quiet s'' := by
  refine ⟨fun r'' hr'' => ?_, fun o ho => h.offers o (h'.offers o ho), Int.le_trans h.now h'.now,
    fun id hid => h.reaches id (h'.reaches id hid), fun n a ha hp => ?_⟩
  · obtain ⟨r', hr', href', htype', hflag'⟩ := h'.requests r'' hr''
    obtain ⟨r, hr, href, htype, hflag⟩ := h.requests r' hr'
    exact ⟨r, hr, href.trans href', htype.trans htype', fun hi => hflag (hflag' hi)⟩
  · obtain ⟨a', ha', hp', hreq'⟩ := h.rematches n a ha hp
    obtain ⟨a'', ha'', hp'', hreq''⟩ := h'.rematches n a' ha' ((congrArg _ hp').trans hp)
    exact ⟨a'', ha'', hp''.trans hp', hreq''.trans hreq'⟩

theorem Broker.Quiet.elsewhere (hr : s'.pendingTaskRequests = s.pendingTaskRequests)
    (ho : s'.pendingTaskOffers = s.pendingTaskOffers) (hnow : s'.now = s.now)
    (hknown : s'.knownRunners = s.knownRunners) (ha : s'.acceptances = s.acceptances) : s.Quiet s' := by
  refine ⟨fun r h => ⟨r, hr ▸ h, rfl, rfl, id⟩, fun o h => ho ▸ h, Int.le_of_eq hnow.symm, fun id h => ?_,
    fun _ a h _ => ⟨a, ha ▸ h, rfl, rfl⟩⟩
  rwa [Broker.Reaches, hknown] at h

theorem unanswered_get {l l' : List Acceptance} (h : l'.map Acceptance.unanswered = l.map Acceptance.unanswered)
    (ha : l[n]? = some a) :
    ∃ a', l'[n]? = some a' ∧ a'.phase = a.phase ∧ a'.request = a.request ∧ a'.offer = a.offer := by
  have hn : (l'[n]?).map Acceptance.unanswered = some a.unanswered := by
    rw [← List.getElem?_map, h, List.getElem?_map, ha]
    rfl
  obtain ⟨a', ha', he⟩ := Option.map_eq_some_iff.1 hn
  have hphase : a'.unanswered.phase = a.unanswered.phase := congrArg _ he
  have hreq : a'.unanswered.request = a.unanswered.request := congrArg _ he
  have hoffer : a'.unanswered.offer = a.unanswered.offer := congrArg _ he
  exact ⟨a', ha', hphase, hreq, hoffer⟩

theorem Broker.Quiet.answers (hr : s'.pendingTaskRequests = s.pendingTaskRequests)
    (ho : ∀ o ∈ s'.pendingTaskOffers, o ∈ s.pendingTaskOffers) (hnow : s'.now = s.now)
    (hreach : ∀ runnerId, s'.Reaches runnerId → s.Reaches runnerId)
    (ha : s'.acceptances.map Acceptance.unanswered = s.acceptances.map Acceptance.unanswered) : s.Quiet s' := by
  refine ⟨fun r h => ⟨r, hr ▸ h, rfl, rfl, id⟩, ho, Int.le_of_eq hnow.symm, hreach, fun n a h _ => ?_⟩
  obtain ⟨a', ha', hphase, hreq, -⟩ := unanswered_get ha h
  exact ⟨a', ha', hphase, hreq⟩

theorem Broker.Quiet.acceptance {a' : Acceptance} (ha : s.acceptances[n]? = some a)
    (hphase : a.phase.rematches = false) (hr : ∀ r ∈ s'.pendingTaskRequests, r ∈ s.pendingTaskRequests)
    (ho : s'.pendingTaskOffers = s.pendingTaskOffers) (hnow : s'.now = s.now)
    (hknown : s'.knownRunners = s.knownRunners) (hset : s'.acceptances = s.acceptances.set n a') : s.Quiet s' := by
  refine ⟨fun r h => ⟨r, hr r h, rfl, rfl, id⟩, fun o h => ho ▸ h, Int.le_of_eq hnow.symm, fun id h => ?_,
    fun m b hb hp => ?_⟩
  · rwa [Broker.Reaches, hknown] at h
  · have hm : n ≠ m := by
      rintro rfl
      rw [ha, Option.some.injEq] at hb
      exact Bool.noConfusion (hphase.symm.trans (hb ▸ hp))
    exact ⟨b, hset ▸ (List.getElem?_set_ne hm).trans hb, rfl, rfl⟩

theorem Broker.Quiet.setPhase (ha : s.acceptances[n]? = some a)
    (hphase : a.phase.rematches = false) (phase : Phase) : s.Quiet (s.setPhase n a phase) :=
  .acceptance ha hphase (fun _ => id) rfl rfl rfl rfl

theorem quiet_send (s : Broker) (m : Message) : s.Quiet (s.send m) := .elsewhere rfl rfl rfl rfl rfl

theorem quiet_cancelTask (s : Broker) (taskId : Nat) : s.Quiet (s.cancelTask taskId) := by
  rcases cancelTask_effect s taskId with ⟨-, h⟩ | ⟨task, -, h⟩
  · rw [h]
    exact .refl s
  · rw [h]
    exact .elsewhere rfl rfl rfl rfl rfl

theorem quiet_endTask (message : Nat → ToRequester) (s : Broker) (taskId : Nat) :
    s.Quiet (s.endTask message taskId) := by
  rcases endTask_effect message s taskId with ⟨-, h⟩ | ⟨task, -, h⟩
  · rw [h]
    exact .refl s
  · rw [h]
    exact .elsewhere rfl rfl rfl rfl rfl

theorem quiet_failTasks (s : Broker) (taskIds : List Nat) : s.Quiet (s.failTasks taskIds) := by
  obtain ⟨tasks, messages, h⟩ := failTasks_effect s taskIds
  rw [h]
  exact .elsewhere rfl rfl rfl rfl rfl

theorem quiet_getRunnerOrFailTask (s : Broker) (taskId : Nat) : s.Quiet (s.getRunnerOrFailTask taskId).1 := by
  rcases getRunnerOrFailTask_effect s taskId with h | h
  · rw [h]
    exact .refl s
  · rw [h]
    exact quiet_endTask _ s taskId

theorem quiet_handleRunnerAnswer (answer : RunnerAnswer) (s : Broker) (taskId : Nat) :
    s.Quiet (s.handleRunnerAnswer answer taskId) := by
  obtain ⟨acceptances, rejects, hsame, h⟩ := handleRunnerAnswer_effect answer s taskId
  rw [h]
  exact .answers rfl (fun _ => id) rfl (fun _ => id) hsame

theorem quiet_handleRequesterAnswer (answer : RequesterAnswer) (s : Broker) (taskId : Nat) :
    s.Quiet (s.handleRequesterAnswer answer taskId) := by
  obtain ⟨acceptances, rejects, hsame, h⟩ := handleRequesterAnswer_effect answer s taskId
  rw [h]
  exact .answers rfl (fun _ => id) rfl (fun _ => id) hsame

theorem quiet_discardOffers (s : Broker) (shouldDiscard : TaskOffer → Bool) :
    s.Quiet (s.discardOffers shouldDiscard) :=
  .answers rfl (fun _ ho => List.mem_of_mem_filter ho) rfl (fun _ => id) rfl

theorem quiet_removeRequest (s : Broker) (requestId : String) : s.Quiet (s.removeRequest requestId) :=
  ⟨fun r h => ⟨r, List.mem_of_mem_eraseP h, rfl, rfl, id⟩, fun _ => id, Int.le_refl _, fun _ => id,
    fun _ a ha _ => ⟨a, ha, rfl, rfl⟩⟩

theorem quiet_refreshRequestTimeout (s : Broker) (request : TaskRequest) :
    s.Quiet (s.refreshRequestTimeout request) := by
  rw [refreshRequestTimeout_eq]
  refine ⟨fun r' h => ?_, fun _ => id, Int.le_refl _, fun _ => id, fun _ a ha _ => ⟨a, ha, rfl, rfl⟩⟩
  obtain ⟨r, hr, rfl⟩ := List.mem_map.1 h
  obtain ⟨href, -, htype, hflag⟩ := refreshed_keeps (s.isPending request.requestId) request.ref r
  exact ⟨r, hr, href.symm, htype.symm, fun hi => hflag.symm.trans hi⟩

theorem reaches_deregister {runnerId id : String}
    (h : Broker.Reaches { s with knownRunners := fun i => if i = runnerId then none else s.knownRunners i } id) :
    s.Reaches id := by
  rw [Broker.Reaches] at h
  dsimp only at h
  split_ifs at h
  · exact nomatch h
  · exact h

theorem quiet_deregisterRunner (s : Broker) (runnerId : String) : s.Quiet (s.deregisterRunner runnerId) := by
  obtain ⟨acceptances, rejects, hsame, h⟩ := deregisterRunner_effect s runnerId
  rw [h]
  refine Broker.Quiet.trans ?_ (quiet_failTasks _ _)
  exact .answers rfl (fun _ ho => List.mem_of_mem_filter ho) rfl (fun id hid => reaches_deregister hid) hsame

theorem settled (s : Broker) : s.settleTasks.Rematching := by
  obtain ⟨rejects, messages, -, h⟩ := settleTasks_effect s
  rw [h]
  intro r hr hidle o ho hoffer
  obtain ⟨p, hp, rfl⟩ := List.mem_map.1 hr
  have htype : (marked p).taskType = p.1.taskType := by
    rw [marked]
    split_ifs <;> rfl
  exact absurd (hoffer.1.trans htype) (assign_unmatched hp hidle o ho)

theorem Broker.Rematching.giveBack (h : s.Rematching) {request : TaskRequest}
    (hno : ∀ r ∈ s.pendingTaskRequests, r.ref = request.ref → ∀ o ∈ s.pendingTaskOffers, ¬ s.Offers o r) :
    (s.giveBack request).Rematching := by
  intro r' hr' hidle o ho hoffer
  obtain ⟨r, hr, rfl⟩ := List.mem_map.1 hr'
  dsimp only at hidle hoffer ⊢
  split_ifs at hidle hoffer ⊢ with href
  · exact absurd hoffer (hno r hr href o ho)
  · exact h r hr hidle o ho hoffer

theorem Broker.Rematching.giveBack_of (h : s.Rematching) (ha : s.acceptances[n]? = some a)
    (hphase : a.phase.rematches = true) {request : TaskRequest} (hreq : a.request.ref = request.ref) :
    (s.giveBack request).Rematching := by
  intro r' hr' hidle o ho hoffer
  obtain ⟨r, hr, rfl⟩ := List.mem_map.1 hr'
  dsimp only at hidle hoffer ⊢
  split_ifs at hidle hoffer ⊢ with href
  · exact ⟨n, a, ha, hreq.trans href.symm, hphase⟩
  · exact h r hr hidle o ho hoffer

theorem Broker.Rematching.drop (h : s.Rematching) (ha : s.acceptances[n]? = some a)
    (hno : ∀ r ∈ s.pendingTaskRequests, r.ref = a.request.ref → r.acceptInProgress = false →
      ∀ o ∈ s.pendingTaskOffers, ¬ s.Offers o r) (phase : Phase) : (s.setPhase n a phase).Rematching := by
  intro r hr hidle o ho hoffer
  obtain ⟨m, b, hb, href, hp⟩ := h r hr hidle o ho hoffer
  by_cases hm : n = m
  · subst hm
    rw [ha, Option.some.injEq] at hb
    subst hb
    exact absurd hoffer (hno r hr href.symm hidle o ho)
  · exact ⟨m, b, (List.getElem?_set_ne hm).trans hb, href, hp⟩

theorem quiet_endWithCancel (ha : s.acceptances[n]? = some a)
    (hphase : a.phase.rematches = false) : s.Quiet (s.endWithCancel n a) :=
  (Broker.Quiet.setPhase ha hphase _).trans (quiet_cancelTask _ n)

theorem quiet_runnerAccepted (ha : s.acceptances[n]? = some a)
    (hphase : a.phase.rematches = false) : s.Quiet (s.runnerAccepted n a) := by
  rw [Broker.runnerAccepted]
  dsimp only
  split_ifs
  · exact .acceptance ha hphase (fun _ => List.mem_of_mem_eraseP) rfl rfl rfl rfl
  · refine Broker.Quiet.trans ?_ (quiet_cancelTask _ n)
    exact .acceptance ha hphase (fun _ => id) rfl rfl rfl rfl

theorem quiet_findRunner (ha : s.acceptances[n]? = some a)
    (hphase : a.phase.rematches = false) : s.Quiet (s.findRunner n a) := by
  have hkept : (s.getRunnerOrFailTask n).1.acceptances = s.acceptances := by
    rcases getRunnerOrFailTask_effect s n with h | h
    · rw [h]
    · rcases endTask_effect .taskerror s n with ⟨-, he⟩ | ⟨task, -, he⟩ <;> rw [h, Broker.failTask, he]
  rw [Broker.findRunner]
  split_ifs
  · exact .setPhase ha hphase _
  · exact (quiet_getRunnerOrFailTask s n).trans (.setPhase (hkept ▸ ha) hphase _)

theorem quiet_sendTaskSettings (ha : s.acceptances[n]? = some a)
    (hphase : a.phase.rematches = false) : s.Quiet (s.sendTaskSettings n a) := by
  rw [Broker.sendTaskSettings]
  cases s.task? n with
  | none => exact .setPhase ha hphase _
  | some task => exact .acceptance ha hphase (fun _ => id) rfl rfl rfl rfl

theorem Broker.Rematching.timedOut (h : s.Rematching) (ha : s.acceptances[n]? = some a)
    (hphase : a.phase = .awaitingRunner)
    (hno : s.runnerDelivery a.offer.runnerId = .pending → ∀ r ∈ s.pendingTaskRequests, r.ref = a.request.ref →
      ∀ o ∈ s.pendingTaskOffers, ¬ s.Offers o r) : (s.runnerTimedOut n a).Rematching := by
  have hidle : a.phase.rematches = false := by rw [hphase]; rfl
  have hset := h.quiet (.setPhase ha hidle (.releasing (s.runnerDelivery a.offer.runnerId)))
  have hself : (s.setPhase n a (.releasing (s.runnerDelivery a.offer.runnerId))).acceptances[n]? =
      some { a with phase := .releasing (s.runnerDelivery a.offer.runnerId) } :=
    List.getElem?_set_self (List.getElem?_eq_some_iff.1 ha).1
  have hback : ((s.setPhase n a (.releasing (s.runnerDelivery a.offer.runnerId))).giveBack a.request).Rematching := by
    cases hd : s.runnerDelivery a.offer.runnerId with
    | pending => exact (hd ▸ hset).giveBack (hno hd)
    | returned | threw => exact (hd ▸ hset).giveBack_of (hd ▸ hself) rfl rfl
  rw [runnerTimedOut_eq]
  refine Broker.Rematching.quiet ?_ (quiet_send _ _)
  refine Broker.Rematching.quiet ?_ (quiet_refreshRequestTimeout _ a.request)
  exact hback.quiet (.elsewhere rfl rfl rfl rfl rfl)

theorem Broker.Rematching.resume (h : s.Rematching) (ha : s.acceptances[n]? = some a)
    (hok : s.Rematches (.resume n)) (hs : s.Resumes n a s') : s'.Rematching := by
  have hno := hok a ha
  cases hs with
  | rejected | released => exact settled _
  | offerSent hp | announced hp | settingsSent hp => exact h.quiet (.setPhase ha (by rw [hp]; rfl) _)
  | offerFailed hp =>
    refine (h.quiet (.setPhase ha (by rw [hp]; rfl) _)).giveBack fun r hr href => ?_
    exact hno (.inl hp) r hr href (.inl (by rw [hp]; rfl))
  | accepted hp => exact h.quiet (quiet_runnerAccepted ha (by rw [hp]; rfl))
  | deferred hp hanswer =>
    refine Broker.Rematching.quiet ?_ (quiet_refreshRequestTimeout _ _)
    refine (h.quiet (.setPhase ha (by rw [hp]; rfl) _)).giveBack fun r hr href => ?_
    exact hno (.inr (.inr ⟨hp, .inl hanswer⟩)) r hr href (.inl (by rw [hp]; rfl))
  | timedOut hp hanswer =>
    refine h.timedOut ha hp fun hd r hr href => ?_
    exact hno (.inr (.inr ⟨hp, .inr ⟨hanswer, hd⟩⟩)) r hr href (.inl (by rw [hp]; rfl))
  | releaseFailed hp =>
    refine h.drop ha (fun r hr href hidle => ?_) _
    exact hno (.inr (.inl hp)) r hr href (.inr hidle)
  | announceFailed hp | refused hp | settingsFailed hp => exact h.quiet (quiet_endWithCancel ha (by rw [hp]; rfl))
  | settings hp => exact h.quiet (quiet_findRunner ha (by rw [hp]; rfl))
  | unanswered hp =>
    have hq : s.Quiet { s with requesterAcceptRejects := s.requesterAcceptRejects.filter fun t => t ≠ n } :=
      .elsewhere rfl rfl rfl rfl rfl
    exact h.quiet (hq.trans (quiet_endWithCancel ha (by rw [hp]; rfl)))
  | armed hp => exact h.quiet (quiet_sendTaskSettings ha (by rw [hp]; rfl))

theorem Broker.Rematching.registerRunner (h : s.Rematching) {runnerId : String} {runner : TaskRunner}
    (hok : s.Rematches (.registerRunner runnerId runner)) : (s.registerRunner runnerId runner).Rematching := by
  intro r hr hidle o ho ⟨htype, hexp, hreach⟩
  by_cases hold : s.Reaches o.runnerId
  · exact h r hr hidle o ho ⟨htype, hexp, hold⟩
  · change (if o.runnerId = runnerId then some runner else s.knownRunners o.runnerId).map TaskRunner.reachable = _
      at hreach
    split_ifs at hreach with hid
    · exact absurd (hok (Option.some.inj hreach) (hid ▸ hold) r hr hidle o ho hid htype) hexp
    · exact absurd hreach hold

theorem quiet_handleRequestTimeout (s : Broker) (requestId : String) : s.Quiet (s.handleRequestTimeout requestId) := by
  rw [Broker.handleRequestTimeout]
  cases s.pendingTaskRequests.find? fun r => decide (r.requestId = requestId) with
  | none => exact .refl s
  | some request =>
    exact (quiet_discardOffers s _).trans ((quiet_removeRequest _ requestId).trans (quiet_send _ _))

theorem Broker.Rematching.onRunnerMessage (h : s.Rematching) (runnerId : String) (message : RunnerMessage) :
    (s.onRunnerMessage runnerId message).Rematching := by
  rw [Broker.onRunnerMessage.eq_def]
  split_ifs
  · exact h
  · cases message with
    | taskaccepted taskId | taskrejected taskId | taskdeferred taskId =>
      exact h.quiet (quiet_handleRunnerAnswer _ s taskId)
    | taskoffer => exact settled _
    | taskdone taskId | taskerror taskId => exact h.quiet (quiet_endTask _ s taskId)

theorem Broker.Rematching.onRequesterMessage (h : s.Rematching) (requesterId : String) (message : RequesterMessage) :
    (s.onRequesterMessage requesterId message).Rematching := by
  cases message with
  | tasksettings taskId => exact h.quiet (quiet_handleRequesterAnswer _ s taskId)
  | taskcancel taskId => exact h.quiet (quiet_cancelTask s taskId)
  | taskrequest requestId taskType =>
    change (s.taskRequested requestId requesterId taskType).Rematching
    rw [Broker.taskRequested]
    dsimp only
    split_ifs
    · exact h.quiet (.elsewhere rfl rfl rfl rfl rfl)
    · exact settled _
  | response taskId =>
    change (if (s.task? taskId).isNone then s else (s.getRunnerOrFailTask taskId).1).Rematching
    split_ifs
    · exact h
    · exact h.quiet (quiet_getRunnerOrFailTask s taskId)

theorem quiet_handleTaskTimeout (mode : RunnerMode) (s : Broker) (task : Task) :
    s.Quiet (s.handleTaskTimeout mode task) := by
  cases mode with
  | internal => exact quiet_endTask _ s task.id
  | external => exact .elsewhere rfl rfl rfl rfl rfl

theorem comesBack_rematches {phase phase' : Phase} {delivery : Delivery} (h : phase.comesBack delivery = some phase') :
    phase.rematches = false := by
  cases phase with
  | releasing d => cases d <;> first | rfl | exact nomatch h
  | _ => rfl

theorem Broker.Rematching.step (h : s.Rematching) {a : BrokerAction} (hok : s.Rematches a)
    (hs : s.step mode a = some s') : s'.Rematching := by
  cases a with
  | tick nanoseconds =>
    cases hs
    refine h.quiet ⟨fun r hr => ⟨r, hr, rfl, rfl, id⟩, fun _ => id, ?_, fun _ => id,
      fun _ a ha _ => ⟨a, ha, rfl, rfl⟩⟩
    exact Int.le_add_of_nonneg_right (Int.natCast_nonneg nanoseconds)
  | registerRunner runnerId runner =>
    cases hs
    exact h.registerRunner hok
  | deregisterRunner runnerId =>
    cases hs
    exact h.quiet (quiet_deregisterRunner s runnerId)
  | failTasks taskIds =>
    cases hs
    exact h.quiet (quiet_failTasks s taskIds)
  | registerRequester | deregisterRequester | startDraining | capTaskTimeouts =>
    cases hs
    exact h.quiet (.elsewhere rfl rfl rfl rfl rfl)
  | onRunnerMessage runnerId message =>
    cases hs
    exact h.onRunnerMessage runnerId message
  | onRequesterMessage requesterId message =>
    cases hs
    exact h.onRequesterMessage requesterId message
  | handleRequesterReject taskId =>
    cases hs
    exact h.quiet (quiet_handleRequesterAnswer _ s taskId)
  | requestTimer requestId =>
    cases hs
    exact h.quiet (quiet_handleRequestTimeout s requestId)
  | runnerAcceptTimer taskId | requesterAcceptTimer taskId =>
    obtain ⟨a, ha, hs⟩ := Option.bind_eq_some_iff.1 hs
    split_ifs at hs
    cases hs
    exact h.quiet (.answers rfl (fun _ => id) rfl (fun _ => id) (map_set_same ha rfl))
  | taskTimer taskId =>
    obtain ⟨task, -, hs⟩ := Option.bind_eq_some_iff.1 hs
    split_ifs at hs
    cases hs
    exact h.quiet (quiet_handleTaskTimeout mode s task)
  | comesBack taskId delivery =>
    obtain ⟨a, ha, hs⟩ := Option.bind_eq_some_iff.1 hs
    obtain ⟨phase, hphase, hs⟩ := Option.bind_eq_some_iff.1 hs
    split_ifs at hs
    cases hs
    exact h.quiet (.setPhase ha (comesBack_rematches hphase) phase)
  | resume taskId =>
    obtain ⟨a, ha, hs⟩ := Option.bind_eq_some_iff.1 hs
    exact h.resume ha hok (resume_cases hs)
  | timeoutComesBack handler delivery =>
    obtain ⟨t, -, hs⟩ := Option.bind_eq_some_iff.1 hs
    split_ifs at hs
    cases hs
    exact h.quiet (.elsewhere rfl rfl rfl rfl rfl)
  | resumeTimeout handler =>
    obtain ⟨t, -, hs⟩ := Option.bind_eq_some_iff.1 hs
    have herase : s.Quiet { s with timeoutHandlers := s.timeoutHandlers.eraseIdx handler } :=
      .elsewhere rfl rfl rfl rfl rfl
    cases hd : t.delivery with
    | pending =>
      rw [hd] at hs
      cases hs
    | returned =>
      rw [hd] at hs
      cases hs
      exact h.quiet (herase.trans (quiet_endTask _ _ _))
    | threw =>
      rw [hd] at hs
      cases hs
      exact h.quiet herase

theorem rematching_of_reachable (h : (taskBroker mode).Reachable Broker.Rematches s) : s.Rematching := by
  refine h.invariant (fun s hs r hr => ?_) fun _ _ _ hok hi hs => hi.step hok hs
  rw [hs.2.2.2.2.1] at hr
  exact absurd hr List.not_mem_nil

theorem rematches_goes_on (h : a.phase.rematches = true) : s.resume n a ≠ none := by
  obtain ⟨offer, request, phase, runnerAnswer, requesterAnswer⟩ := a
  cases phase with
  | releasing d =>
    cases d with
    | pending => exact nomatch h
    | returned | threw => exact Option.some_ne_none _
  | _ => exact nomatch h

/-- While each acceptance that leaves its request idle meets no offer for it, and no runner becomes reachable with an
offer for an idle request, no idle request waits beside an offer for it once no call of `acceptOffer` can go on. -/
theorem none_unmatched (h : (taskBroker mode).Reachable Broker.Rematches s)
    (hready : ∀ n, s.step mode (.resume n) = none) :
    ∀ r ∈ s.pendingTaskRequests, r.acceptInProgress = false → ∀ o ∈ s.pendingTaskOffers, ¬ s.Offers o r := by
  intro r hr hidle o ho hoffer
  obtain ⟨n, a, ha, -, hphase⟩ := rematching_of_reachable h r hr hidle o ho hoffer
  have hnone : (s.acceptances[n]?).bind (s.resume n) = none := hready n
  rw [ha] at hnone
  exact rematches_goes_on hphase hnone

def idleBroker : Broker := ⟨0, false, fun _ => none, fun _ => none, [], [], [], [], [], [], [], [], [], []⟩

theorem idleBroker_initial : idleBroker.Initial := ⟨rfl, rfl, rfl, rfl, rfl, rfl, rfl, rfl, rfl, rfl⟩

/-- A request is matched with the first of two offers, of another runner each. -/
def twoOffers : List BrokerAction :=
  [.registerRunner "r1" ⟨true, .returned⟩, .registerRunner "r2" ⟨true, .returned⟩,
    .onRequesterMessage "node" (.taskrequest "q" "javascript"),
    .onRunnerMessage "r1" (.taskoffer "o1" "javascript" (-1)), .resume 0,
    .onRunnerMessage "r2" (.taskoffer "o2" "javascript" (-1))]

theorem none_goes_on (h : ∀ n < s.acceptances.length, s.step mode (.resume n) = none) (n : Nat) :
    s.step mode (.resume n) = none := by
  by_cases hn : n < s.acceptances.length
  · exact h n hn
  · change (s.acceptances[n]?).bind (s.resume n) = none
    rw [List.getElem?_eq_none (Nat.le_of_not_lt hn), Option.bind_none]

/-- The rejected request is matched with the second offer, and the next offer waits for nothing. -/
theorem none_unmatched_rejected : ∃ s, (taskBroker .internal).Reachable Broker.Rematches s ∧
    s.acceptances.length = 2 ∧ s.pendingTaskOffers.length = 1 ∧
    ∀ r ∈ s.pendingTaskRequests, r.acceptInProgress = false → ∀ o ∈ s.pendingTaskOffers, ¬ s.Offers o r := by
  have h : ((taskBroker .internal).run (fun s a => s.Rematches a) idleBroker
      (twoOffers ++ [.onRunnerMessage "r1" (.taskrejected 0), .resume 0, .resume 1,
        .onRunnerMessage "r1" (.taskoffer "o3" "python" 5000)])).any (fun s =>
          s.acceptances.length = 2 ∧ s.pendingTaskOffers.length = 1 ∧
            ∀ n < s.acceptances.length, (s.step .internal (.resume n)).isNone) = true := by decide +kernel
  obtain ⟨s, hs, h⟩ := (Option.any_eq_true _ _).1 h
  obtain ⟨h₁, h₂, h₃⟩ := of_decide_eq_true h
  have hr : (taskBroker .internal).Reachable Broker.Rematches s :=
    ⟨idleBroker, idleBroker_initial, (TransitionSystem.run_leads hs).mono fun _ _ => of_decide_eq_true⟩
  exact ⟨s, hr, h₁, h₂, none_unmatched hr (none_goes_on fun n hn => Option.isNone_iff_eq_none.1 (h₃ n hn))⟩

/-- The deferred request stays idle beside the second offer. -/
theorem deferred_beside_offer : ∃ s, (taskBroker .internal).Reachable TransitionSystem.Any s ∧
    (∀ n, s.step .internal (.resume n) = none) ∧
    ∃ r ∈ s.pendingTaskRequests, r.acceptInProgress = false ∧ ∃ o ∈ s.pendingTaskOffers, s.Offers o r := by
  have h : ((taskBroker .internal).run (fun _ _ => true) idleBroker
      (twoOffers ++ [.onRunnerMessage "r1" (.taskdeferred 0), .resume 0])).any (fun s =>
        (∀ n < s.acceptances.length, (s.step .internal (.resume n)).isNone) ∧
          ∃ r ∈ s.pendingTaskRequests, r.acceptInProgress = false ∧
            ∃ o ∈ s.pendingTaskOffers, s.Offers o r) = true := by decide +kernel
  obtain ⟨s, hs, h⟩ := (Option.any_eq_true _ _).1 h
  obtain ⟨h₁, h₂⟩ := of_decide_eq_true h
  have hr : (taskBroker .internal).Reachable TransitionSystem.Any s :=
    ⟨idleBroker, idleBroker_initial, (TransitionSystem.run_leads hs).mono fun _ _ _ => trivial⟩
  exact ⟨s, hr, none_goes_on fun n hn => Option.isNone_iff_eq_none.1 (h₁ n hn), h₂⟩

end N8n.TaskBroker
