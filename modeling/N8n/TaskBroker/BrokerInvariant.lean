import N8n.TaskBroker.TrackedTasks

namespace N8n.TaskBroker

structure Broker.Inv (s : Broker) : Prop where
  ledger : Ledger s.pendingTaskRequests (s.acceptances.map Acceptance.call) s.messages s.requestIds
  tracked : Tracked s.tasks (s.acceptances.map Acceptance.phase) s.timeoutHandlers s.messages
  spent : Spent s.pendingTaskOffers (s.acceptances.map Acceptance.offer) s.offerIds

variable {s s' : Broker} {n : Nat} {a : Acceptance}

theorem toRunner_neutral {m : Message} (h : m.toRunner = true) :
    (∀ id, m.answers id = false) ∧ ∀ n, m.settles n = false := by
  cases m with
  | runner => exact ⟨fun _ => rfl, fun _ => rfl⟩
  | requester => exact nomatch h

theorem Broker.Inv.forget (h : s.Inv) {tasks : List Task} (hsub : tasks.Sublist s.tasks) {more : List Message}
    (hmore : ∀ m ∈ more, Message.toRunner m = true) :
    Broker.Inv { s with tasks, messages := s.messages ++ more } := by
  refine ⟨h.ledger.others fun m hm => (toRunner_neutral (hmore m hm)).1, ?_, h.spent⟩
  exact (h.tracked.fewer hsub).others fun m hm => (toRunner_neutral (hmore m hm)).2

theorem Broker.Inv.send (h : s.Inv) (runnerId : String) (message : ToRunner) :
    (s.send (.runner runnerId message)).Inv :=
  h.forget (List.Sublist.refl _) fun _ hm => List.mem_singleton.1 hm ▸ rfl

theorem Broker.Inv.cancelTask (h : s.Inv) (taskId : Nat) : (s.cancelTask taskId).Inv := by
  rcases cancelTask_effect s taskId with ⟨-, he⟩ | ⟨task, -, he⟩
  · rwa [he]
  · rw [he]
    exact h.forget List.filter_sublist fun _ hm => List.mem_singleton.1 hm ▸ rfl

theorem task?_mem {taskId : Nat} {task : Task} (h : s.task? taskId = some task) :
    task ∈ s.tasks ∧ task.id = taskId := by
  have hid := List.find?_some h
  exact ⟨List.mem_of_find?_eq_some h, of_decide_eq_true hid⟩

theorem Broker.Inv.endTask (h : s.Inv) {message : Nat → ToRequester}
    (hm : ∀ who t, (∀ id, (Message.requester who (message t)).answers id = false) ∧
      ∀ n, (Message.requester who (message t)).settles n = decide (t = n)) (taskId : Nat) :
    (s.endTask message taskId).Inv := by
  rcases endTask_effect message s taskId with ⟨-, he⟩ | ⟨task, htask, he⟩
  · rwa [he]
  · obtain ⟨hmem, rfl⟩ := task?_mem htask
    rw [he]
    refine ⟨h.ledger.others fun m hm' => ?_, h.tracked.ends hmem (hm _ _).2, h.spent⟩
    rw [List.mem_singleton.1 hm']
    exact (hm _ _).1

theorem Broker.Inv.taskDoneHandler (h : s.Inv) (taskId : Nat) : (s.taskDoneHandler taskId).Inv :=
  h.endTask (fun _ _ => ⟨fun _ => rfl, fun _ => rfl⟩) taskId

theorem Broker.Inv.taskErrorHandler (h : s.Inv) (taskId : Nat) : (s.taskErrorHandler taskId).Inv :=
  h.endTask (fun _ _ => ⟨fun _ => rfl, fun _ => rfl⟩) taskId

theorem Broker.Inv.failTasks (h : s.Inv) (taskIds : List Nat) : (s.failTasks taskIds).Inv := by
  induction taskIds generalizing s with
  | nil => exact h
  | cons taskId rest ih => exact ih (h.taskErrorHandler taskId)

theorem Broker.Inv.getRunnerOrFailTask (h : s.Inv) (taskId : Nat) : (s.getRunnerOrFailTask taskId).1.Inv := by
  rcases getRunnerOrFailTask_effect s taskId with he | he
  · rwa [he]
  · rw [he]
    exact h.taskErrorHandler taskId

theorem Broker.Inv.answers (h : s.Inv)
    (ha : s'.acceptances.map Acceptance.unanswered = s.acceptances.map Acceptance.unanswered)
    (hr : s'.pendingTaskRequests = s.pendingTaskRequests) (hm : s'.messages = s.messages)
    (hids : s'.requestIds = s.requestIds) (ht : s'.tasks = s.tasks) (hh : s'.timeoutHandlers = s.timeoutHandlers)
    (ho : s'.pendingTaskOffers.Sublist s.pendingTaskOffers) (hoids : s'.offerIds = s.offerIds) : s'.Inv := by
  have hsame : ∀ {β : Type} (f : Acceptance → β), (∀ a, f a.unanswered = f a) →
      s'.acceptances.map f = s.acceptances.map f := fun f hf => by
    have hmap : ∀ l : List Acceptance, l.map f = (l.map Acceptance.unanswered).map f := fun l => by
      rw [List.map_map]
      exact List.map_congr_left fun a _ => (hf a).symm
    rw [hmap, ha, ← hmap]
  constructor
  · rw [hr, hm, hids, hsame Acceptance.call fun _ => rfl]
    exact h.ledger
  · rw [ht, hh, hm, hsame Acceptance.phase fun _ => rfl]
    exact h.tracked
  · rw [hoids, hsame Acceptance.offer fun _ => rfl]
    exact h.spent.fewer ho

theorem Broker.Inv.handleRunnerAnswer (h : s.Inv) (answer : RunnerAnswer) (taskId : Nat) :
    (s.handleRunnerAnswer answer taskId).Inv := by
  obtain ⟨acceptances, rejects, hsame, he⟩ := handleRunnerAnswer_effect answer s taskId
  rw [he]
  exact h.answers hsame rfl rfl rfl rfl rfl (List.Sublist.refl _) rfl

theorem Broker.Inv.handleRequesterAnswer (h : s.Inv) (answer : RequesterAnswer) (taskId : Nat) :
    (s.handleRequesterAnswer answer taskId).Inv := by
  obtain ⟨acceptances, rejects, hsame, he⟩ := handleRequesterAnswer_effect answer s taskId
  rw [he]
  exact h.answers hsame rfl rfl rfl rfl rfl (List.Sublist.refl _) rfl

theorem Broker.Inv.discardOffers (h : s.Inv) (shouldDiscard : TaskOffer → Bool) :
    (s.discardOffers shouldDiscard).Inv :=
  ⟨h.ledger, h.tracked, h.spent.fewer List.filter_sublist⟩

theorem Broker.Inv.deregisterRunner (h : s.Inv) (runnerId : String) : (s.deregisterRunner runnerId).Inv := by
  obtain ⟨acceptances, rejects, hsame, he⟩ := deregisterRunner_effect s runnerId
  rw [he]
  refine Broker.Inv.failTasks ?_ _
  exact h.answers hsame rfl rfl rfl rfl rfl List.filter_sublist rfl

def Broker.chosen (s : Broker) : List TaskRequest := (s.matching.filterMap matched).map Prod.snd

theorem map_matched_fst (l : List (TaskRequest × Option TaskOffer)) :
    (l.filterMap matched).map Prod.fst = l.filterMap Prod.snd := by
  induction l with
  | nil => rfl
  | cons p l ih =>
    obtain ⟨r, o⟩ := p
    cases o with
    | none => exact ih
    | some o => exact congrArg (o :: ·) ih

theorem map_matched_snd (l : List (TaskRequest × Option TaskOffer)) :
    ((l.filterMap matched).map Prod.snd).Sublist (l.map Prod.fst) := by
  induction l with
  | nil => exact List.Sublist.refl _
  | cons p l ih =>
    obtain ⟨r, o⟩ := p
    cases o with
    | none => exact ih.cons r
    | some o => exact ih.cons_cons r

theorem mem_chosen {r : TaskRequest} : r ∈ s.chosen ↔ ∃ p ∈ s.matching, p.2.isSome = true ∧ p.1 = r := by
  constructor
  · intro h
    obtain ⟨q, hq, rfl⟩ := List.mem_map.1 h
    obtain ⟨p, hp, hm⟩ := List.mem_filterMap.1 hq
    obtain ⟨o, ho, rfl⟩ := Option.map_eq_some_iff.1 hm
    exact ⟨p, hp, ho ▸ rfl, rfl⟩
  · rintro ⟨p, hp, hsome, rfl⟩
    obtain ⟨o, ho⟩ := Option.isSome_iff_exists.1 hsome
    exact List.mem_map.2 ⟨(o, p.1), List.mem_filterMap.2 ⟨p, hp, by rw [matched, ho]; rfl⟩, rfl⟩

theorem chosen_sublist (s : Broker) : s.chosen.Sublist s.pendingTaskRequests := by
  have h := map_matched_snd s.matching
  rwa [Broker.matching, assign_requests] at h

theorem chosen_idle : ∀ r ∈ s.chosen, r.acceptInProgress = false := by
  intro r hr
  obtain ⟨p, hp, hsome, rfl⟩ := mem_chosen.1 hr
  exact assign_idle hp hsome

theorem map_marked (h : s.pendingTaskRequests.Nodup) :
    s.matching.map marked = s.pendingTaskRequests.map (begun s.chosen) := by
  have hfst : s.matching.map Prod.fst = s.pendingTaskRequests := assign_requests _ _
  have hmap : s.pendingTaskRequests.map (begun s.chosen) = s.matching.map fun p => begun s.chosen p.1 := by
    rw [← hfst, List.map_map]
    rfl
  rw [hmap]
  refine List.map_congr_left fun p hp => ?_
  have hiff : p.2.isSome = true ↔ p.1 ∈ s.chosen := by
    rw [mem_chosen]
    refine ⟨fun hsome => ⟨p, hp, hsome, rfl⟩, fun ⟨q, hq, hsome, he⟩ => ?_⟩
    rwa [List.inj_on_of_nodup_map (hfst.symm ▸ h) hp hq he.symm]
  rw [marked, begun]
  by_cases hc : p.1 ∈ s.chosen
  · rw [if_pos hc, if_pos (hiff.2 hc)]
  · rw [if_neg hc, if_neg fun hsome => hc (hiff.1 hsome)]

theorem Broker.Inv.settleTasks (h : s.Inv) : s.settleTasks.Inv := by
  obtain ⟨rejects, messages, hto, he⟩ := settleTasks_effect s
  have hcalls : ((s.matching.filterMap matched).map s.offered).map Acceptance.call = s.chosen.map TaskRequest.call := by
    rw [Broker.chosen, List.map_map, List.map_map]
    rfl
  have hoffers : ((s.matching.filterMap matched).map s.offered).map Acceptance.offer =
      s.matching.filterMap Prod.snd := by
    rw [← map_matched_fst, List.map_map]
    rfl
  rw [he]
  constructor
  · rw [List.map_append, hcalls, map_marked h.ledger.once.of_map]
    exact (h.ledger.begin (chosen_sublist s) chosen_idle).others fun m hm => (toRunner_neutral (hto m hm)).1
  · rw [List.map_append]
    exact (h.tracked.begin _).others fun m hm => (toRunner_neutral (hto m hm)).2
  · have husable : s.usableOffers.Sublist s.pendingTaskOffers := List.filter_sublist.trans List.filter_sublist
    rw [List.map_append, hoffers]
    exact (h.spent.fewer husable).give (assign_offers _ _)

theorem Broker.Inv.taskRequested (h : s.Inv) {requestId : String} (hnew : requestId ∉ s.requestIds)
    (requesterId taskType : String) : (s.taskRequested requestId requesterId taskType).Inv := by
  rw [Broker.taskRequested]
  dsimp only
  split_ifs
  · refine ⟨h.ledger.refuse hnew requesterId .draining, h.tracked.others fun m hm n => ?_, h.spent⟩
    rw [List.mem_singleton.1 hm]
    rfl
  · refine Broker.Inv.settleTasks ⟨?_, h.tracked, h.spent⟩
    exact h.ledger.arrive (r := ⟨s.requestIds.length, requestId, requesterId, taskType, false, 0⟩) hnew rfl rfl

theorem Broker.Inv.taskOffered (h : s.Inv) {offer : TaskOffer} (hnew : offer.offerId ∉ s.offerIds) :
    (s.taskOffered offer).Inv :=
  Broker.Inv.settleTasks ⟨h.ledger, h.tracked, h.spent.arrive hnew⟩

theorem Broker.Inv.handleRequestTimeout (h : s.Inv) (requestId : String) : (s.handleRequestTimeout requestId).Inv := by
  rw [Broker.handleRequestTimeout]
  cases hfind : s.pendingTaskRequests.find? fun r => decide (r.requestId = requestId) with
  | none => exact h
  | some r =>
    have hid := List.find?_some hfind
    obtain rfl := of_decide_eq_true hid
    refine ⟨h.ledger.expire (List.mem_of_find?_eq_some hfind) r.requesterId .timeout,
      h.tracked.others fun m hm n => ?_, h.spent.fewer List.filter_sublist⟩
    rw [List.mem_singleton.1 hm]
    rfl

theorem map_setPhase_call (phase : Phase) :
    (s.setPhase n a phase).acceptances.map Acceptance.call =
      (s.acceptances.map Acceptance.call).set n ⟨a.request.ref, a.request.requestId, phase.stage⟩ := by
  rw [Broker.setPhase, Broker.setAcceptance, List.map_set]
  rfl

theorem map_setPhase_phase (phase : Phase) :
    (s.setPhase n a phase).acceptances.map Acceptance.phase = (s.acceptances.map Acceptance.phase).set n phase := by
  rw [Broker.setPhase, Broker.setAcceptance, List.map_set]

theorem map_setPhase_offer (ha : s.acceptances[n]? = some a) (phase : Phase) :
    (s.setPhase n a phase).acceptances.map Acceptance.offer = s.acceptances.map Acceptance.offer :=
  map_set_same ha rfl

theorem call_get (ha : s.acceptances[n]? = some a) :
    (s.acceptances.map Acceptance.call)[n]? = some ⟨a.request.ref, a.request.requestId, a.phase.stage⟩ := by
  rw [List.getElem?_map, ha]
  rfl

theorem phase_get (ha : s.acceptances[n]? = some a) : (s.acceptances.map Acceptance.phase)[n]? = some a.phase := by
  rw [List.getElem?_map, ha]
  rfl

theorem Broker.Inv.goes_on (h : s.Inv) (ha : s.acceptances[n]? = some a) (phase : Phase)
    (hstage : phase.stage = a.phase.stage)
    (hholds : ∀ t ∈ s.tasks, t.id = n → t.timeout = .unset → phase.holds = true) : (s.setPhase n a phase).Inv := by
  constructor
  · rw [Broker.setPhase, Broker.setAcceptance]
    dsimp only
    rw [map_set_same ha]
    · exact h.ledger
    · rw [Acceptance.call, hstage]
      rfl
  · rw [map_setPhase_phase]
    exact h.tracked.phase (phase_get ha) phase (fun hs => hstage.trans hs) hholds
  · rw [map_setPhase_offer ha]
    exact h.spent

theorem Broker.Inv.no_unset (h : s.Inv) (ha : s.acceptances[n]? = some a)
    (hphase : a.phase.holds = false) : ∀ t ∈ s.tasks, t.id = n → t.timeout ≠ .unset := by
  intro t ht hid hu
  obtain ⟨p, hp, -, hholds⟩ := h.tracked.taken t ht
  rw [hid, phase_get ha, Option.some.injEq] at hp
  exact Bool.false_ne_true (hphase.symm.trans (hp ▸ hholds hu))

theorem Broker.Inv.dropped (h : s.Inv) (ha : s.acceptances[n]? = some a)
    (hstage : a.phase.stage = .offered) (phase : Phase) (hdropped : phase.stage = .dropped) :
    ((s.setPhase n a phase).giveBack a.request).Inv := by
  have hcall := call_get ha
  have hgone := h.tracked.fresh (phase_get ha) (hstage ▸ Stage.noConfusion)
  have hledger := h.ledger.drop hcall hstage
  constructor
  · change Ledger (s.pendingTaskRequests.map _) ((s.setPhase n a phase).acceptances.map Acceptance.call) _ _
    rw [map_setPhase_call, hdropped]
    exact hledger
  · change Tracked _ ((s.setPhase n a phase).acceptances.map Acceptance.phase) _ _
    rw [map_setPhase_phase]
    exact h.tracked.phase (phase_get ha) phase (fun hs => nomatch hstage.symm.trans hs)
      fun t ht he => absurd he (hgone.1 t ht)
  · change Spent _ ((s.setPhase n a phase).acceptances.map Acceptance.offer) _
    rw [map_setPhase_offer ha]
    exact h.spent

theorem cancelTask_untracks (s : Broker) (taskId : Nat) : ∀ t ∈ (s.cancelTask taskId).tasks, t.id ≠ taskId := by
  intro t ht
  rcases cancelTask_effect s taskId with ⟨hnone, he⟩ | ⟨task, -, he⟩
  · rw [he] at ht
    exact of_decide_eq_false (Bool.eq_false_iff.2 (List.find?_eq_none.1 hnone t ht))
  · rw [he] at ht
    exact of_decide_eq_true (List.mem_filter.1 ht).2

theorem failTask_untracks (s : Broker) (taskId : Nat) : ∀ t ∈ (s.failTask taskId).tasks, t.id ≠ taskId := by
  intro t ht
  rw [Broker.failTask] at ht
  rcases endTask_effect .taskerror s taskId with ⟨hnone, he⟩ | ⟨task, -, he⟩
  · rw [he] at ht
    exact of_decide_eq_false (Bool.eq_false_iff.2 (List.find?_eq_none.1 hnone t ht))
  · rw [he] at ht
    exact of_decide_eq_true (List.mem_filter.1 ht).2

theorem acceptances_cancelTask (s : Broker) (taskId : Nat) : (s.cancelTask taskId).acceptances = s.acceptances := by
  rcases cancelTask_effect s taskId with ⟨-, he⟩ | ⟨task, -, he⟩ <;> rw [he]

theorem acceptances_failTask (s : Broker) (taskId : Nat) : (s.failTask taskId).acceptances = s.acceptances := by
  rw [Broker.failTask]
  rcases endTask_effect .taskerror s taskId with ⟨-, he⟩ | ⟨task, -, he⟩ <;> rw [he]

theorem Broker.Inv.ends (h : s.Inv) (ha : s.acceptances[n]? = some a)
    (hstage : a.phase.stage = .taken) (hnone : ∀ t ∈ s.tasks, t.id ≠ n) : (s.setPhase n a .done).Inv :=
  h.goes_on ha .done hstage.symm fun t ht he => absurd he (hnone t ht)

theorem Broker.Inv.endWithCancel (h : s.Inv) (ha : s.acceptances[n]? = some a)
    (hstage : a.phase.stage = .taken) : (s.endWithCancel n a).Inv := by
  have hcomm : s.endWithCancel n a = (s.cancelTask n).setPhase n a .done := by
    have htask : (s.setPhase n a .done).task? n = s.task? n := rfl
    rw [Broker.endWithCancel, Broker.cancelTask, Broker.cancelTask, htask]
    cases s.task? n <;> rfl
  rw [hcomm]
  exact (h.cancelTask n).ends ((congrArg (·[n]?) (acceptances_cancelTask s n)).trans ha) hstage
    (cancelTask_untracks s n)

theorem Broker.Inv.refreshRequestTimeout (h : s.Inv) (request : TaskRequest) :
    (s.refreshRequestTimeout request).Inv := by
  rw [refreshRequestTimeout_eq]
  refine ⟨h.ledger.touched fun r => ?_, h.tracked, h.spent⟩
  obtain ⟨href, hid, -, hflag⟩ := refreshed_keeps (s.isPending request.requestId) request.ref r
  exact ⟨href, hid, hflag⟩

theorem Broker.Inv.runnerTimedOut (h : s.Inv) (ha : s.acceptances[n]? = some a)
    (hstage : a.phase.stage = .offered) : (s.runnerTimedOut n a).Inv := by
  rw [runnerTimedOut_eq]
  have hdrop := h.dropped ha hstage (.releasing (s.runnerDelivery a.offer.runnerId)) rfl
  refine Broker.Inv.send (Broker.Inv.refreshRequestTimeout ?_ a.request) _ _
  exact ⟨hdrop.ledger, hdrop.tracked, hdrop.spent⟩

theorem Broker.Inv.too_late (h : s.Inv) (ha : s.acceptances[n]? = some a)
    (hstage : a.phase.stage = .offered) (hgone : ∀ r ∈ s.pendingTaskRequests, r.requestId ≠ a.request.requestId)
    {task : Task} (hid : task.id = n) :
    ((Broker.setPhase { s with tasks := s.tasks ++ [task] } n a .dropped).cancelTask n).Inv := by
  obtain ⟨hnone, -⟩ := h.tracked.fresh (phase_get ha) (hstage ▸ Stage.noConfusion)
  have hnot : ∀ t ∈ s.tasks, ¬ decide (t.id = n) = true := fun t ht he => hnone t ht (of_decide_eq_true he)
  have hfind : (Broker.setPhase { s with tasks := s.tasks ++ [task] } n a .dropped).task? n = some task := by
    change (s.tasks ++ [task]).find? (fun t => t.id = n) = some task
    rw [List.find?_append, List.find?_eq_none.2 hnot, Option.none_or]
    exact List.find?_cons_of_pos (decide_eq_true hid)
  have htasks : (s.tasks ++ [task]).filter (fun t => t.id ≠ n) = s.tasks := by
    rw [List.filter_append, List.filter_eq_self.2 fun t ht => decide_eq_true (hnone t ht),
      List.filter_cons_of_neg (by simp [hid]), List.filter_nil, List.append_nil]
  have hback : s.pendingTaskRequests.map (back a.request.ref) = s.pendingTaskRequests := by
    refine (List.map_congr_left fun r hr => ?_).trans (List.map_id _)
    refine if_neg fun href => hgone r hr ?_
    have hsame : some r.requestId = some a.request.requestId :=
      (h.ledger.named r hr).symm.trans (href ▸ h.ledger.called n _ (call_get ha))
    exact Option.some.inj hsame
  have hdrop := h.dropped ha hstage .dropped rfl
  have hkept : ((s.setPhase n a .dropped).giveBack a.request) = s.setPhase n a .dropped :=
    congrArg (fun l => { s.setPhase n a .dropped with pendingTaskRequests := l }) hback
  rw [hkept] at hdrop
  rw [Broker.cancelTask, hfind]
  have hsent := hdrop.send task.runnerId (.taskcancel n)
  refine ⟨hsent.ledger, ?_, hsent.spent⟩
  change Tracked ((s.tasks ++ [task]).filter fun t => t.id ≠ n) _ _ _
  rw [htasks]
  exact hsent.tracked

theorem Broker.Inv.runnerAccepted (h : s.Inv) (ha : s.acceptances[n]? = some a)
    (hstage : a.phase.stage = .offered) : (s.runnerAccepted n a).Inv := by
  rw [Broker.runnerAccepted]
  dsimp only
  split_ifs with hp
  · obtain ⟨r₀, hr₀, hid⟩ := List.any_eq_true.1 hp
    have hid := of_decide_eq_true hid
    have hcall := call_get ha
    rw [hstage, ← hid] at hcall
    constructor
    · have htake := h.ledger.take hr₀ hcall a.request.requesterId
      rw [hid] at htake
      change Ledger (without a.request.requestId s.pendingTaskRequests)
        ((s.setPhase n a (.announcing (s.requesterDelivery a.request.requesterId))).acceptances.map Acceptance.call) _ _
      rw [map_setPhase_call]
      exact htake
    · have hcreate := h.tracked.create ⟨n, a.offer.runnerId, a.request.requesterId, a.offer.taskType, .unset⟩
        (.announcing (s.requesterDelivery a.request.requesterId)) (phase_get ha) (hstage ▸ Stage.noConfusion)
        rfl rfl rfl
      change Tracked _ (List.map Acceptance.phase
        (s.setPhase n a (.announcing (s.requesterDelivery a.request.requesterId))).acceptances) _ _
      rw [map_setPhase_phase]
      refine hcreate.others fun m hm k => ?_
      rw [List.mem_singleton.1 hm]
      rfl
    · change Spent _ (List.map Acceptance.offer
        (s.setPhase n a (.announcing (s.requesterDelivery a.request.requesterId))).acceptances) _
      rw [map_setPhase_offer ha]
      exact h.spent
  · refine h.too_late ha hstage (fun r hr he => hp ?_) rfl
    exact List.any_eq_true.2 ⟨r, hr, decide_eq_true he⟩

theorem Broker.Inv.findRunner (h : s.Inv) (ha : s.acceptances[n]? = some a)
    (hstage : a.phase.stage = .taken) : (s.findRunner n a).Inv := by
  rw [Broker.findRunner]
  split_ifs with hnone
  · refine h.ends ha hstage fun t ht he => ?_
    exact List.find?_eq_none.1 (Option.isNone_iff_eq_none.1 hnone) t ht (decide_eq_true he)
  · rcases getRunnerOrFailTask_effect s n with he | he
    · rw [he]
      exact h.goes_on ha .arming hstage.symm fun _ _ _ _ => rfl
    · rw [he]
      exact Broker.Inv.ends (h.taskErrorHandler n) ((congrArg (·[n]?) (acceptances_failTask s n)).trans ha) hstage
        (failTask_untracks s n)

theorem Broker.Inv.setTimeout (h : s.Inv) (n : Nat) : (s.setTimeout n .armed).Inv := by
  refine ⟨h.ledger, h.tracked.retimed (fun t => ?_) (fun t ht hu => ?_) (fun t ht hf => ?_), h.spent⟩
  · split_ifs <;> rfl
  · split_ifs at hu
    exact hu
  · split_ifs at hf
    exact h.tracked.fired t ht hf

theorem Broker.Inv.sendTaskSettings (h : s.Inv) (ha : s.acceptances[n]? = some a)
    (hstage : a.phase.stage = .taken) : (s.sendTaskSettings n a).Inv := by
  rw [Broker.sendTaskSettings]
  cases htask : s.task? n with
  | none =>
    refine h.ends ha hstage fun t ht he => ?_
    exact List.find?_eq_none.1 htask t ht (decide_eq_true he)
  | some task =>
    refine Broker.Inv.send ((h.setTimeout n).goes_on ha (.sendingSettings (s.runnerDelivery task.runnerId))
      hstage.symm fun t ht he hu => ?_) _ _
    obtain ⟨t', -, rfl⟩ := List.mem_map.1 ht
    split_ifs at he hu with hid
    exact absurd he hid

theorem Broker.Inv.resume (h : s.Inv) (ha : s.acceptances[n]? = some a) (hs : s.Resumes n a s') : s'.Inv := by
  have hno : a.phase.holds = false → ∀ {phase : Phase}, ∀ t ∈ s.tasks, t.id = n → t.timeout = .unset →
      phase.holds = true := fun hp _ t ht he hu => absurd hu (h.no_unset ha hp t ht he)
  cases hs with
  | offerSent hp => exact h.goes_on ha _ (by rw [hp]; rfl) (hno (by rw [hp]; rfl))
  | offerFailed hp => exact h.dropped ha (by rw [hp]; rfl) _ rfl
  | accepted hp => exact h.runnerAccepted ha (by rw [hp]; rfl)
  | rejected hp => exact (h.dropped ha (by rw [hp]; rfl) _ rfl).settleTasks
  | deferred hp => exact (h.dropped ha (by rw [hp]; rfl) _ rfl).refreshRequestTimeout _
  | timedOut hp => exact h.runnerTimedOut ha (by rw [hp]; rfl)
  | released hp =>
    exact ((h.goes_on ha _ (by rw [hp]; rfl) (hno (by rw [hp]; rfl))).discardOffers _).settleTasks
  | releaseFailed hp => exact h.goes_on ha _ (by rw [hp]; rfl) (hno (by rw [hp]; rfl))
  | announced hp => exact h.goes_on ha _ (by rw [hp]; rfl) fun _ _ _ _ => rfl
  | announceFailed hp | refused hp | settingsFailed hp => exact h.endWithCancel ha (by rw [hp]; rfl)
  | settings hp => exact h.findRunner ha (by rw [hp]; rfl)
  | unanswered hp =>
    have hsame : Broker.Inv { s with requesterAcceptRejects := s.requesterAcceptRejects.filter fun t => t ≠ n } :=
      ⟨h.ledger, h.tracked, h.spent⟩
    exact hsame.endWithCancel ha (by rw [hp]; rfl)
  | armed hp => exact h.sendTaskSettings ha (by rw [hp]; rfl)
  | settingsSent hp => exact h.goes_on ha _ (by rw [hp]; rfl) (hno (by rw [hp]; rfl))

end N8n.TaskBroker
