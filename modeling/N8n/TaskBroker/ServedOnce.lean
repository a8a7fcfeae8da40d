import N8n.TaskBroker.BrokerInvariant
import N8n.TaskBroker.Matching

namespace N8n.TaskBroker

open N8n.Lib

def Broker.Distinct (s : Broker) : BrokerAction → Prop
  | .onRequesterMessage _ (.taskrequest requestId _) => requestId ∉ s.requestIds
  | .onRunnerMessage _ (.taskoffer offerId _ _) => offerId ∉ s.offerIds
  | _ => True

instance (s : Broker) (a : BrokerAction) : Decidable (s.Distinct a) := by
  unfold Broker.Distinct
  split <;> infer_instance

/-- The message that cancels a task when its execution timer fires does not fail, neither at once nor later, while the
task is still tracked by a fired timer. -/
def Broker.Cancels (mode : RunnerMode) (s : Broker) : BrokerAction → Prop
  | .taskTimer taskId => mode = .external → ∀ t ∈ s.task? taskId, s.runnerDelivery t.runnerId ≠ .threw
  | .timeoutComesBack handler .threw => ∀ h ∈ s.timeoutHandlers[handler]?, ∀ t ∈ s.tasks, t.id = h.taskId →
      t.timeout ≠ .fired
  | _ => True

instance (mode : RunnerMode) (s : Broker) (a : BrokerAction) : Decidable (s.Cancels mode a) :=
  match a with
  | .taskTimer _ => inferInstanceAs (Decidable (_ → ∀ _, _))
  | .timeoutComesBack _ .threw => inferInstanceAs (Decidable (∀ _, _))
  | .timeoutComesBack _ .pending | .timeoutComesBack _ .returned | .tick _ | .registerRunner .. | .deregisterRunner _
  | .failTasks _ | .registerRequester .. | .deregisterRequester _ | .onRunnerMessage .. | .onRequesterMessage ..
  | .handleRequesterReject _ | .startDraining | .capTaskTimeouts _ | .requestTimer _ | .runnerAcceptTimer _
  | .requesterAcceptTimer _ | .comesBack .. | .resume _ | .resumeTimeout _ => inferInstanceAs (Decidable True)

inductive RequestState where
  | idle
  | inProgress
  | task
  | answered
  deriving DecidableEq

/-- The n-th call of `acceptOffer` was made for the request and is at this stage. -/
def Broker.HasCall (s : Broker) (requestId : String) (stage : Stage) (n : Nat) : Prop :=
  ∃ a : Acceptance, s.acceptances[n]? = some a ∧ a.request.requestId = requestId ∧ a.phase.stage = stage

def Broker.Stands (s : Broker) (requestId : String) : RequestState → Prop
  | .idle => ∃ r ∈ s.pendingTaskRequests, r.requestId = requestId ∧ r.acceptInProgress = false ∧
      ∀ n, ¬ s.HasCall requestId .offered n
  | .inProgress => ∃ r ∈ s.pendingTaskRequests, r.requestId = requestId ∧ r.acceptInProgress = true ∧
      ∃! n, s.HasCall requestId .offered n
  | .task => ∃! n, s.HasCall requestId .taken n
  | .answered => ∃ who reason, .requester who (.requestexpired requestId reason) ∈ s.messages

def Acceptance.RequesterTimerLive (a : Acceptance) : Prop := a.phase.announced = true ∧ a.requesterAnswer = none

/-- The second handshake is over, and the call will stop tracking its task or arm the timer of it: when the message it
waits for has come back, or when its turn comes. -/
def Acceptance.InHand (a : Acceptance) : Prop :=
  a.phase.holds = true ∧ (a.phase = .arming ∨ a.requesterAnswer.isSome = true)

def Broker.TimedOut (s : Broker) (t : Task) : Prop :=
  t.timeout = .fired ∧ ∃ h ∈ s.timeoutHandlers, h.taskId = t.id ∧ h.delivery ≠ .threw

structure Broker.ServesOnce (s : Broker) : Prop where
  requests : ∀ id ∈ s.requestIds, ∃! state, s.Stands id state
  answers : ∀ id, (s.messages.filter (Message.answers id)).length ≤ 1
  results : ∀ taskId, (s.messages.filter (Message.settles taskId)).length ≤ 1
  offers : ∀ (n m : Nat) (a b : Acceptance), s.acceptances[n]? = some a → s.acceptances[m]? = some b →
    a.offer.offerId = b.offer.offerId → n = m
  tasks : ∀ t ∈ s.tasks, t.timeout = .armed ∨
    (∃ a : Acceptance, s.acceptances[t.id]? = some a ∧ (a.RequesterTimerLive ∨ a.InHand)) ∨ s.TimedOut t

variable {mode : RunnerMode} {s s' : Broker} {delivery : Delivery} {n : Nat} {a : Acceptance} {requestId : String}

theorem comesBack_stage {phase phase' : Phase} (h : phase.comesBack delivery = some phase') :
    phase'.stage = phase.stage ∧ phase'.holds = phase.holds := by
  cases phase with
  | offering d | releasing d | announcing d | sendingSettings d =>
    cases d with
    | pending =>
      cases h
      exact ⟨rfl, rfl⟩
    | returned | threw => exact nomatch h
  | awaitingRunner | awaitingRequester | arming | dropped | done => exact nomatch h

theorem Broker.Inv.onRunnerMessage (h : s.Inv) {runnerId : String} {message : RunnerMessage}
    (hnew : s.Distinct (.onRunnerMessage runnerId message)) : (s.onRunnerMessage runnerId message).Inv := by
  rw [Broker.onRunnerMessage.eq_def]
  split_ifs
  · exact h
  · cases message with
    | taskaccepted taskId | taskrejected taskId | taskdeferred taskId => exact h.handleRunnerAnswer _ taskId
    | taskoffer => exact h.taskOffered hnew
    | taskdone taskId => exact h.taskDoneHandler taskId
    | taskerror taskId => exact h.taskErrorHandler taskId

theorem Broker.Inv.onRequesterMessage (h : s.Inv) {requesterId : String} {message : RequesterMessage}
    (hnew : s.Distinct (.onRequesterMessage requesterId message)) : (s.onRequesterMessage requesterId message).Inv := by
  cases message with
  | tasksettings taskId => exact h.handleRequesterAnswer _ taskId
  | taskcancel taskId => exact h.cancelTask taskId
  | taskrequest => exact h.taskRequested hnew _ _
  | response taskId =>
    change (if (s.task? taskId).isNone then s else (s.getRunnerOrFailTask taskId).1).Inv
    split_ifs
    · exact h
    · exact h.getRunnerOrFailTask taskId

theorem Broker.Inv.handleTaskTimeout (h : s.Inv) {task : Task} (htask : s.task? task.id = some task)
    (hok : s.Cancels mode (.taskTimer task.id)) : (s.handleTaskTimeout mode task).Inv := by
  cases mode with
  | internal => exact h.taskErrorHandler task.id
  | external =>
    have hsent : s.runnerDelivery task.runnerId ≠ .threw := hok rfl task htask
    have hfired : Tracked (s.tasks.map fun t => if t.id = task.id then { t with timeout := .fired } else t)
        (s.acceptances.map Acceptance.phase)
        (s.timeoutHandlers ++ [⟨task.id, s.runnerDelivery task.runnerId⟩]) s.messages := by
      apply h.tracked.retimed
      · intro t
        split_ifs <;> rfl
      · intro t _ hu
        split_ifs at hu
        exact hu
      · intro t ht hf
        by_cases hid : t.id = task.id
        · exact ⟨_, List.mem_append_right _ (List.mem_singleton_self _), hid.symm, hsent⟩
        · rw [if_neg hid] at hf
          obtain ⟨x, hx, hrest⟩ := h.tracked.fired t ht hf
          exact ⟨x, List.mem_append_left _ hx, hrest⟩
    have hinv : Broker.Inv { s.setTimeout task.id .fired with
        timeoutHandlers := s.timeoutHandlers ++ [⟨task.id, s.runnerDelivery task.runnerId⟩] } :=
      ⟨h.ledger, hfired, h.spent⟩
    exact hinv.send task.runnerId (.taskcancel task.id)

theorem Broker.Inv.timeoutComesBack (h : s.Inv) {k : Nat} {x : TimeoutHandler} (hx : s.timeoutHandlers[k]? = some x)
    (hok : s.Cancels mode (.timeoutComesBack k delivery)) :
    Broker.Inv { s with timeoutHandlers := s.timeoutHandlers.set k { x with delivery } } := by
  refine ⟨h.ledger, h.tracked.rehandled fun t ht hf => ?_, h.spent⟩
  obtain ⟨y, hy, hid, hd⟩ := h.tracked.fired t ht hf
  obtain ⟨m, hm⟩ := List.mem_iff_getElem?.1 hy
  by_cases hk : k = m
  · subst hk
    rw [hx, Option.some.injEq] at hm
    subst hm
    refine ⟨{ x with delivery }, List.mem_iff_getElem?.2 ⟨k, ?_⟩, hid, fun hthrew => ?_⟩
    · exact List.getElem?_set_self (List.getElem?_eq_some_iff.1 hx).1
    · dsimp only at hthrew
      subst hthrew
      exact hok x hx t ht hid.symm hf
  · exact ⟨y, List.mem_iff_getElem?.2 ⟨m, (List.getElem?_set_ne hk).trans hm⟩, hid, hd⟩

theorem tasks_taskErrorHandler (s : Broker) (taskId : Nat) : (s.taskErrorHandler taskId).tasks ⊆ s.tasks := by
  intro t ht
  rw [Broker.taskErrorHandler] at ht
  rcases endTask_effect .taskerror s taskId with ⟨-, he⟩ | ⟨task, -, he⟩
  · rwa [he] at ht
  · rw [he] at ht
    exact List.mem_of_mem_filter ht

theorem Broker.Inv.resumeTimeout (h : s.Inv) {k : Nat} {x : TimeoutHandler} (hx : s.timeoutHandlers[k]? = some x)
    (hs : s.step mode (.resumeTimeout k) = some s') : s'.Inv := by
  have hother : ∀ t ∈ s.tasks, t.timeout = .fired → (t.id = x.taskId → x.delivery = .threw) →
      ∃ y ∈ s.timeoutHandlers.eraseIdx k, y.taskId = t.id ∧ y.delivery ≠ .threw := fun t ht hf hxt => by
    obtain ⟨y, hy, hid, hd⟩ := h.tracked.fired t ht hf
    obtain ⟨m, hm⟩ := List.mem_iff_getElem?.1 hy
    refine ⟨y, List.mem_eraseIdx_iff_getElem?.2 ⟨m, fun hk => ?_, hm⟩, hid, hd⟩
    subst hk
    rw [hx, Option.some.injEq] at hm
    subst hm
    exact hd (hxt hid.symm)
  have hs : (s.timeoutHandlers[k]?).bind _ = some s' := hs
  rw [hx, Option.bind_some] at hs
  cases hd : x.delivery with
  | pending =>
    rw [hd] at hs
    cases hs
  | threw =>
    rw [hd] at hs
    cases hs
    exact ⟨h.ledger, h.tracked.rehandled fun t ht hf => hother t ht hf fun _ => hd, h.spent⟩
  | returned =>
    rw [hd] at hs
    cases hs
    -- The task is untracked before the handler is gone.
    have hended := h.taskErrorHandler x.taskId
    have hcomm : Broker.taskErrorHandler { s with timeoutHandlers := s.timeoutHandlers.eraseIdx k } x.taskId =
        { s.taskErrorHandler x.taskId with timeoutHandlers := s.timeoutHandlers.eraseIdx k } := by
      have htask : Broker.task? { s with timeoutHandlers := s.timeoutHandlers.eraseIdx k } x.taskId =
        s.task? x.taskId := rfl
      rw [Broker.taskErrorHandler, Broker.endTask, Broker.endTask, htask]
      cases s.task? x.taskId <;> rfl
    rw [hcomm]
    refine ⟨hended.ledger, hended.tracked.rehandled fun t ht hf => ?_, hended.spent⟩
    exact hother t (tasks_taskErrorHandler s x.taskId ht) hf fun he => absurd he (failTask_untracks s x.taskId t ht)

theorem Broker.Inv.timers (h : s.Inv) {a' : Acceptance} (ha : s.acceptances[n]? = some a)
    (hsame : a'.unanswered = a.unanswered) : (s.setAcceptance n a').Inv :=
  h.answers (map_set_same ha hsame) rfl rfl rfl rfl rfl (List.Sublist.refl _) rfl

theorem Broker.Inv.comesBack (h : s.Inv) (ha : s.acceptances[n]? = some a) {phase : Phase}
    (hphase : a.phase.comesBack delivery = some phase) :
    (s.setPhase n a phase).Inv := by
  obtain ⟨hstage, hholds⟩ := comesBack_stage hphase
  refine h.goes_on ha phase hstage fun t ht hid hu => ?_
  rw [hholds]
  by_contra hf
  exact h.no_unset ha ((Bool.not_eq_true _).mp hf) t ht hid hu

theorem Broker.Inv.step {action : BrokerAction} (h : s.Inv) (hnew : s.Distinct action)
    (hok : s.Cancels mode action) (hs : s.step mode action = some s') : s'.Inv := by
  cases action with
  | tick | registerRequester | deregisterRequester | startDraining =>
    cases hs
    exact ⟨h.ledger, h.tracked, h.spent⟩
  | registerRunner runnerId runner =>
    cases hs
    have hknown : Broker.Inv
        { s with knownRunners := fun id => if id = runnerId then some runner else s.knownRunners id } :=
      ⟨h.ledger, h.tracked, h.spent⟩
    exact hknown.send runnerId .runnerregistered
  | deregisterRunner runnerId =>
    cases hs
    exact h.deregisterRunner runnerId
  | failTasks taskIds =>
    cases hs
    exact h.failTasks taskIds
  | onRunnerMessage runnerId message =>
    cases hs
    exact h.onRunnerMessage hnew
  | onRequesterMessage requesterId message =>
    cases hs
    exact h.onRequesterMessage hnew
  | handleRequesterReject taskId =>
    cases hs
    exact h.handleRequesterAnswer _ taskId
  | capTaskTimeouts taskIds =>
    cases hs
    refine ⟨h.ledger, h.tracked.retimed (fun t => ?_) (fun t ht hu => ?_) (fun t ht hf => ?_), h.spent⟩
    · split_ifs <;> rfl
    · split_ifs at hu
      exact hu
    · split_ifs at hf
      exact h.tracked.fired t ht hf
  | requestTimer requestId =>
    cases hs
    exact h.handleRequestTimeout requestId
  | runnerAcceptTimer taskId | requesterAcceptTimer taskId =>
    obtain ⟨a, ha, hs⟩ := Option.bind_eq_some_iff.1 hs
    split_ifs at hs
    cases hs
    exact h.timers ha rfl
  | taskTimer taskId =>
    obtain ⟨task, htask, hs⟩ := Option.bind_eq_some_iff.1 hs
    split_ifs at hs
    cases hs
    obtain ⟨-, rfl⟩ := task?_mem htask
    exact h.handleTaskTimeout htask hok
  | comesBack taskId delivery =>
    obtain ⟨a, ha, hs⟩ := Option.bind_eq_some_iff.1 hs
    obtain ⟨phase, hphase, hs⟩ := Option.bind_eq_some_iff.1 hs
    split_ifs at hs
    cases hs
    exact h.comesBack ha hphase
  | resume taskId =>
    obtain ⟨a, ha, hs⟩ := Option.bind_eq_some_iff.1 hs
    exact h.resume ha (resume_cases hs)
  | timeoutComesBack handler delivery =>
    obtain ⟨x, hx, hs⟩ := Option.bind_eq_some_iff.1 hs
    split_ifs at hs
    cases hs
    exact h.timeoutComesBack hx hok
  | resumeTimeout handler =>
    obtain ⟨x, hx, -⟩ := Option.bind_eq_some_iff.1 hs
    exact h.resumeTimeout hx hs

theorem inv_initial (h : s.Initial) : s.Inv := by
  obtain ⟨htasks, -, -, hoffers, hrequests, hacceptances, hhandlers, hmessages, hids, hoids⟩ := h
  refine ⟨?_, ?_, ?_⟩
  · rw [hrequests, hacceptances, hmessages, hids]
    constructor <;> simp
  · rw [htasks, hacceptances, hhandlers, hmessages]
    constructor <;> simp
  · rw [hoffers, hacceptances, hoids]
    constructor <;> simp

theorem inv_of_reachable (h : (taskBroker mode).Reachable (fun s a => s.Distinct a ∧ s.Cancels mode a) s) : s.Inv :=
  h.invariant (fun _ => inv_initial) fun _ _ _ hok hi hs => hi.step hok.1 hok.2 hs

theorem Broker.Inv.hasCall_ref (h : s.Inv) {stage : Stage}
    (hn : s.HasCall requestId stage n) : ∃ c : Call, (s.acceptances.map Acceptance.call)[n]? = some c ∧
      c.requestId = requestId ∧ c.stage = stage ∧ s.requestIds[c.ref]? = some requestId := by
  obtain ⟨a, ha, rfl, hstage⟩ := hn
  exact ⟨a.call, call_get ha, rfl, hstage, h.ledger.called n a.call (call_get ha)⟩

theorem hasCall_of_call {c : Call} (h : (s.acceptances.map Acceptance.call)[n]? = some c) :
    s.HasCall c.requestId c.stage n := by
  rw [List.getElem?_map] at h
  obtain ⟨a, ha, rfl⟩ := Option.map_eq_some_iff.1 h
  exact ⟨a, ha, rfl, rfl⟩

theorem Broker.Inv.pending_eq (h : s.Inv) {r r' : TaskRequest} (hr : r ∈ s.pendingTaskRequests)
    (hr' : r' ∈ s.pendingTaskRequests) (hid : r'.requestId = r.requestId) : r' = r :=
  List.inj_on_of_nodup_map h.ledger.once hr' hr hid

theorem Broker.Inv.stands_pending (h : s.Inv) {r : TaskRequest} (hr : r ∈ s.pendingTaskRequests) :
    ∃! state, s.Stands r.requestId state := by
  have hmine : ∀ {n}, s.HasCall r.requestId .offered n → ∃ c : Call, (s.acceptances.map Acceptance.call)[n]? = some c ∧
      c.stage = .offered ∧ c.ref = r.ref := fun hn => by
    obtain ⟨c, hc, -, hs, href⟩ := h.hasCall_ref hn
    exact ⟨c, hc, hs, h.ledger.ref_of_id href (h.ledger.named r hr)⟩
  refine ⟨if r.acceptInProgress then .inProgress else .idle, ?_, fun state hstate => ?_⟩
  · by_cases hflag : r.acceptInProgress = true
    · dsimp only
      rw [if_pos hflag]
      obtain ⟨n, c, hc, hs, href⟩ := h.ledger.has_call r hr hflag
      have hid : some c.requestId = some r.requestId :=
        (h.ledger.called n c hc).symm.trans (href ▸ h.ledger.named r hr)
      refine ⟨r, hr, rfl, hflag, n, Option.some.inj hid ▸ hs ▸ hasCall_of_call hc, fun m hm => ?_⟩
      obtain ⟨d, hd, hds, hdref⟩ := hmine hm
      exact h.ledger.alone m n d c hd hc hds hs (hdref.trans href.symm)
    · dsimp only
      rw [if_neg hflag]
      refine ⟨r, hr, rfl, (Bool.not_eq_true _).mp hflag, fun n hn => hflag ?_⟩
      obtain ⟨c, hc, hs, href⟩ := hmine hn
      exact h.ledger.in_progress n c hc hs r hr href.symm
  · cases state with
    | idle =>
      obtain ⟨r', hr', hid, hflag, -⟩ := hstate
      obtain rfl := h.pending_eq hr hr' hid
      rw [hflag, if_neg Bool.false_ne_true]
    | inProgress =>
      obtain ⟨r', hr', hid, hflag, -⟩ := hstate
      obtain rfl := h.pending_eq hr hr' hid
      rw [hflag, if_pos rfl]
    | task =>
      obtain ⟨n, hn, -⟩ := hstate
      obtain ⟨c, hc, hid, hs, -⟩ := h.hasCall_ref hn
      exact absurd hid.symm ((h.ledger.taken n c hc hs).1 r hr)
    | answered =>
      obtain ⟨who, reason, hm⟩ := hstate
      have hsilent := h.ledger.silent r hr _ hm
      exact absurd rfl (of_decide_eq_false hsilent)

theorem Broker.Inv.stands_task (h : s.Inv) {c : Call} (hc : (s.acceptances.map Acceptance.call)[n]? = some c)
    (hs : c.stage = .taken) : ∃! state, s.Stands c.requestId state := by
  obtain ⟨hp, -, honly⟩ := h.ledger.taken n c hc hs
  refine ⟨.task, ⟨n, hs ▸ hasCall_of_call hc, fun m hm => ?_⟩, fun state hstate => ?_⟩
  · obtain ⟨d, hd, hid, hds, -⟩ := h.hasCall_ref hm
    obtain ⟨-, ⟨who, hready⟩, -⟩ := h.ledger.taken m d hd hds
    obtain ⟨who', he⟩ := honly _ hready (decide_eq_true hid)
    injection he with _ he
    injection he
  · cases state with
    | idle | inProgress =>
      obtain ⟨r, hr, hid, -⟩ := hstate
      exact absurd hid (hp r hr)
    | task => rfl
    | answered =>
      obtain ⟨who, reason, hm⟩ := hstate
      obtain ⟨who', he⟩ := honly _ hm (decide_eq_true rfl)
      injection he with _ he
      exact nomatch he

theorem Broker.Inv.stands_answered (h : s.Inv) {who : String} {reason : ExpiryReason}
    (hm : .requester who (.requestexpired requestId reason) ∈ s.messages) : ∃! state, s.Stands requestId state := by
  refine ⟨.answered, ⟨who, reason, hm⟩, fun state hstate => ?_⟩
  cases state with
  | idle | inProgress =>
    obtain ⟨r, hr, rfl, -⟩ := hstate
    have hsilent := h.ledger.silent r hr _ hm
    exact absurd rfl (of_decide_eq_false hsilent)
  | task =>
    obtain ⟨n, hn, -⟩ := hstate
    obtain ⟨c, hc, rfl, hs, -⟩ := h.hasCall_ref hn
    obtain ⟨-, -, honly⟩ := h.ledger.taken n c hc hs
    obtain ⟨who', he⟩ := honly _ hm (decide_eq_true rfl)
    injection he with _ he
    exact nomatch he
  | answered => rfl

theorem Broker.Inv.stands (h : s.Inv) (hid : requestId ∈ s.requestIds) : ∃! state, s.Stands requestId state := by
  rcases h.ledger.covered requestId hid with ⟨r, hr, rfl⟩ | ⟨n, c, hc, hs, rfl⟩ | ⟨who, reason, hm⟩
  · exact h.stands_pending hr
  · exact h.stands_task hc hs
  · exact h.stands_answered hm

theorem Broker.Inv.offer_once (h : s.Inv) {m : Nat} {b : Acceptance} (ha : s.acceptances[n]? = some a)
    (hb : s.acceptances[m]? = some b) (hid : a.offer.offerId = b.offer.offerId) : n = m := by
  have hdistinct := h.spent.distinct
  rw [List.map_append, List.map_map] at hdistinct
  have hnodup := (List.nodup_append.1 hdistinct).1
  have hlt : n < (s.acceptances.map (TaskOffer.offerId ∘ Acceptance.offer)).length := by
    rw [List.length_map]
    exact (List.getElem?_eq_some_iff.1 ha).1
  refine (List.getElem?_inj hlt hnodup).1 ?_
  rw [List.getElem?_map, List.getElem?_map, ha, hb]
  exact congrArg some hid

theorem holds_or (h : a.phase.holds = true) : a.RequesterTimerLive ∨ a.InHand := by
  cases hanswer : a.requesterAnswer with
  | some answer => exact .inr ⟨h, .inr (by rw [hanswer]; rfl)⟩
  | none =>
    refine .inl ⟨?_, hanswer⟩
    cases hp : a.phase with
    | announcing | awaitingRequester | arming => rfl
    | offering | awaitingRunner | releasing | sendingSettings | dropped | done =>
      rw [hp] at h
      exact nomatch h

theorem Broker.Inv.task_ends (h : s.Inv) {t : Task} (ht : t ∈ s.tasks) : t.timeout = .armed ∨
    (∃ a : Acceptance, s.acceptances[t.id]? = some a ∧ (a.RequesterTimerLive ∨ a.InHand)) ∨ s.TimedOut t := by
  cases htimeout : t.timeout with
  | armed => exact .inl rfl
  | fired => exact .inr (.inr ⟨htimeout, h.tracked.fired t ht htimeout⟩)
  | unset =>
    obtain ⟨phase, hphase, -, hholds⟩ := h.tracked.taken t ht
    rw [List.getElem?_map] at hphase
    obtain ⟨a, ha, rfl⟩ := Option.map_eq_some_iff.1 hphase
    exact .inr (.inl ⟨a, ha, holds_or (hholds htimeout)⟩)

theorem Broker.Inv.servesOnce (h : s.Inv) : s.ServesOnce where
  requests _ hid := h.stands hid
  answers := h.ledger.answered
  results := h.tracked.settled
  offers _ _ _ _ ha hb hid := h.offer_once ha hb hid
  tasks _ ht := h.task_ends ht

/-- While no message that cancels a task whose timer fired fails, each request and each offer is served at most once and
each task will be untracked, in every order of events. -/
theorem serves_once (h : (taskBroker mode).Reachable (fun s a => s.Distinct a ∧ s.Cancels mode a) s) :
    s.ServesOnce := (inv_of_reachable h).servesOnce

def armedTask : List BrokerAction :=
  [.registerRequester "node" .returned, .onRequesterMessage "node" (.taskrequest "q1" "javascript"),
    .onRunnerMessage "r" (.taskoffer "o1" "javascript" (-1)), .resume 0, .onRunnerMessage "r" (.taskaccepted 0),
    .resume 0, .resume 0, .onRequesterMessage "node" (.tasksettings 0), .resume 0, .resume 0, .resume 0]

/-- One task times out, one request expires, and one waits for its requester. -/
theorem serves_once_external : ∃ s,
    (taskBroker .external).Reachable (fun s a => s.Distinct a ∧ s.Cancels .external a) s ∧
    s.requestIds = ["q1", "q2", "q3"] ∧ s.tasks.map Task.id = [1] ∧ s.ServesOnce := by
  have h : ((taskBroker .external).run (fun s a => s.Distinct a ∧ s.Cancels .external a) idleBroker
      (.registerRunner "r" ⟨true, .returned⟩ :: armedTask ++
        [.registerRunner "r" ⟨true, .pending⟩, .taskTimer 0,
          .onRequesterMessage "node" (.taskrequest "q2" "python"), .timeoutComesBack 0 .returned, .resumeTimeout 0,
          .requestTimer "q2", .onRequesterMessage "node" (.taskrequest "q3" "python"),
          .onRunnerMessage "r" (.taskoffer "o2" "python" 5000), .comesBack 1 .returned, .resume 1,
          .onRunnerMessage "r" (.taskaccepted 1), .resume 1])).any (fun s =>
      s.requestIds = ["q1", "q2", "q3"] ∧ s.tasks.map Task.id = [1]) = true := by decide +kernel
  obtain ⟨s, hs, h⟩ := (Option.any_eq_true _ _).1 h
  obtain ⟨h₁, h₂⟩ := of_decide_eq_true h
  have hr : (taskBroker .external).Reachable (fun s a => s.Distinct a ∧ s.Cancels .external a) s :=
    ⟨idleBroker, idleBroker_initial, (TransitionSystem.run_leads hs).mono fun _ _ => of_decide_eq_true⟩
  exact ⟨s, hr, h₁, h₂, serves_once hr⟩

/-- The message that cancels the timed out task fails, and the task stays. -/
theorem task_stays : ∃ s, (taskBroker .external).Reachable Broker.Distinct s ∧ ¬ s.ServesOnce := by
  have h : ((taskBroker .external).run (fun s a => s.Distinct a) idleBroker
      (.registerRunner "r" ⟨true, .returned⟩ :: armedTask ++
        [.registerRunner "r" ⟨true, .threw⟩, .taskTimer 0, .resumeTimeout 0])).any (fun s =>
      (∃ t ∈ s.tasks, t.timeout = .fired ∧ (s.acceptances[t.id]?.map Acceptance.phase) = some .done) ∧
        s.timeoutHandlers = []) = true := by decide +kernel
  obtain ⟨s, hs, h⟩ := (Option.any_eq_true _ _).1 h
  obtain ⟨⟨t, ht, hfired, hdone⟩, hnone⟩ := of_decide_eq_true h
  have hr : (taskBroker .external).Reachable Broker.Distinct s :=
    ⟨idleBroker, idleBroker_initial, (TransitionSystem.run_leads hs).mono fun _ _ => of_decide_eq_true⟩
  refine ⟨s, hr, fun hserves => ?_⟩
  rcases hserves.tasks t ht with harmed | ⟨a, ha, hwaits⟩ | ⟨-, x, hx, -⟩
  · exact nomatch hfired.symm.trans harmed
  · rw [ha, Option.map_some, Option.some.injEq] at hdone
    rcases hwaits with ⟨hlive, -⟩ | ⟨hholds, -⟩
    · rw [hdone] at hlive
      exact nomatch hlive
    · rw [hdone] at hholds
      exact nomatch hholds
  · rw [hnone] at hx
    exact absurd hx List.not_mem_nil

end N8n.TaskBroker
