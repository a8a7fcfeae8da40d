import N8n.TaskBroker.Broker
import Mathlib.Data.List.Basic

namespace N8n.TaskBroker

variable {s : Broker}

def Acceptance.unanswered (a : Acceptance) : Acceptance := { a with runnerAnswer := none, requesterAnswer := none }

theorem getElem?_set_some {α : Type} {l : List α} {n m : Nat} {x y : α} (h : (l.set n x)[m]? = some y) :
    (m = n ∧ y = x) ∨ (m ≠ n ∧ l[m]? = some y) := by
  rw [List.getElem?_set] at h
  split_ifs at h with hnm hlen
  · exact .inl ⟨hnm.symm, (Option.some.inj h).symm⟩
  · exact .inr ⟨fun he => hnm he.symm, h⟩

theorem map_modify_same {α β : Type} {f : α → β} {g : α → α} (hfg : ∀ a, f (g a) = f a) (l : List α) (n : Nat) :
    (l.modify n g).map f = l.map f := by
  apply List.ext_getElem?
  intro k
  rw [List.getElem?_map, List.getElem?_map, List.getElem?_modify]
  cases l[k]? with
  | none => rfl
  | some a =>
    by_cases hk : n = k
    · simp [hk, hfg]
    · simp [hk]

theorem map_set_same {α β : Type} {f : α → β} {l : List α} {n : Nat} {a b : α} (ha : l[n]? = some a)
    (hf : f b = f a) : (l.set n b).map f = l.map f := by
  apply List.ext_getElem?
  intro k
  rw [List.getElem?_map, List.getElem?_map]
  by_cases hk : n = k
  · subst hk
    rw [List.getElem?_set_self (List.getElem?_eq_some_iff.1 ha).1, ha, Option.map_some, Option.map_some, hf]
  · rw [List.getElem?_set_ne hk]

theorem cancelTask_effect (s : Broker) (taskId : Nat) :
    (s.task? taskId = none ∧ s.cancelTask taskId = s) ∨
    ∃ task, s.task? taskId = some task ∧ s.cancelTask taskId =
      { s with
        tasks := s.tasks.filter fun t => t.id ≠ taskId
        messages := s.messages ++ [.runner task.runnerId (.taskcancel taskId)] } := by
  rw [Broker.cancelTask]
  cases h : s.task? taskId with
  | none => exact .inl ⟨rfl, rfl⟩
  | some task => exact .inr ⟨task, rfl, rfl⟩

theorem endTask_effect (message : Nat → ToRequester) (s : Broker) (taskId : Nat) :
    (s.task? taskId = none ∧ s.endTask message taskId = s) ∨
    ∃ task, s.task? taskId = some task ∧ s.endTask message taskId =
      { s with
        tasks := s.tasks.filter fun t => t.id ≠ taskId
        messages := s.messages ++ [.requester task.requesterId (message taskId)] } := by
  rw [Broker.endTask]
  cases h : s.task? taskId with
  | none => exact .inl ⟨rfl, rfl⟩
  | some task => exact .inr ⟨task, rfl, rfl⟩

theorem failTasks_effect (s : Broker) (taskIds : List Nat) :
    ∃ tasks messages, s.failTasks taskIds = { s with tasks, messages } := by
  induction taskIds generalizing s with
  | nil => exact ⟨s.tasks, s.messages, rfl⟩
  | cons taskId rest ih =>
    obtain ⟨tasks, messages, h⟩ := ih (s.failTask taskId)
    refine ⟨tasks, messages, h.trans ?_⟩
    rcases endTask_effect .taskerror s taskId with ⟨-, he⟩ | ⟨task, -, he⟩
    · rw [Broker.failTask, he]
    · rw [Broker.failTask, he]

theorem getRunnerOrFailTask_effect (s : Broker) (taskId : Nat) :
    s.getRunnerOrFailTask taskId = (s, true) ∨ s.getRunnerOrFailTask taskId = (s.failTask taskId, false) := by
  rw [Broker.getRunnerOrFailTask]
  cases htask : s.task? taskId with
  | none =>
    have hsame : s.failTask taskId = s := by rw [Broker.failTask, Broker.endTask, htask]
    rw [hsame]
    exact .inr rfl
  | some task =>
    dsimp only
    cases s.knownRunners task.runnerId with
    | none => exact .inr rfl
    | some runner =>
      dsimp only
      split_ifs
      · exact .inl rfl
      · exact .inr rfl

theorem handleRunnerAnswer_effect (answer : RunnerAnswer) (s : Broker) (taskId : Nat) :
    ∃ acceptances runnerAcceptRejects,
      acceptances.map Acceptance.unanswered = s.acceptances.map Acceptance.unanswered ∧
      s.handleRunnerAnswer answer taskId = { s with acceptances, runnerAcceptRejects } := by
  rw [Broker.handleRunnerAnswer]
  split_ifs
  · refine ⟨_, _, ?_, rfl⟩
    apply map_modify_same
    intro a
    rfl
  · exact ⟨_, _, rfl, rfl⟩

theorem handleRequesterAnswer_effect (answer : RequesterAnswer) (s : Broker) (taskId : Nat) :
    ∃ acceptances requesterAcceptRejects,
      acceptances.map Acceptance.unanswered = s.acceptances.map Acceptance.unanswered ∧
      s.handleRequesterAnswer answer taskId = { s with acceptances, requesterAcceptRejects } := by
  rw [Broker.handleRequesterAnswer]
  split_ifs
  · refine ⟨_, _, ?_, rfl⟩
    apply map_modify_same
    intro a
    rfl
  · exact ⟨_, _, rfl, rfl⟩

theorem handleRunnerReject_all (s : Broker) (taskIds : List Nat) :
    ∃ acceptances runnerAcceptRejects,
      acceptances.map Acceptance.unanswered = s.acceptances.map Acceptance.unanswered ∧
      taskIds.foldl Broker.handleRunnerReject s = { s with acceptances, runnerAcceptRejects } := by
  induction taskIds generalizing s with
  | nil => exact ⟨_, _, rfl, rfl⟩
  | cons taskId rest ih =>
    obtain ⟨acceptances, rejects, hsame, h⟩ := handleRunnerAnswer_effect .rejected s taskId
    obtain ⟨acceptances', rejects', hsame', h'⟩ := ih (s.handleRunnerReject taskId)
    rw [Broker.handleRunnerReject, h] at hsame'
    refine ⟨acceptances', rejects', hsame'.trans hsame, h'.trans ?_⟩
    rw [Broker.handleRunnerReject, h]

theorem deregisterRunner_effect (s : Broker) (runnerId : String) :
    ∃ acceptances runnerAcceptRejects,
      acceptances.map Acceptance.unanswered = s.acceptances.map Acceptance.unanswered ∧
      s.deregisterRunner runnerId = Broker.failTasks
        { s with
          knownRunners := fun id => if id = runnerId then none else s.knownRunners id
          pendingTaskOffers := s.pendingTaskOffers.filter fun o => !decide (o.runnerId = runnerId)
          acceptances, runnerAcceptRejects } (s.getInFlightTaskIds runnerId) := by
  obtain ⟨acceptances, rejects, hsame, h⟩ := handleRunnerReject_all
    (Broker.discardOffersFrom
      { s with knownRunners := fun id => if id = runnerId then none else s.knownRunners id } runnerId)
    ((s.runnerAcceptRejects.filter fun p => p.2 = runnerId).map Prod.fst)
  refine ⟨acceptances, rejects, hsame, ?_⟩
  exact congrArg (fun s' : Broker => s'.failTasks (s'.getInFlightTaskIds runnerId)) h

theorem assign_requests (requests : List TaskRequest) (offers : List TaskOffer) :
    (assign requests offers).1.map Prod.fst = requests := by
  induction requests generalizing offers with
  | nil => rfl
  | cons r rest ih =>
    rw [assign]
    split_ifs
    · rw [List.map_cons, ih]
    · cases offers.find? fun o => decide (o.taskType = r.taskType) with
      | none => exact congrArg (r :: ·) (ih offers)
      | some o => exact congrArg (r :: ·) (ih _)

theorem assign_offers (requests : List TaskRequest) (offers : List TaskOffer) :
    (((assign requests offers).1.filterMap Prod.snd) ++ (assign requests offers).2).Perm offers := by
  induction requests generalizing offers with
  | nil => exact List.Perm.refl _
  | cons r rest ih =>
    rw [assign]
    split_ifs
    · exact ih offers
    · cases hfind : offers.find? fun o => decide (o.taskType = r.taskType) with
      | none => exact ih offers
      | some o =>
        have hperm : (o :: offers.eraseP fun o => decide (o.taskType = r.taskType)).Perm offers := by
          obtain ⟨htype, before, after, rfl, hbefore⟩ := List.find?_eq_some_iff_append.1 hfind
          have herase : (o :: after).eraseP (fun o => decide (o.taskType = r.taskType)) = after :=
            List.eraseP_cons_of_pos htype
          rw [List.eraseP_append_right _ (by simpa using hbefore), herase]
          exact List.perm_middle.symm
        exact ((ih _).cons o).trans hperm

theorem assign_unmatched {requests : List TaskRequest} {offers : List TaskOffer} {p : TaskRequest × Option TaskOffer}
    (hp : p ∈ (assign requests offers).1) (hidle : (marked p).acceptInProgress = false) :
    ∀ o ∈ (assign requests offers).2, o.taskType ≠ p.1.taskType := by
  induction requests generalizing offers with
  | nil => exact absurd hp List.not_mem_nil
  | cons r rest ih =>
    rw [assign] at hp ⊢
    split_ifs at hp ⊢ with hprog
    · rcases List.mem_cons.1 hp with rfl | hp
      · exact absurd (hprog.symm.trans hidle) Bool.noConfusion
      · exact ih hp
    · cases hfind : offers.find? fun o => decide (o.taskType = r.taskType) with
      | none =>
        rw [hfind] at hp
        rcases List.mem_cons.1 hp with rfl | hp
        · intro o ho
          have hmem := (assign_offers rest offers).subset (List.mem_append_right _ ho)
          simpa using List.find?_eq_none.1 hfind o hmem
        · exact ih hp
      | some o =>
        rw [hfind] at hp
        rcases List.mem_cons.1 hp with rfl | hp
        · exact nomatch hidle
        · exact ih hp

theorem assign_idle {requests : List TaskRequest} {offers : List TaskOffer} {p : TaskRequest × Option TaskOffer}
    (hp : p ∈ (assign requests offers).1) (hsome : p.2.isSome = true) : p.1.acceptInProgress = false := by
  induction requests generalizing offers with
  | nil => exact absurd hp List.not_mem_nil
  | cons r rest ih =>
    rw [assign] at hp
    split_ifs at hp with hprog
    · rcases List.mem_cons.1 hp with rfl | hp
      · exact nomatch hsome
      · exact ih hp
    · cases hfind : offers.find? fun o => decide (o.taskType = r.taskType) with
      | none =>
        rw [hfind] at hp
        rcases List.mem_cons.1 hp with rfl | hp
        · exact nomatch hsome
        · exact ih hp
      | some o =>
        rw [hfind] at hp
        rcases List.mem_cons.1 hp with rfl | hp
        · exact (Bool.not_eq_true _).mp hprog
        · exact ih hp

namespace Broker

def usableOffers (s : Broker) : List TaskOffer := s.expireTasks.discardOffersFromUnreachableRunners.pendingTaskOffers

def matching (s : Broker) : List (TaskRequest × Option TaskOffer) := (assign s.pendingTaskRequests s.usableOffers).1

/-- The call of `acceptOffer` for a match. -/
def offered (s : Broker) (p : TaskOffer × TaskRequest) : Acceptance :=
  ⟨p.1, p.2, .offering (s.runnerDelivery p.1.runnerId), none, none⟩

end Broker

def Message.toRunner : Message → Bool
  | .runner _ _ => true
  | .requester _ _ => false

theorem foldl_acceptOffer (pairs : List (TaskOffer × TaskRequest)) (s : Broker) :
    ∃ rejects messages, (∀ m ∈ messages, Message.toRunner m = true) ∧
      pairs.foldl (fun s p => s.acceptOffer p.1 p.2) s =
        { s with
          runnerAcceptRejects := s.runnerAcceptRejects ++ rejects
          acceptances := s.acceptances ++ pairs.map s.offered
          messages := s.messages ++ messages } := by
  induction pairs generalizing s with
  | nil => exact ⟨[], [], fun _ hm => absurd hm List.not_mem_nil, by simp⟩
  | cons p rest ih =>
    obtain ⟨rejects, messages, hto, h⟩ := ih (s.acceptOffer p.1 p.2)
    refine ⟨(s.acceptances.length, p.1.runnerId) :: rejects,
      .runner p.1.runnerId (.taskofferaccept p.1.offerId s.acceptances.length) :: messages, ?_, h.trans ?_⟩
    · intro m hm
      rcases List.mem_cons.1 hm with rfl | hm
      · rfl
      · exact hto m hm
    · have hoffered : (s.acceptOffer p.1 p.2).offered = s.offered := rfl
      rw [hoffered]
      simp only [Broker.acceptOffer, List.append_assoc, List.singleton_append, List.map_cons]
      rfl

theorem settleTasks_effect (s : Broker) :
    ∃ rejects messages, (∀ m ∈ messages, Message.toRunner m = true) ∧
      s.settleTasks =
        { s with
          pendingTaskRequests := s.matching.map marked
          pendingTaskOffers := (assign s.pendingTaskRequests s.usableOffers).2
          runnerAcceptRejects := s.runnerAcceptRejects ++ rejects
          acceptances := s.acceptances ++ (s.matching.filterMap matched).map s.offered
          messages := s.messages ++ messages } := by
  obtain ⟨rejects, messages, hto, h⟩ := foldl_acceptOffer (s.matching.filterMap matched)
    { s.expireTasks.discardOffersFromUnreachableRunners with
      pendingTaskRequests := s.matching.map marked
      pendingTaskOffers := (assign s.pendingTaskRequests s.usableOffers).2 }
  exact ⟨rejects, messages, hto, h⟩

/-- What a call of `acceptOffer` does when it goes on, by where it was suspended and what it was answered. -/
inductive Broker.Resumes (s : Broker) (n : Nat) (a : Acceptance) : Broker → Prop
  | offerSent (h : a.phase = .offering .returned) : Resumes s n a (s.setPhase n a .awaitingRunner)
  | offerFailed (h : a.phase = .offering .threw) : Resumes s n a ((s.setPhase n a .dropped).giveBack a.request)
  | accepted (h : a.phase = .awaitingRunner) (ha : a.runnerAnswer = some .accepted) :
      Resumes s n a (s.runnerAccepted n a)
  | rejected (h : a.phase = .awaitingRunner) (ha : a.runnerAnswer = some .rejected) :
      Resumes s n a ((s.setPhase n a .dropped).giveBack a.request).settleTasks
  | deferred (h : a.phase = .awaitingRunner) (ha : a.runnerAnswer = some .deferred) :
      Resumes s n a (((s.setPhase n a .dropped).giveBack a.request).refreshRequestTimeout a.request)
  | timedOut (h : a.phase = .awaitingRunner) (ha : a.runnerAnswer = some .timedOut) :
      Resumes s n a (s.runnerTimedOut n a)
  | released (h : a.phase = .releasing .returned) :
      Resumes s n a ((s.setPhase n a .dropped).discardOffersFrom a.offer.runnerId).settleTasks
  | releaseFailed (h : a.phase = .releasing .threw) : Resumes s n a (s.setPhase n a .dropped)
  | announced (h : a.phase = .announcing .returned) : Resumes s n a (s.setPhase n a .awaitingRequester)
  | announceFailed (h : a.phase = .announcing .threw) : Resumes s n a (s.endWithCancel n a)
  | settings (h : a.phase = .awaitingRequester) (ha : a.requesterAnswer = some .settings) :
      Resumes s n a (s.findRunner n a)
  | refused (h : a.phase = .awaitingRequester) (ha : a.requesterAnswer = some .rejected) :
      Resumes s n a (s.endWithCancel n a)
  | unanswered (h : a.phase = .awaitingRequester) (ha : a.requesterAnswer = some .timedOut) :
      Resumes s n a (Broker.endWithCancel
        { s with requesterAcceptRejects := s.requesterAcceptRejects.filter fun t => t ≠ n } n a)
  | armed (h : a.phase = .arming) : Resumes s n a (s.sendTaskSettings n a)
  | settingsSent (h : a.phase = .sendingSettings .returned) : Resumes s n a (s.setPhase n a .done)
  | settingsFailed (h : a.phase = .sendingSettings .threw) : Resumes s n a (s.endWithCancel n a)

theorem resume_cases {n : Nat} {a : Acceptance} {s' : Broker} (h : s.resume n a = some s') : s.Resumes n a s' := by
  rw [Broker.resume] at h
  split at h
  case h_17 => cases h
  all_goals
    rw [Option.some.injEq] at h
    subst h
  · next hp => exact .offerSent hp
  · next hp => exact .offerFailed hp
  · next hp ha => exact .accepted hp ha
  · next hp ha => exact .rejected hp ha
  · next hp ha => exact .deferred hp ha
  · next hp ha => exact .timedOut hp ha
  · next hp => exact .released hp
  · next hp => exact .releaseFailed hp
  · next hp => exact .announced hp
  · next hp => exact .announceFailed hp
  · next hp ha => exact .settings hp ha
  · next hp ha => exact .refused hp ha
  · next hp ha => exact .unanswered hp ha
  · next hp => exact .armed hp
  · next hp => exact .settingsSent hp
  · next hp => exact .settingsFailed hp

@[grind =] def refreshed (pending : Bool) (ref : Nat) (r : TaskRequest) : TaskRequest :=
  if pending = true ∧ r.ref = ref ∧ r.timeoutRefreshes < maxRequestTimeoutRefreshes then
    { r with timeoutRefreshes := r.timeoutRefreshes + 1 }
  else r

theorem refreshed_keeps (pending : Bool) (ref : Nat) (r : TaskRequest) :
    (refreshed pending ref r).ref = r.ref ∧ (refreshed pending ref r).requestId = r.requestId ∧
    (refreshed pending ref r).taskType = r.taskType ∧
    (refreshed pending ref r).acceptInProgress = r.acceptInProgress := by
  rw [refreshed]
  split_ifs <;> exact ⟨rfl, rfl, rfl, rfl⟩

theorem refreshRequestTimeout_eq (s : Broker) (request : TaskRequest) :
    s.refreshRequestTimeout request =
      { s with
        pendingTaskRequests := s.pendingTaskRequests.map (refreshed (s.isPending request.requestId) request.ref) } := by
  rw [Broker.refreshRequestTimeout]
  by_cases hp : s.isPending request.requestId = true
  · rw [if_pos hp, hp]
    refine congrArg (fun l => { s with pendingTaskRequests := l }) (List.map_congr_left fun r _ => ?_)
    by_cases href : r.ref = request.ref
    · simp [refreshed, href]
    · simp [refreshed, href]
  · have hfalse : refreshed (s.isPending request.requestId) request.ref = id := by
      funext r
      simp [refreshed, hp]
    rw [if_neg hp, hfalse, List.map_id]

theorem runnerTimedOut_eq (s : Broker) (n : Nat) (a : Acceptance) :
    s.runnerTimedOut n a =
      (Broker.refreshRequestTimeout
        { (s.setPhase n a (.releasing (s.runnerDelivery a.offer.runnerId))).giveBack a.request with
          runnerAcceptRejects := s.runnerAcceptRejects.filter fun p => p.1 ≠ n } a.request).send
        (.runner a.offer.runnerId (.taskcancel n)) := by
  rw [Broker.runnerTimedOut, refreshRequestTimeout_eq, refreshRequestTimeout_eq]
  rfl

end N8n.TaskBroker
