import N8n.TaskRequester.Requester

namespace N8n.TaskRequester

open N8n.Lib

variable {i : Nat}

namespace RequesterState

variable {σ δ ξ : Type} {s s' : RequesterState σ δ ξ}

def AnsweredBy (s : RequesterState σ δ ξ) (i : Nat) (taskId : String) : TaskAnswer δ ξ → Prop
  | .accept data => [.taskReady i taskId, .taskDone taskId data].Sublist s.received
  | .reject (.error error) => [.taskReady i taskId, .taskError taskId error].Sublist s.received
  | .reject (.cancelled reason) => .taskReady i taskId ∈ s.received ∧ .taskCancel taskId reason ∈ s.sent

def Own (s : RequesterState σ δ ξ) (i : Nat) : Settlement δ ξ → Prop
  | .requestTimedOut => .requestExpired i ∈ s.received
  | .result taskId answer => s.AnsweredBy i taskId answer

def Origin (s : RequesterState σ δ ξ) (i : Nat) : CallPhase δ ξ → Prop
  | .requested => True
  | .accepted taskId | .running taskId => .taskReady i taskId ∈ s.received
  | .expired => .requestExpired i ∈ s.received
  | .answered taskId answer => s.AnsweredBy i taskId answer
  | .settled settlement => s.Own i settlement

def Live (s : RequesterState σ δ ξ) (taskId : String) : Prop := ∃ call ∈ s.calls, call.phase.task? = some taskId

def liveCalls (s : RequesterState σ δ ξ) (taskId : String) : Nat :=
  s.calls.countP fun call => call.phase.task? = some taskId

structure Inv (s : RequesterState σ δ ξ) : Prop where
  requests : ∀ i ∈ s.requestAcceptRejects, ∃ call, s.calls[i]? = some call ∧ call.phase = .requested
  handlers : ∀ taskId i, s.taskAcceptRejects.get? taskId = some i →
    ∃ call, s.calls[i]? = some call ∧ call.phase = .running taskId
  tasks : ∀ taskId i, s.tasks.get? taskId = some i →
    ∃ call, s.calls[i]? = some call ∧ call.phase.task? = some taskId
  executions : ∀ taskId, executionsOf taskId s.executionIdsToTaskIds ≤ s.liveCalls taskId
  noneEmpty : NoneEmpty s.executionIdsToTaskIds
  settled : ∀ p ∈ s.settlements, ∃ call, s.calls[p.1]? = some call ∧ call.phase = .settled p.2
  once : (s.settlements.map Prod.fst).Nodup
  origins : ∀ i call, s.calls[i]? = some call → s.Origin i call.phase

theorem AnsweredBy.mono {taskId : String} {answer : TaskAnswer δ ξ} (h : s.AnsweredBy i taskId answer)
    (hr : s.received.Sublist s'.received) (hs : s.sent.Sublist s'.sent) : s'.AnsweredBy i taskId answer := by
  match answer, h with
  | .accept _, h => exact h.trans hr
  | .reject (.error _), h => exact h.trans hr
  | .reject (.cancelled _), ⟨hready, hcancel⟩ => exact ⟨hr.subset hready, hs.subset hcancel⟩

theorem Own.mono {settlement : Settlement δ ξ} (h : s.Own i settlement)
    (hr : s.received.Sublist s'.received) (hs : s.sent.Sublist s'.sent) : s'.Own i settlement := by
  cases settlement with
  | requestTimedOut => exact hr.subset h
  | result taskId answer => exact AnsweredBy.mono h hr hs

theorem Origin.mono {phase : CallPhase δ ξ} (h : s.Origin i phase)
    (hr : s.received.Sublist s'.received) (hs : s.sent.Sublist s'.sent) : s'.Origin i phase := by
  cases phase with
  | requested => trivial
  | accepted taskId => exact hr.subset h
  | running taskId => exact hr.subset h
  | expired => exact hr.subset h
  | answered taskId answer => exact AnsweredBy.mono h hr hs
  | settled settlement => exact Own.mono h hr hs

theorem setPhase_calls (i j : Nat) (f : CallPhase δ ξ → CallPhase δ ξ) :
    (s.setPhase i f).calls[j]? =
      if i = j then (s.calls[j]?).map fun call => { call with phase := f call.phase } else s.calls[j]? := by
  rw [setPhase, List.getElem?_modify]
  split
  · rfl
  · exact id_map _

theorem setPhase_self {f : CallPhase δ ξ → CallPhase δ ξ} {call : Call σ δ ξ}
    (h : s.calls[i]? = some call) : (s.setPhase i f).calls[i]? = some { call with phase := f call.phase } := by
  rw [setPhase_calls, if_pos rfl, h]
  rfl

theorem setPhase_cases {j : Nat} {f : CallPhase δ ξ → CallPhase δ ξ} {call call' : Call σ δ ξ}
    (hi : s.calls[i]? = some call) (h : (s.setPhase i f).calls[j]? = some call') :
    s.calls[j]? = some call' ∨ j = i ∧ call' = { call with phase := f call.phase } := by
  rw [setPhase_calls] at h
  split at h
  · next hij =>
    subst hij
    rw [hi] at h
    exact .inr ⟨rfl, (Option.some.inj h).symm⟩
  · exact .inl h

theorem setPhase_keeps {j : Nat} {f : CallPhase δ ξ → CallPhase δ ξ} {call : Call σ δ ξ} {P : CallPhase δ ξ → Prop}
    (hi : s.calls[i]? = some call) (hP : i = j → P call.phase → P (f call.phase))
    (h : ∃ call, s.calls[j]? = some call ∧ P call.phase) :
    ∃ call, (s.setPhase i f).calls[j]? = some call ∧ P call.phase := by
  obtain ⟨other, hj, hp⟩ := h
  by_cases hij : i = j
  · subst hij
    obtain rfl := Option.some.inj (hi.symm.trans hj)
    exact ⟨_, setPhase_self hi, hP rfl hp⟩
  · refine ⟨other, ?_, hp⟩
    rw [setPhase_calls, if_neg hij, hj]

theorem setPhase_liveCalls {f : CallPhase δ ξ → CallPhase δ ξ} {call : Call σ δ ξ}
    (h : s.calls[i]? = some call) (taskId : String) :
    (s.setPhase i f).liveCalls taskId + (if call.phase.task? = some taskId then 1 else 0) =
      s.liveCalls taskId + (if (f call.phase).task? = some taskId then 1 else 0) := by
  have hcount := countP_modify (fun call : Call σ δ ξ => decide (call.phase.task? = some taskId))
    (fun call => { call with phase := f call.phase }) h
  simp only [decide_eq_true_eq] at hcount
  exact hcount

theorem setPhase_origins {f : CallPhase δ ξ → CallPhase δ ξ} {call : Call σ δ ξ}
    (hi : s.calls[i]? = some call) (h : ∀ j call, s.calls[j]? = some call → s.Origin j call.phase)
    (hf : s.Origin i (f call.phase)) (j : Nat) (call' : Call σ δ ξ) (hj : (s.setPhase i f).calls[j]? = some call') :
    (s.setPhase i f).Origin j call'.phase := by
  obtain hj | ⟨rfl, rfl⟩ := setPhase_cases hi hj
  · exact (h j call' hj).mono (.refl _) (.refl _)
  · exact hf.mono (.refl _) (.refl _)

theorem Inv.send (h : s.Inv) (message : RequesterMessage σ) : (s.send message).Inv :=
  ⟨h.requests, h.handlers, h.tasks, h.executions, h.noneEmpty, h.settled, h.once,
    fun i call hi => (h.origins i call hi).mono (.refl _) (List.sublist_append_left _ _)⟩

theorem Inv.receive (h : s.Inv) (message : BrokerMessage δ ξ) : (s.receive message).Inv :=
  ⟨h.requests, h.handlers, h.tasks, h.executions, h.noneEmpty, h.settled, h.once,
    fun i call hi => (h.origins i call hi).mono (List.sublist_append_left _ _) (.refl _)⟩

/-- One call moves to another phase, and the maps forget it or follow it. -/
theorem Inv.moved (h : s.Inv) {t : RequesterState σ δ ξ} {call : Call σ δ ξ} {f : CallPhase δ ξ → CallPhase δ ξ}
    (hi : s.calls[i]? = some call) (hcalls : t.calls = s.calls) (hopen : call.phase.isSettled = false)
    (hrequests : ∀ j ∈ t.requestAcceptRejects, j ∈ s.requestAcceptRejects ∧ (i = j → call.phase ≠ .requested))
    (hhandlers : ∀ taskId j, t.taskAcceptRejects.get? taskId = some j → i = j ∧ f call.phase = .running taskId ∨
      s.taskAcceptRejects.get? taskId = some j ∧ call.phase ≠ .running taskId)
    (htasks : ∀ taskId j, t.tasks.get? taskId = some j → i = j ∧ (f call.phase).task? = some taskId ∨
      s.tasks.get? taskId = some j ∧ (call.phase.task? = some taskId → (f call.phase).task? = some taskId))
    (hexecutions : ∀ taskId, executionsOf taskId t.executionIdsToTaskIds ≤ executionsOf taskId s.executionIdsToTaskIds -
      (if call.phase.task? = some taskId then 1 else 0) + if (f call.phase).task? = some taskId then 1 else 0)
    (hnone : NoneEmpty t.executionIdsToTaskIds)
    (hsettled : t.settlements = s.settlements ∨
      ∃ settlement, f call.phase = .settled settlement ∧ t.settlements = s.settlements ++ [(i, settlement)])
    (hr : s.received.Sublist t.received) (hs : s.sent.Sublist t.sent) (horigin : t.Origin i (f call.phase)) :
    (t.setPhase i f).Inv := by
  have hi' : t.calls[i]? = some call := hcalls ▸ hi
  have hself := setPhase_self (f := f) hi'
  have hold : ∀ p ∈ s.settlements, i ≠ p.1 ∧
      ∃ call, (t.setPhase i f).calls[p.1]? = some call ∧ call.phase = .settled p.2 := by
    intro p hm
    obtain ⟨other, hother, hphase⟩ := h.settled p hm
    have hne : i ≠ p.1 := by
      rintro rfl
      obtain rfl := Option.some.inj (hi.symm.trans hother)
      rw [hphase] at hopen
      cases hopen
    exact ⟨hne, setPhase_keeps hi' (P := (· = .settled p.2)) (fun he => absurd he hne) ⟨other, hcalls ▸ hother, hphase⟩⟩
  constructor
  · intro j hj
    obtain ⟨hj, hne⟩ := hrequests j hj
    exact setPhase_keeps hi' (P := (· = .requested)) (fun he hp => absurd hp (hne he)) (hcalls ▸ h.requests j hj)
  · intro taskId j hg
    obtain ⟨rfl, hrun⟩ | ⟨hg, hne⟩ := hhandlers taskId j hg
    · exact ⟨_, hself, hrun⟩
    · exact setPhase_keeps hi' (P := (· = .running taskId)) (fun _ hp => absurd hp hne)
        (hcalls ▸ h.handlers taskId j hg)
  · intro taskId j hg
    obtain ⟨rfl, htask⟩ | ⟨hg, hkeep⟩ := htasks taskId j hg
    · exact ⟨_, hself, htask⟩
    · exact setPhase_keeps hi' (P := fun phase => phase.task? = some taskId) (fun _ => hkeep)
        (hcalls ▸ h.tasks taskId j hg)
  · intro taskId
    have hlive : t.liveCalls taskId = s.liveCalls taskId := congrArg (List.countP _) hcalls
    have hmoved := setPhase_liveCalls (f := f) hi' taskId
    have hcounted := setPhase_liveCalls (f := fun _ => .requested) hi' taskId
    rw [if_neg (show ¬ (CallPhase.requested : CallPhase δ ξ).task? = some taskId by nofun)] at hcounted
    have hbound := h.executions taskId
    have hnew := hexecutions taskId
    change executionsOf taskId t.executionIdsToTaskIds ≤ _
    omega
  · exact hnone
  · intro p hm
    obtain hsame | ⟨settlement, hphase, hadd⟩ := hsettled
    · exact (hold p (hsame ▸ hm)).2
    · obtain hm | hm := List.mem_append.1 (hadd ▸ hm : p ∈ s.settlements ++ [(i, settlement)])
      · exact (hold p hm).2
      · obtain rfl := List.mem_singleton.1 hm
        exact ⟨_, hself, hphase⟩
  · change (t.settlements.map Prod.fst).Nodup
    obtain hsame | ⟨settlement, -, hadd⟩ := hsettled
    · exact hsame ▸ h.once
    · rw [hadd, List.map_append]
      refine h.once.append (List.nodup_singleton i) (List.disjoint_singleton.2 fun hm => ?_)
      obtain ⟨p, hp, rfl⟩ := List.mem_map.1 hm
      exact (hold p hp).1 rfl
  · exact setPhase_origins hi' (fun j call hj => (h.origins j call (hcalls ▸ hj)).mono hr hs) horigin

theorem Inv.releaseRequest (h : s.Inv) {r : Nat} (hr : r ∈ s.requestAcceptRejects) {f : CallPhase δ ξ → CallPhase δ ξ}
    (htask : (f .requested).task? = none) (hown : s.Origin r (f .requested)) :
    ({ s with requestAcceptRejects := s.requestAcceptRejects.erase r }.setPhase r f).Inv := by
  obtain ⟨⟨_, _, _, _, _⟩, hi, rfl⟩ := h.requests r hr
  refine h.moved hi rfl rfl (fun j hj => ?_) (fun _ _ hg => .inr ⟨hg, nofun⟩) (fun _ _ hg => .inr ⟨hg, nofun⟩)
    (fun taskId => ?_) h.noneEmpty (.inl rfl) (.refl _) (.refl _) (hown.mono (.refl _) (.refl _))
  · obtain ⟨hj, hne⟩ := OrderedSet.mem_erase.1 hj
    exact ⟨hj, fun he => absurd he.symm hne⟩
  · rw [htask]
    exact Nat.le_refl _

theorem Inv.answerTask (h : s.Inv) {taskId : String} {answer : TaskAnswer δ ξ}
    (hown : ∀ i, .taskReady i taskId ∈ s.received → s.AnsweredBy i taskId answer) :
    (s.answerTask taskId answer).Inv := by
  rw [RequesterState.answerTask]
  split
  · next i hi =>
    obtain ⟨⟨_, _, _, _, _⟩, hi, rfl⟩ := h.handlers taskId i hi
    refine h.moved hi rfl rfl (fun j hj => ⟨hj, nofun⟩) (fun other j hg => .inr ?_) (fun _ _ hg => .inr ⟨hg, id⟩)
      (fun _ => Nat.sub_le_iff_le_add.1 (Nat.le_refl _)) h.noneEmpty (.inl rfl) (.refl _) (.refl _)
      ((hown i (h.origins i _ hi)).mono (.refl _) (.refl _))
    rw [ObjectMap.get?_erase] at hg
    split at hg
    · cases hg
    · next hne => exact ⟨hg, fun hrun => hne (CallPhase.running.inj hrun).symm⟩
  · exact h

theorem Inv.sendSettings (h : s.Inv) {call : Call σ δ ξ} {taskId : String} (hi : s.calls[i]? = some call)
    (hp : call.phase = .accepted taskId) : (s.sendSettings i call taskId).Inv := by
  have hready := h.origins i call hi
  rw [hp] at hready
  obtain ⟨_, _, executionId, _, _⟩ := call
  obtain rfl := hp
  refine h.moved hi rfl rfl (fun j hj => ⟨hj, nofun⟩) (fun other j hg => ?_) (fun other j hg => ?_) (fun other => ?_)
    (noneEmpty_addTaskId executionId taskId h.noneEmpty) (.inl rfl) (.refl _) (List.sublist_append_left _ _) hready
  · rw [RequesterState.send, ObjectMap.get?_set] at hg
    split at hg
    · next ho => exact .inl ⟨Option.some.inj hg, congrArg _ ho.symm⟩
    · exact .inr ⟨hg, nofun⟩
  · rw [RequesterState.send, ObjectMap.get?_set] at hg
    split at hg
    · next ho => exact .inl ⟨Option.some.inj hg, congrArg _ ho.symm⟩
    · exact .inr ⟨hg, nofun⟩
  · simpa [RequesterState.send, CallPhase.task?] using
      executionsOf_addTaskId executionId taskId other s.executionIdsToTaskIds

theorem Inv.settle (h : s.Inv) {call : Call σ δ ξ} {settlement : Settlement δ ξ}
    {tasks' : ObjectMap String Nat} {executions' : ObjectMap String (OrderedSet String)} (hi : s.calls[i]? = some call)
    (hp : call.phase = .expired ∨ ∃ taskId answer, call.phase = .answered taskId answer) (hown : s.Own i settlement)
    (htasks : ∀ taskId j, tasks'.get? taskId = some j → s.tasks.get? taskId = some j ∧ call.phase.task? ≠ some taskId)
    (hexecutions : ∀ taskId, executionsOf taskId executions' ≤
      executionsOf taskId s.executionIdsToTaskIds - (if call.phase.task? = some taskId then 1 else 0))
    (hnone : NoneEmpty executions') :
    ({ s with tasks := tasks', executionIdsToTaskIds := executions' }.settle i settlement).Inv := by
  have hphase : call.phase.isSettled = false ∧ call.phase ≠ .requested ∧ ∀ taskId, call.phase ≠ .running taskId := by
    obtain hp | ⟨_, _, hp⟩ := hp <;> rw [hp] <;> exact ⟨rfl, nofun, nofun⟩
  refine h.moved hi rfl hphase.1 (fun j hj => ⟨hj, fun _ => hphase.2.1⟩) (fun other _ hg => .inr ⟨hg, hphase.2.2 other⟩)
    (fun other j hg => ?_) hexecutions hnone (.inr ⟨settlement, rfl, rfl⟩) (.refl _) (.refl _)
    (hown.mono (.refl _) (.refl _))
  obtain ⟨hg, hne⟩ := htasks other j hg
  exact .inr ⟨hg, fun htask => absurd htask hne⟩

theorem Inv.startTask (h : s.Inv) (taskType : String) (settings : σ) (executionId : Option String) :
    (s.startTask taskType settings executionId).Inv := by
  have hold : ∀ {i : Nat} {P : Call σ δ ξ → Prop}, (∃ call, s.calls[i]? = some call ∧ P call) →
      ∃ call, (s.startTask taskType settings executionId).calls[i]? = some call ∧ P call := by
    rintro i P ⟨call, hi, hp⟩
    obtain ⟨hlt, -⟩ := List.getElem?_eq_some_iff.1 hi
    exact ⟨call, (List.getElem?_append_left hlt).trans hi, hp⟩
  have hnew : (s.startTask taskType settings executionId).calls[s.calls.length]? =
      some ⟨taskType, settings, executionId, .requested, false⟩ := List.getElem?_concat_length
  constructor
  · intro i hi
    obtain rfl | hi := OrderedSet.mem_insert.1 hi
    · exact ⟨_, hnew, rfl⟩
    · exact hold (h.requests i hi)
  · exact fun taskId i hg => hold (h.handlers taskId i hg)
  · exact fun taskId i hg => hold (h.tasks taskId i hg)
  · intro taskId
    have hlive : (s.startTask taskType settings executionId).liveCalls taskId = s.liveCalls taskId := by
      simp only [liveCalls, RequesterState.startTask, RequesterState.send, List.countP_append, List.countP_singleton]
      rfl
    exact (h.executions taskId).trans_eq hlive.symm
  · exact h.noneEmpty
  · exact fun p hm => hold (h.settled p hm)
  · exact h.once
  · intro i call hi
    by_cases hlt : i < s.calls.length
    · have hi : s.calls[i]? = some call := (List.getElem?_append_left hlt).symm.trans hi
      exact (h.origins i call hi).mono (.refl _) (List.sublist_append_left _ _)
    · obtain ⟨hlt', -⟩ := List.getElem?_eq_some_iff.1 hi
      have hlast : i = s.calls.length := by
        simp only [RequesterState.startTask, RequesterState.send, List.length_append, List.length_singleton] at hlt'
        omega
      subst hlast
      obtain rfl := Option.some.inj (hnew.symm.trans hi)
      trivial

theorem Inv.resume (h : s.Inv) (hs : s.resume i = some s') : s'.Inv := by
  obtain ⟨call, hi, hs⟩ := Option.bind_eq_some_iff.1 hs
  split at hs
  · next taskId hp =>
    cases hs
    exact h.sendSettings hi hp
  · next hp =>
    cases hs
    have hexpired := h.origins i call hi
    rw [hp] at hexpired
    refine h.settle hi (.inl hp) hexpired (fun taskId j hg => ⟨hg, ?_⟩) (fun taskId => ?_) h.noneEmpty
    · rw [hp]
      nofun
    · rw [hp]
      exact Nat.le_refl _
  · next taskId answer hp =>
    cases hs
    have hanswered := h.origins i call hi
    rw [hp] at hanswered
    refine h.settle hi (.inr ⟨taskId, answer, hp⟩) hanswered (fun other j hg => ?_) (fun other => ?_)
      (noneEmpty_clear taskId h.noneEmpty)
    · rw [ObjectMap.get?_erase] at hg
      split at hg
      · cases hg
      · next hne =>
        refine ⟨hg, ?_⟩
        rw [hp]
        exact fun htask => hne (Option.some.inj htask).symm
    · have hclear := executionsOf_clear taskId other s.executionIdsToTaskIds
      simpa only [hp, CallPhase.task?, Option.some.injEq] using hclear
  · cases hs

theorem Inv.markCancelled (h : s.Inv) (executionId : String) : (s.markCancelled executionId).Inv := by
  have hmark : ∀ i, (s.markCancelled executionId).calls[i]? =
      (s.calls[i]?).map fun call : Call σ δ ξ =>
        { call with cancelled := call.cancelled || decide (call.executionId = some executionId) } :=
    fun i => List.getElem?_map
  have hold : ∀ {i : Nat} {P : CallPhase δ ξ → Prop}, (∃ call, s.calls[i]? = some call ∧ P call.phase) →
      ∃ call, (s.markCancelled executionId).calls[i]? = some call ∧ P call.phase := by
    rintro i P ⟨call, hi, hp⟩
    rw [hmark, hi]
    exact ⟨_, rfl, hp⟩
  refine ⟨fun i hi => hold (P := (· = .requested)) (h.requests i hi),
    fun taskId i hg => hold (P := (· = .running taskId)) (h.handlers taskId i hg),
    fun taskId i hg => hold (P := fun phase => phase.task? = some taskId) (h.tasks taskId i hg), ?_, h.noneEmpty,
    fun p hm => hold (P := (· = .settled p.2)) (h.settled p hm), h.once, ?_⟩
  · intro taskId
    have hlive : (s.markCancelled executionId).liveCalls taskId = s.liveCalls taskId := List.countP_map
    exact (h.executions taskId).trans_eq hlive.symm
  · intro i call hi
    rw [hmark] at hi
    obtain ⟨old, hold, rfl⟩ := Option.map_eq_some_iff.1 hi
    exact (h.origins i old hold).mono (.refl _) (.refl _)

theorem Inv.cancelTask (h : s.Inv) (taskId reason : String) : (s.cancelTask taskId reason).Inv := by
  rw [RequesterState.cancelTask]
  split
  · have herased : { s with tasks := s.tasks.erase taskId }.Inv := by
      refine ⟨h.requests, h.handlers, fun other i hg => ?_, h.executions, h.noneEmpty, h.settled, h.once,
        fun i call hi => (h.origins i call hi).mono (.refl _) (.refl _)⟩
      rw [ObjectMap.get?_erase] at hg
      split at hg
      · cases hg
      · exact h.tasks other i hg
    refine (herased.send (.taskCancel taskId reason)).answerTask fun i hready => ⟨hready, ?_⟩
    exact List.mem_append_right _ (List.mem_singleton_self _)
  · exact h

theorem Inv.cancelTasks (h : s.Inv) (executionId : String) : (s.cancelTasks executionId).Inv := by
  have hmarked := h.markCancelled executionId
  rw [RequesterState.cancelTasks]
  generalize s.markCancelled executionId = marked at hmarked
  induction (s.getTaskIds executionId).items generalizing marked with
  | nil => exact hmarked
  | cons taskId taskIds ih => exact ih _ (hmarked.cancelTask taskId _)

theorem Inv.onMessage (h : s.Inv) (message : BrokerMessage δ ξ) : ((s.receive message).onMessage message).Inv := by
  have hreceived := h.receive message
  -- What comes last in the history cannot be the earlier message that the task was ready.
  have hlast : ∀ {first : BrokerMessage δ ξ}, first ∈ s.received ++ [message] → first ≠ message →
      [first, message].Sublist (s.received ++ [message]) := by
    intro first hfirst hne
    obtain hfirst | hfirst := List.mem_append.1 hfirst
    · exact (List.singleton_sublist.2 hfirst).append (.refl [message])
    · exact absurd (List.mem_singleton.1 hfirst) hne
  cases message with
  | taskReady requestId taskId =>
    simp only [RequesterState.onMessage, RequesterState.taskReady]
    split
    · next hr =>
      exact hreceived.releaseRequest hr rfl (List.mem_append_right _ (List.mem_singleton_self _))
    · exact hreceived.send _
  | requestExpired requestId =>
    simp only [RequesterState.onMessage, RequesterState.requestExpired]
    split
    · next hr =>
      exact hreceived.releaseRequest hr rfl (List.mem_append_right _ (List.mem_singleton_self _))
    · exact hreceived
  | taskDone taskId data => exact hreceived.answerTask fun i hready => hlast hready (by simp)
  | taskError taskId error => exact hreceived.answerTask fun i hready => hlast hready (by simp)

theorem Inv.step (h : s.Inv) {action : RequesterAction σ δ ξ} (hs : s.step action = some s') : s'.Inv := by
  cases action with
  | startTask taskType settings executionId =>
    cases hs
    exact h.startTask taskType settings executionId
  | onMessage message =>
    cases hs
    exact h.onMessage message
  | resume i => exact h.resume hs
  | cancelTasks executionId =>
    cases hs
    exact h.cancelTasks executionId

theorem inv_of_reachable {ok : RequesterState σ δ ξ → RequesterAction σ δ ξ → Prop}
    (h : (requester σ δ ξ).Reachable ok s) : s.Inv := by
  refine h.invariant ?_ fun s a s' _ hi hs => hi.step hs
  rintro _ rfl
  exact ⟨nofun, nofun, nofun, fun _ => Nat.le_refl 0, nofun, fun _ h => absurd h List.not_mem_nil, List.nodup_nil, nofun⟩

def Awaits (s : RequesterState σ δ ξ) : BrokerMessage δ ξ → Prop
  | .taskReady requestId _ | .requestExpired requestId =>
    ∃ call, s.calls[requestId]? = some call ∧ call.phase = .requested
  | .taskDone taskId _ | .taskError taskId _ => ∃ call ∈ s.calls, call.phase = .running taskId

def replyUnknown (s : RequesterState σ δ ξ) : BrokerMessage δ ξ → RequesterState σ δ ξ
  | .taskReady _ taskId => s.send (.taskCancel taskId requestNotFound)
  | _ => s

structure NothingHeld (s : RequesterState σ δ ξ) : Prop where
  requests : s.requestAcceptRejects.items = []
  handlers : s.taskAcceptRejects.entries = []
  tasks : s.tasks.entries = []
  executions : s.executionIdsToTaskIds.entries = []

structure Cleared (s : RequesterState σ δ ξ) : Prop where
  requests : ∀ i ∈ s.requestAcceptRejects, ∃ call, s.calls[i]? = some call ∧ call.phase = .requested
  handlers : ∀ taskId, s.taskAcceptRejects.get? taskId ≠ none → s.Live taskId
  tasks : ∀ taskId, s.tasks.get? taskId ≠ none → s.Live taskId
  executions : ∀ executionId taskIds, s.executionIdsToTaskIds.get? executionId = some taskIds →
    taskIds.size ≠ 0 ∧ ∀ taskId ∈ taskIds, s.Live taskId
  atTheEnd : (∀ call ∈ s.calls, call.phase.isSettled) → s.NothingHeld

theorem Inv.unknown (h : s.Inv) {message : BrokerMessage δ ξ} (hm : ¬ s.Awaits message) :
    s.onMessage message = s.replyUnknown message := by
  have hrequest : ∀ requestId, (¬ ∃ call, s.calls[requestId]? = some call ∧ call.phase = .requested) →
      requestId ∉ s.requestAcceptRejects.items := fun requestId hm hr => hm (h.requests requestId hr)
  have htask : ∀ taskId answer, (¬ ∃ call ∈ s.calls, call.phase = .running taskId) →
      s.answerTask taskId answer = s := by
    intro taskId answer hm
    rw [RequesterState.answerTask]
    split
    · next i hi =>
      obtain ⟨call, hi, hp⟩ := h.handlers taskId i hi
      exact absurd ⟨call, List.mem_of_getElem? hi, hp⟩ hm
    · rfl
  cases message with
  | taskReady requestId taskId => exact if_neg (hrequest requestId hm)
  | requestExpired requestId => exact if_neg (hrequest requestId hm)
  | taskDone taskId data => exact htask taskId _ hm
  | taskError taskId error => exact htask taskId _ hm

theorem Inv.live_of_execution (h : s.Inv) {executionId taskId : String} {taskIds : OrderedSet String}
    (hg : s.executionIdsToTaskIds.get? executionId = some taskIds) (hm : taskId ∈ taskIds) : s.Live taskId := by
  have hpos : 0 < s.liveCalls taskId := (executionsOf_pos hg hm).trans_le (h.executions taskId)
  obtain ⟨call, hcall, htask⟩ := List.countP_pos_iff.1 hpos
  exact ⟨call, hcall, of_decide_eq_true htask⟩

theorem not_live_of_settled (h : ∀ call ∈ s.calls, call.phase.isSettled) (taskId : String) : ¬ s.Live taskId := by
  rintro ⟨call, hcall, htask⟩
  have hsettled := h call hcall
  cases hp : call.phase <;> simp_all [CallPhase.task?, CallPhase.isSettled]

theorem entries_nil {κ α : Type} [DecidableEq κ] {m : ObjectMap κ α} (h : ∀ k, m.get? k = none) : m.entries = [] := by
  apply List.eq_nil_iff_forall_not_mem.2
  rintro ⟨k, v⟩ hm
  rw [m.mem_entries, h k] at hm
  cases hm

theorem Inv.cleared (h : s.Inv) : s.Cleared := by
  have hhandlers : ∀ taskId, s.taskAcceptRejects.get? taskId ≠ none → s.Live taskId := by
    intro taskId hg
    obtain ⟨i, hi⟩ := Option.ne_none_iff_exists'.1 hg
    obtain ⟨call, hi, hp⟩ := h.handlers taskId i hi
    exact ⟨call, List.mem_of_getElem? hi, by rw [hp]; rfl⟩
  have htasks : ∀ taskId, s.tasks.get? taskId ≠ none → s.Live taskId := by
    intro taskId hg
    obtain ⟨i, hi⟩ := Option.ne_none_iff_exists'.1 hg
    obtain ⟨call, hi, hp⟩ := h.tasks taskId i hi
    exact ⟨call, List.mem_of_getElem? hi, hp⟩
  refine ⟨h.requests, hhandlers, htasks,
    fun executionId taskIds hg => ⟨h.noneEmpty executionId taskIds hg, fun taskId hm => h.live_of_execution hg hm⟩,
    fun hsettled => ⟨?_, ?_, ?_, ?_⟩⟩
  · apply List.eq_nil_iff_forall_not_mem.2
    intro i hi
    obtain ⟨call, hi, hp⟩ := h.requests i hi
    have hcall := hsettled call (List.mem_of_getElem? hi)
    rw [hp] at hcall
    cases hcall
  · exact entries_nil fun taskId => not_not.1 fun hg => not_live_of_settled hsettled taskId (hhandlers taskId hg)
  · exact entries_nil fun taskId => not_not.1 fun hg => not_live_of_settled hsettled taskId (htasks taskId hg)
  · refine entries_nil fun executionId => not_not.1 fun hg => ?_
    obtain ⟨taskIds, hg⟩ := Option.ne_none_iff_exists'.1 hg
    -- The tasks of an execution are never none, and each of them has a call that has not settled.
    apply h.noneEmpty executionId taskIds hg
    exact OrderedSet.size_eq_zero.2 fun taskId hm => not_live_of_settled hsettled taskId (h.live_of_execution hg hm)

end RequesterState

end N8n.TaskRequester
