import N8n.Scheduler.LeaseProtocol

namespace N8n.Scheduler

open N8n.Lib

section

variable {s s' : LeaseState} {a : LeaseAction} {lease : LeaseId} {id : TaskId} {row row' task : ScheduledTask} {f : Fire}

/-- What was true of the row of a lease when it was last seen holds while the lease lasts. -/
def Bound (s : LeaseState) (lease : LeaseId) (P : ScheduledTask → Prop) : Prop :=
  ∀ row, s.tasks lease.1 = some row → lease.2 ≤ row.leaseEpoch ∧ (row.status = .running → row.leaseEpoch = lease.2 → P row)

theorem Bound.step {P P' : ScheduledTask → Prop} (h : Bound s lease P) (hs : s.step a = some s')
    (hk : ∀ row row', s.tasks lease.1 = some row → row.leaseEpoch = lease.2 → row'.status = .running →
      row'.leaseEpoch = row.leaseEpoch → RowStep s lease.1 row a row' → P row → P' row') : Bound s' lease P' := by
  intro row' hr'
  obtain ⟨row, hr, hstep⟩ := step_row hs hr'
  obtain ⟨hle, hp⟩ := h row hr
  refine ⟨Nat.le_trans hle hstep.leaseEpoch_le, fun hrun he => ?_⟩
  have he' : row.leaseEpoch = lease.2 := Nat.le_antisymm (he ▸ hstep.leaseEpoch_le) hle
  have hrow := (hstep.running hrun (he.trans he'.symm)).1
  exact hk row row' hr he' hrun (he.trans he'.symm) hstep (hp hrow he')

structure RowOk (row : ScheduledTask) : Prop where
  attempts : row.attempts ≤ row.maxAttempts
  live : row.status = .pending ∨ row.status = .running → row.attempts < row.maxAttempts
  dispatched : row.dispatchedAt ≠ none → row.status = .running ∨ row.status = .succeeded

/-- What a fire knows of its row while its lease lasts. -/
structure FireOk (f : Fire) (row : ScheduledTask) : Prop where
  attempts : f.task.attempts = row.attempts
  maxAttempts : f.task.maxAttempts = row.maxAttempts
  undispatched : f.phase.undispatched = true → row.dispatchedAt = none

structure LeaseInv (s : LeaseState) : Prop where
  rows : ∀ id row, s.tasks id = some row → RowOk row
  epochs : ∀ lease f, s.fires lease = some f → f.task.leaseEpoch = lease.2
  fires : ∀ lease f, s.fires lease = some f → Bound s lease (FireOk f)
  sweeps : ∀ sweep id task, (id, task) ∈ s.sweeps sweep →
    Bound s (id, task.leaseEpoch) fun row => task.attempts = row.attempts ∧ task.maxAttempts = row.maxAttempts
  started : ∀ lease ∈ s.started, Bound s lease fun row => row.startedAt.isSome
  nodup : s.started.Nodup

theorem LeaseState.Initial.leaseInv (h : s.Initial) : LeaseInv s where
  rows id row hr := by
    have hn := h.tasks id row hr
    exact ⟨by simp [hn.attempts], fun _ => by simp [hn.attempts, hn.maxAttempts], fun hd => absurd hn.dispatchedAt hd⟩
  epochs lease f hf := by cases (h.fires lease).symm.trans hf
  fires lease f hf := by cases (h.fires lease).symm.trans hf
  sweeps sweep id task hm := by simp [h.sweeps sweep] at hm
  started lease hm := by simp [h.started] at hm
  nodup := by simp [h.started]

theorem RowOk.pending (h : RowOk row) (hs : row.status = .pending) : row.dispatchedAt = none := by
  cases hd : row.dispatchedAt with
  | none => rfl
  | some => simpa [hs] using h.dispatched (by simp [hd])

theorem LeaseInv.owner (hi : LeaseInv s) {e : Nat} (hf : s.fires (id, e) = some f) (hr : s.tasks id = some row)
    (ho : owns (f.claim id) row = true) : row.status = .running ∧ row.leaseEpoch = e ∧ FireOk f row := by
  obtain ⟨hs, -, he⟩ := owns_iff.1 ho
  have he : row.leaseEpoch = e := he.trans (hi.epochs _ f hf)
  exact ⟨hs, he, (hi.fires _ f hf row hr).2 hs he⟩

theorem LeaseInv.rowOk_step (hi : LeaseInv s) (hr : s.tasks id = some row) (h : RowStep s id row a row') :
    RowOk row' := by
  have hok := hi.rows id row hr
  cases h with
  | same => exact hok
  | missed _ hs => exact ⟨hok.attempts, by simp [missedTask], fun hd => absurd (hok.pending hs) hd⟩
  | claimed hd => exact ⟨hok.attempts, fun _ => hok.live (.inl (of_decide_eq_true hd).1), fun _ => .inl rfl⟩
  | @written e outcome f stmt hf hst ho hc =>
    obtain ⟨hs, he, hfo⟩ := hi.owner hf hr ho
    have hlt := hok.live (.inr hs)
    cases stmt with
    | releaseClaim => exact ⟨hok.attempts, fun _ => hlt, fun hd => absurd rfl hd⟩
    | beginDispatch | markDispatched => exact ⟨hok.attempts, fun _ => hlt, fun _ => .inl hs⟩
    | completeTask => exact ⟨hok.attempts, by simp [Statement.written, completedTask], fun _ => .inr rfl⟩
    | failTaskTerminal =>
      have hu := f.statement_undispatched hst (.inr ⟨_, rfl⟩)
      exact ⟨hlt, by simp [Statement.written, failedTask], fun hd => absurd (hfo.undispatched hu) hd⟩
    | rescheduleTask ms e =>
      -- the fire counted from its snapshot that this was not the last attempt
      have ha := f.rescheduleTask_attempts hst
      rw [hfo.attempts, hfo.maxAttempts] at ha
      exact ⟨Nat.le_of_lt ha, fun _ => ha, fun hd => absurd rfl hd⟩
  | @reaped sweep outcome task row' rest hk hs he hw =>
    have hlt := hok.live (.inr hs)
    cases hw with
    | completed => exact ⟨hok.attempts, by simp [completedTask], fun _ => .inr rfl⟩
    | deadLettered hd => exact ⟨hlt, by simp [failedTask], fun hd' => absurd hd hd'⟩
    | reclaimed ms _ ha =>
      have hm : (id, task) ∈ s.sweeps sweep := by simp [hk]
      obtain ⟨h₁, h₂⟩ := (hi.sweeps sweep id task hm row hr).2 hs he
      rw [h₁, h₂] at ha
      exact ⟨Nat.le_of_lt ha, fun _ => ha, fun hd => absurd rfl hd⟩

theorem RowStep.dispatchedAt (h : RowStep s id row a row') (hs : row'.status = .running) :
    row'.dispatchedAt = row.dispatchedAt ∨
      ∃ e outcome f, a = .commit (id, e) outcome ∧ s.fires (id, e) = some f ∧ f.statement = some .markDispatched ∧
        owns (f.claim id) row = true := by
  cases h with
  | same | missed | claimed => exact .inl rfl
  | @written e outcome f stmt hf hst ho hc =>
    cases stmt with
    | markDispatched => exact .inr ⟨e, outcome, f, rfl, hf, hst, ho⟩
    | beginDispatch | completeTask | failTaskTerminal => exact .inl rfl
    | releaseClaim | rescheduleTask => cases hs
  | reaped _ _ _ hw =>
    cases hw with
    | completed | deadLettered => exact .inl rfl
    | reclaimed => cases hs

theorem LeaseInv.undispatched_step (hi : LeaseInv s) (hr : s.tasks lease.1 = some row) (he : row.leaseEpoch = lease.2)
    (hs : row'.status = .running) (h : RowStep s lease.1 row a row') (hd : row.dispatchedAt = none)
    (hn : ∀ outcome f, a = .commit lease outcome → s.fires lease = some f → f.statement ≠ some .markDispatched) :
    row'.dispatchedAt = none := by
  rcases h.dispatchedAt hs with he' | ⟨e, outcome, f, ha, hf, hst, ho⟩
  · exact he'.trans hd
  · have hl : (lease.1, e) = lease := Prod.ext rfl ((hi.owner hf hr ho).2.1.symm.trans he)
    rw [hl] at ha hf
    exact absurd hst (hn outcome f ha hf)

theorem LeaseInv.withPhase_step (hi : LeaseInv s) (h : s.step a = some s') (hf : s.fires lease = some f)
    {p : FirePhase} (hp : p.undispatched = true → f.phase.undispatched = true ∧
      ∀ outcome, a = .commit lease outcome → f.statement ≠ some .markDispatched) :
    Bound s' lease (FireOk (f.withPhase p)) := by
  refine (hi.fires lease f hf).step h fun row row' hr he hs he' hstep hok => ?_
  refine ⟨hok.attempts.trans (hstep.running hs he').2.1.symm, hok.maxAttempts.trans hstep.maxAttempts_eq.symm, ?_⟩
  intro hu
  obtain ⟨hu, hn⟩ := hp hu
  refine hi.undispatched_step hr he hs hstep (hok.undispatched hu) fun outcome g ha hg => ?_
  obtain rfl := Option.some.inj (hf.symm.trans hg)
  exact hn outcome ha

theorem LeaseInv.fireOk_step (hi : LeaseInv s) (h : s.step a = some s') (hf : FireStep s s' lease a f) :
    f.task.leaseEpoch = lease.2 ∧ Bound s' lease (FireOk f) := by
  cases hf with
  | claimed hr hr' he hd =>
    refine ⟨he.symm, fun row' h' => ?_⟩
    obtain rfl := Option.some.inj (hr'.symm.trans h')
    exact ⟨Nat.le_of_eq he, fun _ _ => ⟨rfl, rfl, fun _ => (hi.rows _ _ hr).pending (of_decide_eq_true hd).1⟩⟩
  | same hf ha =>
    refine ⟨hi.epochs lease f hf, hi.withPhase_step h hf fun hu => ⟨hu, ?_⟩⟩
    intro outcome hc
    exact absurd hc (ha outcome)
  | @moved m g phase hf hm =>
    refine ⟨hi.epochs lease g hf, hi.withPhase_step h hf fun hu => ⟨FirePhase.move_undispatched hm hu, ?_⟩⟩
    intro outcome hc
    cases hc
  | @answered outcome g stmt answer hf hst =>
    refine ⟨hi.epochs lease g hf, hi.withPhase_step h hf fun hu => ?_⟩
    obtain ⟨hu, hne⟩ := Fire.resolve_undispatched hu
    exact ⟨hu, fun _ _ => hne⟩

theorem LeaseInv.step (hi : LeaseInv s) (h : s.step a = some s') : LeaseInv s' where
  rows id row' hr' := by
    obtain ⟨row, hr, hs⟩ := step_row h hr'
    exact hi.rowOk_step hr hs
  epochs lease f hf := (hi.fireOk_step h (step_fire h hf)).1
  fires lease f hf := (hi.fireOk_step h (step_fire h hf)).2
  sweeps sweep id task hm := by
    rcases step_sweep h hm with hm | ⟨hr, he⟩
    · refine (hi.sweeps sweep id task hm).step h fun row row' _ _ hs he' hstep hok => ?_
      exact ⟨hok.1.trans (hstep.running hs he').2.1.symm, hok.2.trans hstep.maxAttempts_eq.symm⟩
    · intro row hrow
      obtain rfl := Option.some.inj (hr.symm.trans ((congrFun he id).symm.trans hrow))
      exact ⟨Nat.le_refl _, fun _ _ => ⟨rfl, rfl⟩⟩
  started lease hm := by
    have hold : lease ∈ s.started → Bound s' lease fun row => row.startedAt.isSome := fun hm =>
      (hi.started lease hm).step h fun row row' _ _ hs he' hstep hok => (hstep.running hs he').2.2 hok
    rcases step_started h with he | ⟨new, f, row, he, hf, hr, hrun, hle, hn, hr'⟩
    · exact hold (he ▸ hm)
    · rw [he] at hm
      rcases List.mem_cons.1 hm with rfl | hm
      · intro row' h'
        obtain rfl := Option.some.inj (hr'.symm.trans h')
        exact ⟨Nat.le_of_eq ((hi.epochs _ f hf).symm.trans hle.symm), fun _ _ => rfl⟩
      · exact hold hm
  nodup := by
    rcases step_started h with he | ⟨new, f, row, he, hf, hr, hrun, hle, hn, -⟩
    · exact he ▸ hi.nodup
    · rw [he]
      refine List.nodup_cons.2 ⟨fun hm => ?_, hi.nodup⟩
      have := (hi.started new hm row hr).2 hrun (hle.trans (hi.epochs _ f hf))
      simp [hn] at this

theorem leaseInv_of_reachable {ok : LeaseState → LeaseAction → Prop} (h : leaseSystem.Reachable ok s) : LeaseInv s :=
  h.invariant (fun _ h₀ => h₀.leaseInv) fun _ _ _ _ hi hs => hi.step hs

end

variable {s s' : LeaseState} {a : LeaseAction} {lease : LeaseId} {id : TaskId} {row row' : ScheduledTask}

def LeaseState.writes (s : LeaseState) : LeaseAction → Option LeaseId
  | .commit lease _ => some lease
  | .reapRow sweep _ => (s.sweeps sweep).head?.map fun x => (x.1, x.2.leaseEpoch)
  | _ => none

def LeaseState.Superseded (s : LeaseState) (lease : LeaseId) : Prop :=
  ∀ row, s.tasks lease.1 = some row → ¬ (row.status = .running ∧ row.leaseEpoch = lease.2)

def Statement.reschedules : Statement → Bool
  | .rescheduleTask .. => true
  | _ => false

/-- Whether a step reschedules a row whose dispatch is recorded: a handler that has attempts
left threw after it had reported its dispatch. -/
def LeaseState.reschedulesDispatched (s : LeaseState) : LeaseAction → Bool
  | .commit lease outcome =>
    outcome ≠ .failed ∧ (s.fires lease).any fun f =>
      f.statement.any Statement.reschedules ∧
        (s.tasks lease.1).any fun row => owns (f.claim lease.1) row ∧ row.dispatchedAt.isSome
  | _ => false

def keepsDispatch (s : LeaseState) (a : LeaseAction) : Bool := !s.reschedulesDispatched a

/-- What the leases promise in a state, of its writes and of the states that steps with the property `ok` lead to. -/
structure LeasesFence (ok : LeaseState → LeaseAction → Prop) (s : LeaseState) : Prop where
  oneHandler : s.started.Nodup
  superseded : ∀ a s' lease, s.step a = some s' → s.writes a = some lease → s.Superseded lease → s'.tasks = s.tasks
  terminal : ∀ s' id row row', leaseSystem.Leads ok s s' → s.tasks id = some row → row.status.isTerminal = true →
    s'.tasks id = some row' → row' = row
  dispatched : ∀ s' id row row', leaseSystem.Leads ok s s' → s.tasks id = some row → row.dispatchedAt.isSome →
    s'.tasks id = some row' → row'.leaseEpoch = row.leaseEpoch ∧ (row'.status = .running ∨ row'.status = .succeeded)
  attempts : ∀ id row, s.tasks id = some row → row.attempts ≤ row.maxAttempts
  pending : ∀ id row, s.tasks id = some row → row.status = .pending → ∀ now, claimable now row ≠ retirable now row

theorem LeaseInv.superseded (hi : LeaseInv s) (h : s.step a = some s') (hw : s.writes a = some lease)
    (hs : s.Superseded lease) : s'.tasks = s.tasks := by
  cases a with
  | commit other outcome =>
    obtain rfl := Option.some.inj hw
    obtain ⟨f, stmt, r, answer, hf, hst, rfl, -, rfl⟩ := step_commit h
    have hfenced : stmt.exec s.now s.tasks (f.claim other.1) = (s.tasks, 0) := by
      refine Statement.exec_fenced fun row hr => Bool.eq_false_iff.2 fun ho => ?_
      obtain ⟨hrun, he, -⟩ := hi.owner hf hr ho
      exact hs row hr ⟨hrun, he⟩
    simp [hfenced, DbOutcome.table]
  | reapRow sweep outcome =>
    obtain ⟨id, task, rest, hk, rfl⟩ := step_reapRow h
    have hl : (id, task.leaseEpoch) = lease := by simpa [LeaseState.writes, hk] using hw
    subst hl
    simp [reapRow_fenced hs, DbOutcome.table]
  | tick | claimDueTasks | move | findExpiredLeases | retireMissedPending | updateToMissed | delete => cases hw

theorem leads_row {ok : LeaseState → LeaseAction → Prop} {R : ScheduledTask → Prop} (hl : leaseSystem.Leads ok s s')
    (hs : leaseSystem.Reachable ok s) (hr : s.tasks id = some row) (hR : R row)
    (hstep : ∀ s a row row', LeaseInv s → ok s a → s.tasks id = some row → R row → RowStep s id row a row' → R row') :
    ∀ row', s'.tasks id = some row' → R row' := by
  induction hl with
  | refl =>
    intro row' hr'
    obtain rfl := Option.some.inj (hr.symm.trans hr')
    exact hR
  | step a hl hok h ih =>
    intro row' hr'
    obtain ⟨row₁, hr₁, hrow⟩ := step_row h hr'
    exact hstep _ a row₁ row' (leaseInv_of_reachable (hs.leads hl)) hok hr₁ (ih row₁ hr₁) hrow

/-- While a task is there, its lease epoch never goes back and the number of its attempts is never changed. -/
theorem leases_only_grow {ok : LeaseState → LeaseAction → Prop} {row' : ScheduledTask} (hl : leaseSystem.Leads ok s s')
    (hs : leaseSystem.Reachable ok s) (hr : s.tasks id = some row) (hr' : s'.tasks id = some row') :
    row.leaseEpoch ≤ row'.leaseEpoch ∧ row'.maxAttempts = row.maxAttempts := by
  refine leads_row (R := fun row' => row.leaseEpoch ≤ row'.leaseEpoch ∧ row'.maxAttempts = row.maxAttempts) hl hs hr
    ⟨Nat.le_refl _, rfl⟩ (fun _ _ _ _ _ _ _ h hstep => ?_) row' hr'
  exact ⟨Nat.le_trans h.1 hstep.leaseEpoch_le, hstep.maxAttempts_eq.trans h.2⟩

theorem LeaseInv.keeps_dispatched (hi : LeaseInv s) (hk : keepsDispatch s a = true) (hr : s.tasks id = some row)
    (hd : row.dispatchedAt.isSome) (h : RowStep s id row a row') :
    row'.dispatchedAt.isSome ∧ row'.leaseEpoch = row.leaseEpoch := by
  have hpending : row.status = .pending → False := fun hs => by simp [(hi.rows id row hr).pending hs] at hd
  cases h with
  | same => exact ⟨hd, rfl⟩
  | missed _ hs => exact (hpending hs).elim
  | claimed hdue => exact (hpending (of_decide_eq_true hdue).1).elim
  | @written e outcome f stmt hf hst ho hc =>
    have hfo := (hi.owner hf hr ho).2.2
    cases stmt with
    | beginDispatch | completeTask | failTaskTerminal => exact ⟨hd, rfl⟩
    | markDispatched => exact ⟨rfl, rfl⟩
    | releaseClaim => simp [hfo.undispatched (f.statement_undispatched hst (.inl rfl))] at hd
    | rescheduleTask ms errorMessage =>
      have hn : row.dispatchedAt.isSome = false := by
        simpa [keepsDispatch, LeaseState.reschedulesDispatched, hc, hf, hst, Statement.reschedules, hr, ho] using hk
      simp [hn] at hd
  | reaped _ _ _ hw =>
    cases hw with
    | completed => exact ⟨hd, rfl⟩
    | deadLettered => exact ⟨hd, rfl⟩
    | reclaimed _ hn => simp [hn] at hd

/-- The leases fence while no recorded dispatch is rescheduled. -/
theorem leases_fence (h : leaseSystem.Reachable (fun s a => keepsDispatch s a = true) s) :
    LeasesFence (fun s a => keepsDispatch s a = true) s where
  oneHandler := (leaseInv_of_reachable h).nodup
  superseded a s' lease hs hw hsup := (leaseInv_of_reachable h).superseded hs hw hsup
  terminal s' id row row' hl hr ht hr' := by
    refine leads_row (R := fun r => r = row) hl h hr rfl (fun s a r r' _ _ _ he hstep => ?_) row' hr'
    subst he
    exact hstep.terminal ht
  dispatched s' id row row' hl hr hd hr' := by
    have hkept : row'.dispatchedAt.isSome ∧ row'.leaseEpoch = row.leaseEpoch := by
      refine leads_row (R := fun r => r.dispatchedAt.isSome ∧ r.leaseEpoch = row.leaseEpoch) hl h hr ⟨hd, rfl⟩
        (fun s a r r' hi hok hr ⟨hd, he⟩ hstep => ?_) row' hr'
      obtain ⟨hd', he'⟩ := hi.keeps_dispatched hok hr hd hstep
      exact ⟨hd', he'.trans he⟩
    have hok := (leaseInv_of_reachable (h.leads hl)).rows id row' hr'
    exact ⟨hkept.2, hok.dispatched fun hn => by simp [hn] at hkept⟩
  attempts id row hr := ((leaseInv_of_reachable h).rows id row hr).attempts
  pending id row hr hs now := claimable_ne_retirable now hs

def onlyTask (maxAttempts : Nat) : LeaseState where
  now := 100
  tasks id :=
    if id = "t" then some { jobId := 1, taskType := "workflow", scheduledFor := 90, runAt := 90, maxAttempts } else none
  fires _ := none
  sweeps _ := []
  started := []

theorem onlyTask_initial {n : Nat} (h : 0 < n) : (onlyTask n).Initial where
  tasks id task ht := by
    simp only [onlyTask] at ht
    split at ht
    · cases ht
      exact ⟨rfl, rfl, h, rfl, rfl, rfl⟩
    · cases ht
  fires _ := rfl
  sweeps _ := rfl
  started := rfl

/-- A claim by an instance whose handler then starts. -/
def claimAndStart (host : String) (e : Nat) : List LeaseAction :=
  [.claimDueTasks ⟨host, ["workflow"], 0, 1000⟩ ["t"] .done, .move ("t", e) .schedule,
    .move ("t", e) (.timer true), .commit ("t", e) .done]

/-- A task that is claimed, dispatched and completed. -/
def completedRun : List LeaseAction :=
  claimAndStart "main-1" 1 ++
    [.move ("t", 1) .returns, .commit ("t", 1) .done, .commit ("t", 1) .done]

theorem leases_fence_completed : ∃ s, leaseSystem.Reachable (fun s a => keepsDispatch s a = true) s ∧
    (s.tasks "t").any (fun row => row.status = .succeeded) = true ∧ s.started = [("t", 1)] ∧
    LeasesFence (fun s a => keepsDispatch s a = true) s := by
  have h : (leaseSystem.run keepsDispatch (onlyTask 1) completedRun).any (fun s =>
      (s.tasks "t").any (fun row => row.status = .succeeded) ∧ s.started = [("t", 1)]) = true := by decide +kernel
  obtain ⟨s, hs, h⟩ := (Option.any_eq_true _ _).1 h
  obtain ⟨h₁, h₂⟩ := of_decide_eq_true h
  have hr : leaseSystem.Reachable (fun s a => keepsDispatch s a = true) s :=
    ⟨_, onlyTask_initial Nat.one_pos, TransitionSystem.run_leads hs⟩
  exact ⟨s, hr, h₁, h₂, leases_fence hr⟩

theorem leases_only_grow_completed : ∃ s' row', leaseSystem.Leads TransitionSystem.Any (onlyTask 1) s' ∧
    s'.tasks "t" = some row' ∧ row'.maxAttempts = 1 := by
  have h : (leaseSystem.run (fun _ _ => true) (onlyTask 1) completedRun).any (fun s => (s.tasks "t").isSome) = true := by
    decide +kernel
  obtain ⟨s', hs', h⟩ := (Option.any_eq_true _ _).1 h
  obtain ⟨row', hr'⟩ := Option.isSome_iff_exists.1 h
  have hl : leaseSystem.Leads TransitionSystem.Any (onlyTask 1) s' :=
    (TransitionSystem.run_leads hs').mono fun _ _ _ => trivial
  have hinitial : leaseSystem.Reachable TransitionSystem.Any (onlyTask 1) := ⟨_, onlyTask_initial Nat.one_pos, .refl⟩
  exact ⟨s', row', hl, hr', (leases_only_grow hl hinitial rfl hr').2⟩

/-- The handler reports its dispatch, the marker is written, and then it throws. -/
def dispatchedRun : List LeaseAction :=
  claimAndStart "main-1" 1 ++ [.move ("t", 1) .dispatched, .commit ("t", 1) .done]

def handedOverRun : List LeaseAction :=
  [.move ("t", 1) (.throws "boom"), .commit ("t", 1) .done, .tick 10000] ++ claimAndStart "main-2" 2

/-- A dispatched task whose handler throws with an attempt left is claimed and handled again. -/
theorem dispatched_handed_over :
    ¬ ∀ s, leaseSystem.Reachable TransitionSystem.Any s → LeasesFence TransitionSystem.Any s := by
  intro hall
  have h : (leaseSystem.run (fun _ _ => true) (onlyTask 2) dispatchedRun).any (fun s =>
      (s.tasks "t").any (fun row => row.dispatchedAt.isSome ∧ row.leaseEpoch = 1) ∧
        (leaseSystem.run (fun _ _ => true) s handedOverRun).any fun s' =>
          (s'.tasks "t").any (fun row => row.leaseEpoch = 2)) = true := by decide +kernel
  obtain ⟨s, hs, h⟩ := (Option.any_eq_true _ _).1 h
  obtain ⟨h₁, h₂⟩ := of_decide_eq_true h
  obtain ⟨row, hr, h₁⟩ := (Option.any_eq_true _ _).1 h₁
  obtain ⟨s', hs', h₂⟩ := (Option.any_eq_true _ _).1 h₂
  obtain ⟨row', hr', h₂⟩ := (Option.any_eq_true _ _).1 h₂
  obtain ⟨hd, he⟩ := of_decide_eq_true h₁
  have hreach : leaseSystem.Reachable TransitionSystem.Any s :=
    ⟨_, onlyTask_initial Nat.two_pos, (TransitionSystem.run_leads hs).mono fun _ _ _ => trivial⟩
  have hleads : leaseSystem.Leads TransitionSystem.Any s s' :=
    (TransitionSystem.run_leads hs').mono fun _ _ _ => trivial
  have hsame := ((hall s hreach).dispatched s' "t" row row' hleads hr hd hr').1
  have he' := of_decide_eq_true h₂
  omega

end N8n.Scheduler
