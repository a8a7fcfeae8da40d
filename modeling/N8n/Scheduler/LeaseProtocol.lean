import N8n.Scheduler.Executor

namespace N8n.Scheduler

open N8n.Lib

abbrev LeaseId := TaskId × Nat

def leaseExpiredMessage : String := "Lease expired before completion"

def reapRow (now : Int) (t : TaskTable) (id : TaskId) (task : ScheduledTask) : TaskTable × Nat :=
  let ref : ExpiredLeaseRef := ⟨id, task.leaseEpoch⟩
  if task.dispatchedAt ≠ none then completeExpired now t ref
  else if task.attempts + 1 ≥ task.maxAttempts then deadLetterExpired now t ref leaseExpiredMessage
  else reclaimExpired now t ref (backoff (task.attempts + 1)) leaseExpiredMessage

inductive DbOutcome where
  | done
  | failed
  | lost
  deriving DecidableEq

def DbOutcome.table (outcome : DbOutcome) (t : TaskTable) (r : TaskTable × Nat) : TaskTable :=
  if outcome = .failed then t else r.1

def DbOutcome.answer (outcome : DbOutcome) (r : TaskTable × Nat) : Option Nat :=
  if outcome = .done then some r.2 else none

/-- The task table under any number of executors and reapers. `now` is the clock of the
database; an instance's own clock shows only in when its timers fire. -/
structure LeaseState where
  now : Int
  tasks : TaskTable
  fires : LeaseId → Option Fire
  sweeps : Nat → List (TaskId × ScheduledTask)
  /-- The leases under which a handler was started. -/
  started : List LeaseId

inductive LeaseAction where
  | tick (now : Int)
  | claimDueTasks (batch : ClaimDueTasksBatch) (ids : List TaskId) (outcome : DbOutcome)
  | move (lease : LeaseId) (m : FireMove)
  | commit (lease : LeaseId) (outcome : DbOutcome)
  | findExpiredLeases (sweep : Nat) (ids : List TaskId)
  | reapRow (sweep : Nat) (outcome : DbOutcome)
  | retireMissedPending (ids : List TaskId)
  | updateToMissed (superseded : List (Nat × Int))
  | delete (ids : List TaskId)

def Fire.claim (f : Fire) (id : TaskId) : ClaimedTaskRef := ⟨f.host, id, f.task.leaseEpoch⟩

def claimedFire (now : Int) (t : TaskTable) (batch : ClaimDueTasksBatch) (ids : List TaskId) (lease : LeaseId) :
    Option Fire :=
  (t lease.1).bind fun task =>
    if lease.1 ∈ ids ∧ isDue now batch task ∧ lease.2 = task.leaseEpoch + 1 then
      some ⟨batch.host, batch.leaseMs, claimedTask now batch task, .claimed⟩
    else none

def Fire.starts (f : Fire) (answer : Option Nat) : Bool := f.phase = .beginning ∧ f.resolve answer = .handling .unset

namespace LeaseState

def setFire (s : LeaseState) (lease : LeaseId) (f : Fire) : LeaseState :=
  { s with fires := fun other => if other = lease then some f else s.fires other }

def step (s : LeaseState) : LeaseAction → Option LeaseState
  | .tick now => some { s with now }
  | .claimDueTasks batch ids outcome =>
    some { s with
      tasks := outcome.table s.tasks (claimDueTasks s.now s.tasks batch ids, 0)
      fires := fun lease =>
        if outcome = .done then (claimedFire s.now s.tasks batch ids lease).or (s.fires lease) else s.fires lease }
  | .move lease m => do
      let f ← s.fires lease
      let phase ← f.phase.move m
      some (s.setFire lease (f.withPhase phase))
  | .commit lease outcome => do
      let f ← s.fires lease
      let stmt ← f.statement
      let r := stmt.exec s.now s.tasks (f.claim lease.1)
      let answer := outcome.answer r
      let s' := s.setFire lease (f.withPhase (f.resolve answer))
      some { s' with
        tasks := outcome.table s.tasks r
        started := if f.starts answer then lease :: s.started else s.started }
  | .findExpiredLeases sweep ids =>
    some { s with
      sweeps := fun other =>
        if other = sweep then N8n.Scheduler.findExpiredLeases s.now s.tasks ids else s.sweeps other }
  | .reapRow sweep outcome =>
    match s.sweeps sweep with
    | [] => none
    | (id, task) :: rest =>
      some { s with
        tasks := outcome.table s.tasks (N8n.Scheduler.reapRow s.now s.tasks id task)
        sweeps := fun other => if other = sweep then rest else s.sweeps other }
  | .retireMissedPending ids => some { s with tasks := N8n.Scheduler.retireMissedPending s.now s.tasks ids }
  | .updateToMissed superseded => some { s with tasks := N8n.Scheduler.updateToMissed s.now s.tasks superseded }
  | .delete ids => some { s with tasks := fun id => if id ∈ ids then none else s.tasks id }

end LeaseState

structure NewTask (task : ScheduledTask) : Prop where
  status : task.status = .pending
  attempts : task.attempts = 0
  maxAttempts : 0 < task.maxAttempts
  leaseEpoch : task.leaseEpoch = 0
  startedAt : task.startedAt = none
  dispatchedAt : task.dispatchedAt = none

/-- The table holds new rows, and no instance has begun to work on them. A row inserted
later is one that no claim has selected before. -/
structure LeaseState.Initial (s : LeaseState) : Prop where
  tasks : ∀ id task, s.tasks id = some task → NewTask task
  fires : ∀ lease, s.fires lease = none
  sweeps : ∀ sweep, s.sweeps sweep = []
  started : s.started = []

def leaseSystem : TransitionSystem LeaseState LeaseAction := ⟨LeaseState.Initial, LeaseState.step⟩

section

variable {now : Int} {t : TaskTable} {claim : ClaimedTaskRef} {id other : TaskId} {row row' task : ScheduledTask}

def Statement.written (now : Int) : Statement → ScheduledTask → ScheduledTask
  | .releaseClaim => releasedTask
  | .beginDispatch leaseMs => begunTask now leaseMs
  | .markDispatched => dispatchedTask now
  | .completeTask => completedTask now
  | .failTaskTerminal errorMessage => failedTask now errorMessage
  | .rescheduleTask backoffMs errorMessage => rescheduledTask now backoffMs errorMessage

theorem Statement.exec_row {stmt : Statement} (h : (stmt.exec now t claim).1 other = some row') :
    ∃ row, t other = some row ∧
      (row' = row ∨ other = claim.id ∧ owns claim row = true ∧ row' = stmt.written now row) := by
  cases stmt with
  | beginDispatch leaseMs =>
    obtain ⟨row, hr, h⟩ := updateOne_row h
    refine ⟨row, hr, h.imp_right fun ⟨ho, hp, he⟩ => ⟨ho, (of_decide_eq_true hp).1, he⟩⟩
  | releaseClaim => exact updateOne_row h
  | markDispatched => exact updateOne_row h
  | completeTask => exact updateOne_row h
  | failTaskTerminal => exact updateOne_row h
  | rescheduleTask => exact updateOne_row h

theorem Statement.exec_fenced {stmt : Statement} (h : ∀ row, t claim.id = some row → owns claim row = false) :
    stmt.exec now t claim = (t, 0) := by
  cases stmt with
  | beginDispatch leaseMs => exact updateOne_fenced fun row hr => by simp [h row hr]
  | releaseClaim => exact updateOne_fenced h
  | markDispatched => exact updateOne_fenced h
  | completeTask => exact updateOne_fenced h
  | failTaskTerminal => exact updateOne_fenced h
  | rescheduleTask => exact updateOne_fenced h

/-- What the reaper writes on a row that it read as `task`. -/
inductive ReaperWrite (now : Int) (task row : ScheduledTask) : ScheduledTask → Prop
  | completed (hd : row.dispatchedAt ≠ none) : ReaperWrite now task row (completedTask now row)
  | deadLettered (hd : row.dispatchedAt = none) : ReaperWrite now task row (failedTask now leaseExpiredMessage row)
  | reclaimed (ms : Nat) (hd : row.dispatchedAt = none) (ha : task.attempts + 1 < task.maxAttempts) :
      ReaperWrite now task row (reclaimedTask now ms leaseExpiredMessage row)

theorem reaperOwns_iff {ref : ExpiredLeaseRef} {dispatched : Bool} :
    reaperOwns now ref dispatched row = true ↔
      row.status = .running ∧ row.leaseEpoch = ref.claimedEpoch ∧ leaseExpired now row = true ∧
        row.dispatchedAt.isSome = dispatched :=
  decide_eq_true_iff

theorem reapRow_row (h : (reapRow now t id task).1 other = some row') :
    ∃ row, t other = some row ∧ (row' = row ∨
      other = id ∧ row.status = .running ∧ row.leaseEpoch = task.leaseEpoch ∧ ReaperWrite now task row row') := by
  rw [reapRow] at h
  split at h
  · obtain ⟨row, hr, h⟩ := updateOne_row h
    refine ⟨row, hr, h.imp_right fun ⟨ho, hp, he⟩ => ?_⟩
    obtain ⟨hs, hl, -, hd⟩ := reaperOwns_iff.1 hp
    exact ⟨ho, hs, hl, he ▸ .completed (by rintro hn; simp [hn] at hd)⟩
  · split at h
    · obtain ⟨row, hr, h⟩ := updateOne_row h
      refine ⟨row, hr, h.imp_right fun ⟨ho, hp, he⟩ => ?_⟩
      obtain ⟨hs, hl, -, hd⟩ := reaperOwns_iff.1 hp
      exact ⟨ho, hs, hl, he ▸ .deadLettered (by simpa using hd)⟩
    · next ha =>
      obtain ⟨row, hr, h⟩ := updateOne_row h
      refine ⟨row, hr, h.imp_right fun ⟨ho, hp, he⟩ => ?_⟩
      obtain ⟨hs, hl, -, hd⟩ := reaperOwns_iff.1 hp
      exact ⟨ho, hs, hl, he ▸ .reclaimed _ (by simpa using hd) (by omega)⟩

theorem reapRow_fenced
    (h : ∀ row, t id = some row → ¬ (row.status = .running ∧ row.leaseEpoch = task.leaseEpoch)) :
    reapRow now t id task = (t, 0) := by
  have hp : ∀ dispatched row, t id = some row → reaperOwns now ⟨id, task.leaseEpoch⟩ dispatched row = false := by
    intro dispatched row hr
    rw [Bool.eq_false_iff]
    intro ho
    obtain ⟨hs, hl, -⟩ := reaperOwns_iff.1 ho
    exact h row hr ⟨hs, hl⟩
  rw [reapRow]
  split
  · exact updateOne_fenced (hp true)
  · split
    · exact updateOne_fenced (hp false)
    · exact updateOne_fenced (hp false)

inductive RowStep (s : LeaseState) (id : TaskId) (row : ScheduledTask) : LeaseAction → ScheduledTask → Prop
  | same (a : LeaseAction) : RowStep s id row a row
  | claimed {batch : ClaimDueTasksBatch} {ids : List TaskId} {outcome : DbOutcome}
      (hd : isDue s.now batch row = true) :
      RowStep s id row (.claimDueTasks batch ids outcome) (claimedTask s.now batch row)
  | written {e : Nat} {outcome : DbOutcome} {f : Fire} {stmt : Statement} (hf : s.fires (id, e) = some f)
      (hs : f.statement = some stmt) (ho : owns (f.claim id) row = true) (hc : outcome ≠ .failed) :
      RowStep s id row (.commit (id, e) outcome) (stmt.written s.now row)
  | reaped {sweep : Nat} {outcome : DbOutcome} {task row' : ScheduledTask} {rest : List (TaskId × ScheduledTask)}
      (hk : s.sweeps sweep = (id, task) :: rest) (hs : row.status = .running)
      (he : row.leaseEpoch = task.leaseEpoch) (hw : ReaperWrite s.now task row row') :
      RowStep s id row (.reapRow sweep outcome) row'
  | missed (a : LeaseAction) (hs : row.status = .pending) : RowStep s id row a (missedTask s.now row)

variable {s s' : LeaseState} {a : LeaseAction}

theorem DbOutcome.table_row {outcome : DbOutcome} {r : TaskTable × Nat} {P : ScheduledTask → Prop}
    (h : outcome.table t r other = some row')
    (hw : outcome ≠ .failed → r.1 other = some row' → ∃ row, t other = some row ∧ P row)
    (hsame : t other = some row' → P row') : ∃ row, t other = some row ∧ P row := by
  rw [DbOutcome.table] at h
  split at h
  · exact ⟨row', h, hsame h⟩
  · next hc => exact hw hc h

theorem step_move {lease : LeaseId} {m : FireMove} (h : s.step (.move lease m) = some s') :
    ∃ f phase, s.fires lease = some f ∧ f.phase.move m = some phase ∧ s' = s.setFire lease (f.withPhase phase) := by
  obtain ⟨f, hf, h⟩ := Option.bind_eq_some_iff.1 h
  obtain ⟨phase, hp, h⟩ := Option.bind_eq_some_iff.1 h
  exact ⟨f, phase, hf, hp, (Option.some.inj h).symm⟩

theorem step_commit {lease : LeaseId} {outcome : DbOutcome} (h : s.step (.commit lease outcome) = some s') :
    ∃ f stmt r answer, s.fires lease = some f ∧ f.statement = some stmt ∧
      r = stmt.exec s.now s.tasks (f.claim lease.1) ∧ answer = outcome.answer r ∧
      s' = { s.setFire lease (f.withPhase (f.resolve answer)) with
        tasks := outcome.table s.tasks r
        started := if f.starts answer then lease :: s.started else s.started } := by
  obtain ⟨f, hf, h⟩ := Option.bind_eq_some_iff.1 h
  obtain ⟨stmt, hs, h⟩ := Option.bind_eq_some_iff.1 h
  exact ⟨f, stmt, _, _, hf, hs, rfl, rfl, (Option.some.inj h).symm⟩

theorem step_reapRow {sweep : Nat} {outcome : DbOutcome} (h : s.step (.reapRow sweep outcome) = some s') :
    ∃ id task rest, s.sweeps sweep = (id, task) :: rest ∧
      s' = { s with
        tasks := outcome.table s.tasks (reapRow s.now s.tasks id task)
        sweeps := fun other => if other = sweep then rest else s.sweeps other } := by
  simp only [LeaseState.step] at h
  split at h
  · cases h
  · next id task rest hk => exact ⟨id, task, rest, hk, (Option.some.inj h).symm⟩

theorem step_row (h : s.step a = some s') (hr : s'.tasks id = some row') :
    ∃ row, s.tasks id = some row ∧ RowStep s id row a row' := by
  cases a with
  | tick | findExpiredLeases =>
    cases h
    exact ⟨row', hr, .same _⟩
  | claimDueTasks batch ids outcome =>
    cases h
    refine DbOutcome.table_row hr (fun hc hw => ?_) (fun _ => .same _)
    obtain ⟨row, hrow, hw⟩ := claimDueTasks_row hw
    refine ⟨row, hrow, ?_⟩
    obtain rfl | ⟨hd, rfl⟩ := hw
    · exact .same _
    · exact .claimed hd
  | move lease m =>
    obtain ⟨f, phase, -, -, rfl⟩ := step_move h
    exact ⟨row', hr, .same _⟩
  | commit lease outcome =>
    obtain ⟨f, stmt, r, answer, hf, hs, rfl, -, rfl⟩ := step_commit h
    refine DbOutcome.table_row hr (fun hc hw => ?_) (fun _ => .same _)
    obtain ⟨row, hrow, hw⟩ := Statement.exec_row hw
    refine ⟨row, hrow, ?_⟩
    obtain rfl | ⟨rfl, ho, rfl⟩ := hw
    · exact .same _
    · exact .written hf hs ho hc
  | reapRow sweep outcome =>
    obtain ⟨key, task, rest, hk, rfl⟩ := step_reapRow h
    refine DbOutcome.table_row hr (fun hc hw => ?_) (fun _ => .same _)
    obtain ⟨row, hrow, hw⟩ := reapRow_row hw
    refine ⟨row, hrow, ?_⟩
    obtain rfl | ⟨rfl, hs, he, hw⟩ := hw
    · exact .same _
    · exact .reaped hk hs he hw
  | retireMissedPending ids =>
    cases h
    obtain ⟨row, hrow, hc⟩ := retireMissedPending_row hr
    refine ⟨row, hrow, ?_⟩
    obtain rfl | ⟨hp, rfl⟩ := hc
    · exact .same _
    · exact .missed _ hp
  | updateToMissed superseded =>
    cases h
    obtain ⟨row, hrow, hc⟩ := updateToMissed_row hr
    refine ⟨row, hrow, ?_⟩
    obtain rfl | ⟨hp, rfl⟩ := hc
    · exact .same _
    · exact .missed _ hp
  | delete ids =>
    cases h
    simp only at hr
    split at hr
    · cases hr
    · exact ⟨row', hr, .same _⟩

namespace RowStep

theorem leaseEpoch_le (h : RowStep s id row a row') : row.leaseEpoch ≤ row'.leaseEpoch := by
  cases h with
  | same | missed => exact Nat.le_refl _
  | claimed => exact Nat.le_succ _
  | @written e outcome f stmt => cases stmt <;> exact Nat.le_refl _
  | reaped _ _ _ hw =>
    cases hw with
    | completed | deadLettered => exact Nat.le_refl _
    | reclaimed => exact Nat.le_succ _

theorem maxAttempts_eq (h : RowStep s id row a row') : row'.maxAttempts = row.maxAttempts := by
  cases h with
  | same | missed | claimed => rfl
  | @written e outcome f stmt => cases stmt <;> rfl
  | reaped _ _ _ hw => cases hw <;> rfl

theorem running (h : RowStep s id row a row') (hs : row'.status = .running) (he : row'.leaseEpoch = row.leaseEpoch) :
    row.status = .running ∧ row'.attempts = row.attempts ∧ (row.startedAt.isSome → row'.startedAt.isSome) := by
  cases h with
  | same => exact ⟨hs, rfl, fun hb => hb⟩
  | missed => cases hs
  | claimed => exact absurd he (Nat.succ_ne_self _)
  | @written e outcome f stmt _ _ ho =>
    have hr := (owns_iff.1 ho).1
    cases stmt with
    | beginDispatch => exact ⟨hr, rfl, fun _ => rfl⟩
    | markDispatched => exact ⟨hr, rfl, fun hb => hb⟩
    | releaseClaim | completeTask | failTaskTerminal | rescheduleTask => cases hs
  | reaped _ _ _ hw => cases hw <;> cases hs

theorem terminal (h : RowStep s id row a row') (ht : row.status.isTerminal = true) : row' = row := by
  cases h with
  | same => rfl
  | missed _ hs => simp [hs, ScheduledTaskStatus.isTerminal] at ht
  | claimed hd => simp [(of_decide_eq_true hd).1, ScheduledTaskStatus.isTerminal] at ht
  | written _ _ ho => simp [(owns_iff.1 ho).1, ScheduledTaskStatus.isTerminal] at ht
  | reaped _ hs => simp [hs, ScheduledTaskStatus.isTerminal] at ht

end RowStep

end

variable {s s' : LeaseState} {a : LeaseAction} {lease : LeaseId} {id : TaskId} {row row' task : ScheduledTask} {f : Fire}

inductive FireStep (s s' : LeaseState) (lease : LeaseId) : LeaseAction → Fire → Prop
  | same {a : LeaseAction} {f : Fire} (hf : s.fires lease = some f) (ha : ∀ outcome, a ≠ .commit lease outcome) :
      FireStep s s' lease a f
  | claimed {batch : ClaimDueTasksBatch} {ids : List TaskId} {row : ScheduledTask} (hr : s.tasks lease.1 = some row)
      (hr' : s'.tasks lease.1 = some (claimedTask s.now batch row)) (he : lease.2 = row.leaseEpoch + 1)
      (hd : isDue s.now batch row = true) :
      FireStep s s' lease (.claimDueTasks batch ids .done)
        ⟨batch.host, batch.leaseMs, claimedTask s.now batch row, .claimed⟩
  | moved {m : FireMove} {f : Fire} {phase : FirePhase} (hf : s.fires lease = some f)
      (hm : f.phase.move m = some phase) : FireStep s s' lease (.move lease m) (f.withPhase phase)
  | answered {outcome : DbOutcome} {f : Fire} {stmt : Statement} (answer : Option Nat)
      (hf : s.fires lease = some f) (hs : f.statement = some stmt) :
      FireStep s s' lease (.commit lease outcome) (f.withPhase (f.resolve answer))

theorem claimedFire_eq_some {now : Int} {t : TaskTable} {batch : ClaimDueTasksBatch} {ids : List TaskId}
    (h : claimedFire now t batch ids lease = some f) :
    ∃ row, t lease.1 = some row ∧ lease.1 ∈ ids ∧ isDue now batch row = true ∧ lease.2 = row.leaseEpoch + 1 ∧
      f = ⟨batch.host, batch.leaseMs, claimedTask now batch row, .claimed⟩ := by
  obtain ⟨row, hr, h⟩ := Option.bind_eq_some_iff.1 h
  split at h
  · next hc =>
    cases h
    exact ⟨row, hr, hc.1, hc.2.1, hc.2.2, rfl⟩
  · cases h

theorem LeaseState.setFire_eq_some {g : Fire} {other : LeaseId} (h : (s.setFire lease f).fires other = some g) :
    other = lease ∧ g = f ∨ other ≠ lease ∧ s.fires other = some g := by
  simp only [LeaseState.setFire] at h
  split at h
  · next he => exact .inl ⟨he, (Option.some.inj h).symm⟩
  · next he => exact .inr ⟨he, h⟩

theorem step_fire (h : s.step a = some s') (hf : s'.fires lease = some f) : FireStep s s' lease a f := by
  cases a with
  | tick | findExpiredLeases | retireMissedPending | updateToMissed | delete =>
    cases h
    exact .same hf (by simp)
  | reapRow sweep outcome =>
    obtain ⟨key, task, rest, -, rfl⟩ := step_reapRow h
    exact .same hf (by simp)
  | claimDueTasks batch ids outcome =>
    cases h
    simp only at hf
    split at hf
    · next ho =>
      subst ho
      rcases Option.or_eq_some_iff.1 hf with hc | ⟨-, hf⟩
      · obtain ⟨row, hr, hi, hd, he, rfl⟩ := claimedFire_eq_some hc
        refine .claimed hr ?_ he hd
        simp [DbOutcome.table, claimDueTasks, TaskTable.update, hr, hi, hd]
      · exact .same hf (by simp)
    · exact .same hf (by simp)
  | move other m =>
    obtain ⟨g, phase, hg, hp, rfl⟩ := step_move h
    obtain ⟨rfl, rfl⟩ | ⟨-, hf⟩ := LeaseState.setFire_eq_some hf
    · exact .moved hg hp
    · exact .same hf (by simp)
  | commit other outcome =>
    obtain ⟨g, stmt, r, answer, hg, hs, -, -, rfl⟩ := step_commit h
    obtain ⟨rfl, rfl⟩ | ⟨hne, hf⟩ := LeaseState.setFire_eq_some hf
    · exact .answered _ hg hs
    · exact .same hf fun _ he => hne (by cases he; rfl)

theorem step_sweep {sweep : Nat} (h : s.step a = some s') (hm : (id, task) ∈ s'.sweeps sweep) :
    (id, task) ∈ s.sweeps sweep ∨ s.tasks id = some task ∧ s'.tasks = s.tasks := by
  cases a with
  | tick | claimDueTasks | retireMissedPending | updateToMissed | delete =>
    cases h
    exact .inl hm
  | move =>
    obtain ⟨g, phase, -, -, rfl⟩ := step_move h
    exact .inl hm
  | commit =>
    obtain ⟨g, stmt, r, answer, -, -, -, -, rfl⟩ := step_commit h
    exact .inl hm
  | findExpiredLeases other ids =>
    cases h
    simp only at hm
    split at hm
    · obtain ⟨other, -, ho⟩ := List.mem_filterMap.1 hm
      obtain ⟨row, hr, ho⟩ := Option.bind_eq_some_iff.1 ho
      split at ho
      · cases ho
        exact .inr ⟨hr, rfl⟩
      · cases ho
    · exact .inl hm
  | reapRow other outcome =>
    obtain ⟨key, read, rest, hk, rfl⟩ := step_reapRow h
    simp only at hm
    split at hm
    · next he => exact .inl (by rw [he, hk]; exact List.mem_cons_of_mem _ hm)
    · exact .inl hm

theorem Fire.starts_iff {answer : Option Nat} :
    f.starts answer = true ↔ f.phase = .beginning ∧ ∃ n, answer = some n ∧ n ≠ 0 := by
  rw [Fire.starts, decide_eq_true_iff]
  refine and_congr_right fun hp => ?_
  rw [Fire.resolve.eq_def, hp]
  rcases answer with _ | _ | n <;> simp

theorem step_started (h : s.step a = some s') :
    s'.started = s.started ∨
      ∃ lease f row, s'.started = lease :: s.started ∧ s.fires lease = some f ∧ s.tasks lease.1 = some row ∧
        row.status = .running ∧ row.leaseEpoch = f.task.leaseEpoch ∧ row.startedAt = none ∧
        s'.tasks lease.1 = some (begunTask s.now f.leaseMs row) := by
  cases a with
  | tick | claimDueTasks | retireMissedPending | updateToMissed | delete | findExpiredLeases =>
    cases h
    exact .inl rfl
  | reapRow sweep outcome =>
    obtain ⟨key, task, rest, -, rfl⟩ := step_reapRow h
    exact .inl rfl
  | move lease m =>
    obtain ⟨g, phase, -, -, rfl⟩ := step_move h
    exact .inl rfl
  | commit lease outcome =>
    obtain ⟨f, stmt, r, answer, hf, hs, rfl, rfl, rfl⟩ := step_commit h
    simp only
    split
    · next hst =>
      obtain ⟨hp, n, ha, hn⟩ := Fire.starts_iff.1 hst
      obtain rfl : .beginDispatch f.leaseMs = stmt := by simpa [Fire.statement, hp] using hs
      simp only [DbOutcome.answer] at ha
      split at ha
      · next ho =>
        cases ha
        obtain ⟨row, hr, hg⟩ := affected_pos hn
        have hr : s.tasks lease.1 = some row := hr
        obtain ⟨ho', hst⟩ := of_decide_eq_true hg
        obtain ⟨hrun, hby, he⟩ := owns_iff.1 ho'
        refine .inr ⟨lease, f, row, rfl, hf, hr, hrun, he, hst, ?_⟩
        have ho'' : owns ⟨f.host, lease.1, f.task.leaseEpoch⟩ row = true := ho'
        simp [ho, DbOutcome.table, Statement.exec, beginDispatch, updateOne, TaskTable.update, Fire.claim, hr,
          ho'', hst]
      · cases ha
    · exact .inl rfl

end N8n.Scheduler
