import Mathlib.Algebra.Ring.Nat
import N8n.Lib.Transition

namespace N8n.Scheduler

inductive ScheduledTaskStatus where
  | pending
  | running
  | succeeded
  | failed
  | missed
  | cancelled
  deriving DecidableEq

def ScheduledTaskStatus.isTerminal : ScheduledTaskStatus → Bool
  | .pending | .running => false
  | .succeeded | .failed | .missed | .cancelled => true

abbrev TaskId := String

/-- A row of the task table. Instants are milliseconds of the database clock. -/
structure ScheduledTask where
  jobId : Nat
  taskType : String
  scheduledFor : Int
  runAt : Int
  status : ScheduledTaskStatus := .pending
  attempts : Nat := 0
  maxAttempts : Nat := 1
  claimedBy : Option String := none
  leaseExpiresAt : Option Int := none
  leaseEpoch : Nat := 0
  startedAt : Option Int := none
  dispatchedAt : Option Int := none
  finishedAt : Option Int := none
  errorMessage : Option String := none
  missedAfter : Option Int := none
  deriving DecidableEq

abbrev TaskTable := TaskId → Option ScheduledTask

def TaskTable.update (t : TaskTable) (p : TaskId → ScheduledTask → Bool) (f : ScheduledTask → ScheduledTask) :
    TaskTable :=
  fun id => (t id).map fun task => if p id task then f task else task

def TaskTable.affected (t : TaskTable) (id : TaskId) (p : ScheduledTask → Bool) : Nat :=
  if (t id).any p then 1 else 0

/-- The row and the lease epoch it was claimed under; `host` is the owner of the claim. -/
structure ClaimedTaskRef where
  host : String
  id : TaskId
  claimedEpoch : Nat

structure ExpiredLeaseRef where
  id : TaskId
  claimedEpoch : Nat

structure ClaimDueTasksBatch where
  host : String
  taskTypes : List String
  lookaheadMs : Nat
  leaseMs : Nat

section Repository

variable (now : Int)

/-- Whether a pending row is still worth claiming. -/
def claimable (task : ScheduledTask) : Bool :=
  task.missedAfter = none ∨ task.missedAfter.any (fun deadline => now < deadline) ∨ 0 < task.attempts

def isDue (batch : ClaimDueTasksBatch) (task : ScheduledTask) : Bool :=
  task.status = .pending ∧ task.taskType ∈ batch.taskTypes ∧ task.runAt ≤ now + batch.lookaheadMs ∧
    claimable now task

def claimedTask (batch : ClaimDueTasksBatch) (task : ScheduledTask) : ScheduledTask :=
  { task with
    status := .running
    claimedBy := some batch.host
    leaseExpiresAt := some (now + batch.leaseMs)
    leaseEpoch := task.leaseEpoch + 1 }

/-- The claim takes the due ones among the rows that its limit selects. -/
def claimDueTasks (t : TaskTable) (batch : ClaimDueTasksBatch) (ids : List TaskId) : TaskTable :=
  t.update (fun id task => id ∈ ids ∧ isDue now batch task) (claimedTask now batch)

def owns (claim : ClaimedTaskRef) (task : ScheduledTask) : Bool :=
  task.status = .running ∧ task.claimedBy = some claim.host ∧ task.leaseEpoch = claim.claimedEpoch

def updateOne (t : TaskTable) (id : TaskId) (p : ScheduledTask → Bool) (f : ScheduledTask → ScheduledTask) :
    TaskTable × Nat :=
  (t.update (fun other task => other = id ∧ p task) f, t.affected id p)

def runGuardedUpdate (t : TaskTable) (claim : ClaimedTaskRef) (f : ScheduledTask → ScheduledTask) : TaskTable × Nat :=
  updateOne t claim.id (owns claim) f

def begunTask (leaseMs : Nat) (task : ScheduledTask) : ScheduledTask :=
  { task with startedAt := some now, leaseExpiresAt := some (now + leaseMs) }

def dispatchedTask (task : ScheduledTask) : ScheduledTask := { task with dispatchedAt := some now }

def completedTask (task : ScheduledTask) : ScheduledTask := { task with status := .succeeded, finishedAt := some now }

def failedTask (errorMessage : String) (task : ScheduledTask) : ScheduledTask :=
  { task with
    status := .failed
    finishedAt := some now
    attempts := task.attempts + 1
    errorMessage := some errorMessage }

def releasedTask (task : ScheduledTask) : ScheduledTask :=
  { task with
    status := .pending
    claimedBy := none
    leaseExpiresAt := none
    startedAt := none
    dispatchedAt := none }

def rescheduledTask (backoffMs : Nat) (errorMessage : String) (task : ScheduledTask) : ScheduledTask :=
  { releasedTask task with
    runAt := now + backoffMs
    attempts := task.attempts + 1
    errorMessage := some errorMessage }

def reclaimedTask (backoffMs : Nat) (errorMessage : String) (task : ScheduledTask) : ScheduledTask :=
  { rescheduledTask now backoffMs errorMessage task with leaseEpoch := task.leaseEpoch + 1 }

def beginDispatch (t : TaskTable) (claim : ClaimedTaskRef) (leaseMs : Nat) : TaskTable × Nat :=
  updateOne t claim.id (fun task => owns claim task ∧ task.startedAt = none) (begunTask now leaseMs)

def markDispatched (t : TaskTable) (claim : ClaimedTaskRef) : TaskTable × Nat :=
  runGuardedUpdate t claim (dispatchedTask now)

def completeTask (t : TaskTable) (claim : ClaimedTaskRef) : TaskTable × Nat :=
  runGuardedUpdate t claim (completedTask now)

def failTaskTerminal (t : TaskTable) (claim : ClaimedTaskRef) (errorMessage : String) : TaskTable × Nat :=
  runGuardedUpdate t claim (failedTask now errorMessage)

def rescheduleTask (t : TaskTable) (claim : ClaimedTaskRef) (backoffMs : Nat) (errorMessage : String) :
    TaskTable × Nat :=
  runGuardedUpdate t claim (rescheduledTask now backoffMs errorMessage)

def releaseClaim (t : TaskTable) (claim : ClaimedTaskRef) : TaskTable × Nat := runGuardedUpdate t claim releasedTask

def leaseExpired (task : ScheduledTask) : Bool := task.leaseExpiresAt.any (fun expiry => expiry < now)

def findExpiredLeases (t : TaskTable) (ids : List TaskId) : List (TaskId × ScheduledTask) :=
  ids.filterMap fun id => (t id).bind fun task =>
    if task.status = .running ∧ leaseExpired now task then some (id, task) else none

/-- The guard of the reaper's updates: the effect boundary is judged when the row is written. -/
def reaperOwns (ref : ExpiredLeaseRef) (dispatched : Bool) (task : ScheduledTask) : Bool :=
  task.status = .running ∧ task.leaseEpoch = ref.claimedEpoch ∧ leaseExpired now task ∧
    task.dispatchedAt.isSome = dispatched

def reclaimExpired (t : TaskTable) (ref : ExpiredLeaseRef) (backoffMs : Nat) (errorMessage : String) :
    TaskTable × Nat :=
  updateOne t ref.id (reaperOwns now ref false) (reclaimedTask now backoffMs errorMessage)

def deadLetterExpired (t : TaskTable) (ref : ExpiredLeaseRef) (errorMessage : String) : TaskTable × Nat :=
  updateOne t ref.id (reaperOwns now ref false) (failedTask now errorMessage)

def completeExpired (t : TaskTable) (ref : ExpiredLeaseRef) : TaskTable × Nat :=
  updateOne t ref.id (reaperOwns now ref true) (completedTask now)

def retirable (task : ScheduledTask) : Bool :=
  task.status = .pending ∧ task.missedAfter.any (fun deadline => deadline ≤ now) ∧ task.attempts = 0

def missedTask (task : ScheduledTask) : ScheduledTask := { task with status := .missed, finishedAt := some now }

def retireMissedPending (t : TaskTable) (ids : List TaskId) : TaskTable :=
  t.update (fun id task => id ∈ ids ∧ retirable now task) (missedTask now)

def updateToMissed (t : TaskTable) (superseded : List (Nat × Int)) : TaskTable :=
  t.update (fun _ task => task.status = .pending ∧
    superseded.any (fun x => x.1 = task.jobId ∧ task.scheduledFor < x.2)) (missedTask now)

end Repository

variable {f : ScheduledTask → ScheduledTask} {p : ScheduledTask → Bool}

section

variable {t : TaskTable} {id other : TaskId} {row row' : ScheduledTask}

theorem TaskTable.update_row {p : TaskId → ScheduledTask → Bool}
    (h : t.update p f id = some row') : ∃ row, t id = some row ∧ (row' = row ∨ p id row = true ∧ row' = f row) := by
  rw [TaskTable.update, Option.map_eq_some_iff] at h
  obtain ⟨row, hr, h⟩ := h
  refine ⟨row, hr, ?_⟩
  split at h
  · next hp => exact .inr ⟨hp, h.symm⟩
  · exact .inl h.symm

theorem claimDueTasks_row {now : Int} {batch : ClaimDueTasksBatch} {ids : List TaskId}
    (h : claimDueTasks now t batch ids id = some row') :
    ∃ row, t id = some row ∧ (row' = row ∨ isDue now batch row = true ∧ row' = claimedTask now batch row) := by
  rw [claimDueTasks] at h
  obtain ⟨row, hr, h⟩ := TaskTable.update_row h
  exact ⟨row, hr, h.imp_right fun ⟨hp, he⟩ => ⟨(of_decide_eq_true hp).2, he⟩⟩

theorem retireMissedPending_row {now : Int} {ids : List TaskId} (h : retireMissedPending now t ids id = some row') :
    ∃ row, t id = some row ∧ (row' = row ∨ row.status = .pending ∧ row' = missedTask now row) := by
  rw [retireMissedPending] at h
  obtain ⟨row, hr, h⟩ := TaskTable.update_row h
  exact ⟨row, hr, h.imp_right fun ⟨hp, he⟩ => ⟨(of_decide_eq_true (of_decide_eq_true hp).2).1, he⟩⟩

theorem updateToMissed_row {now : Int} {superseded : List (Nat × Int)}
    (h : updateToMissed now t superseded id = some row') :
    ∃ row, t id = some row ∧ (row' = row ∨ row.status = .pending ∧ row' = missedTask now row) := by
  rw [updateToMissed] at h
  obtain ⟨row, hr, h⟩ := TaskTable.update_row h
  exact ⟨row, hr, h.imp_right fun ⟨hp, he⟩ => ⟨(of_decide_eq_true hp).1, he⟩⟩

theorem updateOne_row (h : (updateOne t id p f).1 other = some row') :
    ∃ row, t other = some row ∧ (row' = row ∨ other = id ∧ p row = true ∧ row' = f row) := by
  simp only [updateOne] at h
  obtain ⟨row, hr, h⟩ := TaskTable.update_row h
  refine ⟨row, hr, h.imp_right fun ⟨hp, he⟩ => ?_⟩
  have hp := of_decide_eq_true hp
  exact ⟨hp.1, hp.2, he⟩

theorem updateOne_fenced (h : ∀ row, t id = some row → p row = false) : updateOne t id p f = (t, 0) := by
  rw [updateOne, TaskTable.affected, if_neg]
  · refine Prod.ext ?_ rfl
    funext other
    cases hr : t other with
    | none => simp [TaskTable.update, hr]
    | some row =>
      by_cases ho : other = id
      · subst ho
        simp [TaskTable.update, hr, h row hr]
      · simp [TaskTable.update, hr, ho]
  · intro hany
    cases hr : t id with
    | none => simp [hr] at hany
    | some row => simp [hr, h row hr] at hany

theorem affected_pos (h : t.affected id p ≠ 0) : ∃ row, t id = some row ∧ p row = true := by
  rw [TaskTable.affected] at h
  cases hr : t id with
  | none => simp [hr] at h
  | some row =>
    exact ⟨row, rfl, by simpa [hr] using h⟩

theorem owns_iff {claim : ClaimedTaskRef} :
    owns claim row = true ↔ row.status = .running ∧ row.claimedBy = some claim.host ∧ row.leaseEpoch = claim.claimedEpoch :=
  decide_eq_true_iff

theorem claimable_ne_retirable (now : Int) (h : row.status = .pending) : claimable now row ≠ retirable now row := by
  cases hm : row.missedAfter with
  | none => simp [claimable, retirable, hm]
  | some deadline =>
    by_cases hd : now < deadline
    · have : ¬ deadline ≤ now := by omega
      simp [claimable, retirable, hm, hd, this]
    · have : deadline ≤ now := by omega
      by_cases ha : row.attempts = 0
      · simp [claimable, retirable, hm, hd, h, this, ha]
      · have : 0 < row.attempts := by omega
        simp [claimable, retirable, hm, ha, this]

end

def backoff (attempts : Nat) : Nat := if attempts < 1 then 0 else min (5000 * 2 ^ (attempts - 1)) 300000

inductive FireResult where
  | skippedNoHandler
  | skippedNotOwned (errorMessage : Option String)
  | completed
  | deadLettered (errorMessage : String)
  | rescheduled (errorMessage : String)
  deriving DecidableEq

inductive DispatchMark where
  | unset
  | kickedOff
  | settled
  deriving DecidableEq

inductive HandlerResult where
  | returned
  | threw (errorMessage : String)
  deriving DecidableEq

def HandlerResult.errorMessage : HandlerResult → Option String
  | .returned => none
  | .threw errorMessage => some errorMessage

/-- Where a fire stands: each phase ends at an await of the source. -/
inductive FirePhase where
  | claimed
  | scheduled
  | releasing (result : Option FireResult)
  | beginning
  | handling (mark : DispatchMark)
  | settling (result : HandlerResult) (mark : DispatchMark)
  | ended (result : Option FireResult)
  deriving DecidableEq

/-- A claimed task on the instance that claimed it. The task is the row as the claim returned it. -/
structure Fire where
  host : String
  leaseMs : Nat
  task : ScheduledTask
  phase : FirePhase
  deriving DecidableEq

inductive FireMove where
  | schedule
  | handBack
  | stop
  | timer (hasHandler : Bool)
  | dispatched
  | returns
  | throws (errorMessage : String)
  | crash

def DispatchMark.kickOff : DispatchMark → DispatchMark
  | .unset => .kickedOff
  | mark => mark

def FirePhase.move : FireMove → FirePhase → Option FirePhase
  | .schedule, .claimed => some .scheduled
  | .handBack, .claimed => some (.releasing none)
  | .stop, .scheduled => some (.releasing none)
  | .timer hasHandler, .scheduled => some (if hasHandler then .beginning else .releasing (some .skippedNoHandler))
  | .dispatched, .handling mark => some (.handling mark.kickOff)
  -- a handler that returned is taken as dispatched
  | .returns, .handling mark => some (.settling .returned mark.kickOff)
  | .throws errorMessage, .handling mark => some (.settling (.threw errorMessage) mark)
  | .crash, _ => some (.ended none)
  | _, _ => none

/-- The statements that an executor issues for a task it claimed. -/
inductive Statement where
  | releaseClaim
  | beginDispatch (leaseMs : Nat)
  | markDispatched
  | completeTask
  | failTaskTerminal (errorMessage : String)
  | rescheduleTask (backoffMs : Nat) (errorMessage : String)
  deriving DecidableEq

def Statement.exec (now : Int) (t : TaskTable) (claim : ClaimedTaskRef) : Statement → TaskTable × Nat
  | .releaseClaim => N8n.Scheduler.releaseClaim t claim
  | .beginDispatch leaseMs => N8n.Scheduler.beginDispatch now t claim leaseMs
  | .markDispatched => N8n.Scheduler.markDispatched now t claim
  | .completeTask => N8n.Scheduler.completeTask now t claim
  | .failTaskTerminal errorMessage => N8n.Scheduler.failTaskTerminal now t claim errorMessage
  | .rescheduleTask backoffMs errorMessage => N8n.Scheduler.rescheduleTask now t claim backoffMs errorMessage

def terminalWrite (task : ScheduledTask) (mark : DispatchMark) : HandlerResult → Statement
  | .returned => .completeTask
  | .threw errorMessage =>
    if task.attempts + 1 ≥ task.maxAttempts then
      -- the effect of a dispatched last attempt happened
      if mark ≠ .unset then .completeTask else .failTaskTerminal errorMessage
    else .rescheduleTask (backoff (task.attempts + 1)) errorMessage

def Fire.statement (f : Fire) : Option Statement :=
  match f.phase with
  | .releasing _ => some .releaseClaim
  | .beginning => some (.beginDispatch f.leaseMs)
  | .handling .kickedOff | .settling _ .kickedOff => some .markDispatched
  | .settling result mark => some (terminalWrite f.task mark result)
  | _ => none

def Statement.result : Statement → FireResult
  | .failTaskTerminal errorMessage => .deadLettered errorMessage
  | .rescheduleTask _ errorMessage => .rescheduled errorMessage
  | _ => .completed

/-- How a fire goes on from the rows affected by its statement, `none` for an error. -/
def Fire.resolve (f : Fire) (answer : Option Nat) : FirePhase :=
  match f.phase with
  | .releasing result => .ended result
  | .beginning => match answer with
      | some 0 => .ended (some (.skippedNotOwned none))
      | some _ => .handling .unset
      | none => .ended none
  -- a failed marker write is reported, not thrown
  | .handling .kickedOff => .handling .settled
  | .settling result .kickedOff => .settling result .settled
  | .settling result mark => .ended <| answer.map fun rowsAffected =>
    if 0 < rowsAffected then (terminalWrite f.task mark result).result else .skippedNotOwned result.errorMessage
  | phase => phase

def Fire.withPhase (f : Fire) (phase : FirePhase) : Fire := { f with phase := phase }

def FirePhase.undispatched : FirePhase → Bool
  | .claimed | .scheduled | .releasing _ | .beginning => true
  | .handling mark | .settling _ mark => mark = .unset
  | .ended _ => false

theorem FirePhase.move_undispatched {m : FireMove} {p p' : FirePhase} (h : p.move m = some p')
    (hu : p'.undispatched = true) : p.undispatched = true := by
  cases m <;> cases p <;> simp_all [FirePhase.move, FirePhase.undispatched]
  all_goals
    subst h
    rename_i mark
    cases mark <;> simp_all [DispatchMark.kickOff]

theorem Fire.resolve_undispatched {f : Fire} {answer : Option Nat} (hu : (f.resolve answer).undispatched = true) :
    f.phase.undispatched = true ∧ f.statement ≠ some .markDispatched := by
  cases hp : f.phase with
  | claimed | scheduled | releasing _ => simp [Fire.statement, hp, FirePhase.undispatched]
  | beginning => simp [Fire.statement, hp, FirePhase.undispatched]
  | ended => simp [Fire.resolve, hp, FirePhase.undispatched] at hu
  | handling mark =>
    cases mark <;> simp_all [Fire.resolve, Fire.statement, FirePhase.undispatched]
  | settling result mark =>
    cases mark <;> simp [Fire.resolve, hp, FirePhase.undispatched] at hu

theorem Fire.statement_undispatched {f : Fire} {stmt : Statement} (h : f.statement = some stmt)
    (hm : stmt = .releaseClaim ∨ ∃ e, stmt = .failTaskTerminal e) : f.phase.undispatched = true := by
  cases hp : f.phase with
  | claimed | scheduled | releasing _ | beginning => rfl
  | ended => simp [Fire.statement, hp] at h
  | handling mark =>
    cases mark <;> simp [Fire.statement, hp] at h
    subst h
    simp at hm
  | settling result mark =>
    cases mark <;> cases result <;> simp only [Fire.statement, hp, Option.some.injEq] at h <;> subst h
    · simp [terminalWrite] at hm
    · rfl
    · simp at hm
    · simp at hm
    · simp [terminalWrite] at hm
    · simp only [terminalWrite] at hm
      split at hm <;> simp at hm

theorem Fire.rescheduleTask_attempts {f : Fire} {ms : Nat} {e : String}
    (h : f.statement = some (.rescheduleTask ms e)) : f.task.attempts + 1 < f.task.maxAttempts := by
  cases hp : f.phase with
  | claimed | scheduled | releasing _ | beginning | ended => simp [Fire.statement, hp] at h
  | handling mark => cases mark <;> simp [Fire.statement, hp] at h
  | settling result mark =>
    have hw : terminalWrite f.task mark result = .rescheduleTask ms e := by
      cases mark <;> simp_all [Fire.statement]
    cases result with
    | returned => cases hw
    | threw =>
      simp only [terminalWrite] at hw
      split at hw
      · split at hw <;> cases hw
      · omega

end N8n.Scheduler
