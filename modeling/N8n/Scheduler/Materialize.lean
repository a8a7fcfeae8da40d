import Mathlib.Algebra.Ring.Nat
import N8n.Lib.ObjectMap
import N8n.Lib.Transition
import N8n.Scheduler.Recurrence

namespace N8n.Scheduler

open N8n.Lib

inductive ScheduledJobKind where
  | cron
  | recurringCron
  | interval
  | oneOff
  | unknown (kind : String)
  deriving DecidableEq

inductive ScheduledJobMisfirePolicy where
  | coalesce
  | coalesceOwner
  | skip
  | unknown (policy : String)
  deriving DecidableEq

structure ScheduledJob where
  id : Nat
  taskType : String
  kind : ScheduledJobKind
  cronExpression : Option String := none
  timezone : Option String := none
  intervalSeconds : Option Int := none
  fireAt : Option Int := none
  recurrenceUnit : Option RecurringCronUnit := none
  recurrenceSize : Option Int := none
  nextRunAt : Option Int
  lastFiredAt : Option Int := none
  maxAttempts : Nat
  misfirePolicy : ScheduledJobMisfirePolicy
  misfireGraceSeconds : Int
  ownerKey : String
  deriving DecidableEq

structure MaterializerOptions where
  windowSeconds : Int
  lookaheadSeconds : Int
  maxPerJob : Nat
  planRetrySeconds : Int

def required {α : Type} (job : ScheduledJob) (key : String) : Option α → Except SchedulerError α
  | none => .error (.corruptStorageRow job.id ("missing " ++ key))
  | some value => .ok value

def resolveSchedule (job : ScheduledJob) (defaultTimezone : String) : Except SchedulerError Schedule :=
  match job.kind with
  | .cron => do
      let cronExpression ← required job "cronExpression" job.cronExpression
      .ok (.cron cronExpression (some (job.timezone.getD defaultTimezone)))
  | .recurringCron => do
      let cronExpression ← required job "cronExpression" job.cronExpression
      let recurrenceUnit ← required job "recurrenceUnit" job.recurrenceUnit
      let recurrenceSize ← required job "recurrenceSize" job.recurrenceSize
      .ok (.recurringCron cronExpression (some (job.timezone.getD defaultTimezone)) recurrenceUnit recurrenceSize)
  | .interval => do
      let intervalSeconds ← required job "intervalSeconds" job.intervalSeconds
      .ok (.interval intervalSeconds)
  | .oneOff => do
      let fireAt ← required job "fireAt" job.fireAt
      .ok (.oneOff fireAt)
  | .unknown kind => .error (.corruptStorageRow job.id ("unknown kind " ++ kind))

structure OccurrencePlan where
  occurrences : List Int
  skippedOccurrences : Nat
  catchUpAt : Option Int
  retireBefore : Option Int
  nextRunAt : Option Int
  lastFiredAt : Option Int
  deriving DecidableEq

def applyMisfirePolicy (due : List Int) (now : Int) (job : ScheduledJob) (truncated : Bool) :
    Except SchedulerError (List Int × Option Int) :=
  let graceDeadline := now - job.misfireGraceSeconds * 1000
  let behind := due.filter (· ≤ now)
  let ahead := due.drop behind.length
  match behind.head? with
  | none => .ok (due, none)
  | some oldest =>
    if oldest > graceDeadline then .ok (due, none)
    else match job.misfirePolicy with
      | .coalesce | .coalesceOwner =>
        if truncated ∧ ahead = [] then .ok ([], none)
        else
          let catchUpAt := behind.getLast?.getD oldest
          .ok (catchUpAt :: ahead, some catchUpAt)
      | .skip => .ok (ahead, none)
      | .unknown policy => .error (.corruptStorageRow job.id ("unknown misfire policy " ++ policy))

section Plan

variable {C : Type} (lib : CronLibrary C)

def dueFires (windowEnd : Int) : Nat → Fires C → Except SchedulerError (List Int × Option Int)
  | 0, fires => .ok ([], some fires.value)
  | n + 1, fires =>
    if fires.value ≤ windowEnd then do
      match ← fires.next lib with
      | none => .ok ([fires.value], none)
      | some fires' =>
        let (due, fire) ← dueFires windowEnd n fires'
        .ok (fires.value :: due, fire)
    else .ok ([], some fires.value)

def planOccurrences (job : ScheduledJob) (now : Int) (options : MaterializerOptions) (defaultTimezone : String) :
    Except SchedulerError OccurrencePlan := do
  let schedule ← resolveSchedule job defaultTimezone
  let windowEnd := now + options.windowSeconds * 1000
  match job.nextRunAt with
  | none => .ok ⟨[], 0, none, none, none, job.lastFiredAt⟩
  | some first =>
    let fires ← occurrencesFrom lib schedule first
    let (due, fire) ← dueFires lib windowEnd options.maxPerJob fires
    let truncated := fire.any (· ≤ windowEnd)
    let (occurrences, catchUpAt) ← applyMisfirePolicy due now job truncated
    .ok ⟨occurrences, due.length - occurrences.length, catchUpAt, catchUpAt, fire, due.getLast?.or job.lastFiredAt⟩

structure PlannedJob where
  job : ScheduledJob
  plan : OccurrencePlan

/-- A pass over the claimed jobs. `outage` is what else keeps a job from being planned in this
instance, as a timezone that its data does not have. -/
structure Pass where
  now : Int
  options : MaterializerOptions
  ids : List Nat
  outage : Nat → Option SchedulerError := fun _ => none

def planJob (defaultTimezone : String) (pass : Pass) (job : ScheduledJob) : Except SchedulerError OccurrencePlan :=
  match pass.outage job.id with
  | some error => .error error
  | none => planOccurrences lib job pass.now pass.options defaultTimezone

def retryAt (pass : Pass) : Int := pass.now + pass.options.planRetrySeconds * 1000

def planOrDeferJob (defaultTimezone : String) (pass : Pass) (job : ScheduledJob) : PlannedJob :=
  match planJob lib defaultTimezone pass job with
  | .ok plan => ⟨job, plan⟩
  | .error _ => ⟨job, ⟨[], 0, none, none, some (retryAt pass), job.lastFiredAt⟩⟩

end Plan

/-- A job with a late run under `coalesce_owner`, and the instant of that run. -/
structure GroupMember where
  entry : PlannedJob
  latestMissedAt : Int

def toOwnedMember (entry : PlannedJob) : Option GroupMember :=
  entry.plan.catchUpAt.bind fun catchUpAt =>
    if entry.job.misfirePolicy = .coalesceOwner then some ⟨entry, catchUpAt⟩ else none

def latestThenLowestId (current candidate : GroupMember) : GroupMember :=
  if candidate.latestMissedAt ≠ current.latestMissedAt then
    if candidate.latestMissedAt > current.latestMissedAt then candidate else current
  else if candidate.entry.job.id < current.entry.job.id then candidate else current

def groupMembers (planned : List PlannedJob) (ownerKey : String) : List GroupMember :=
  (planned.filterMap toOwnedMember).filter fun member => member.entry.job.ownerKey = ownerKey

def groupWinner (planned : List PlannedJob) (ownerKey : String) : Option GroupMember :=
  match groupMembers planned ownerKey with
  | [] => none
  | member :: members => some (members.foldl latestThenLowestId member)

def losesLateRun (planned : List PlannedJob) (entry : PlannedJob) : Bool :=
  (toOwnedMember entry).isSome ∧
    (groupWinner planned entry.job.ownerKey).any fun winner => winner.entry.job.id ≠ entry.job.id

def dropLateRun (entry : PlannedJob) : PlannedJob :=
  { entry with plan := { entry.plan with occurrences := entry.plan.occurrences.drop 1, catchUpAt := none } }

def applyCoalesceOwnerPolicy (planned : List PlannedJob) : List PlannedJob :=
  planned.map fun entry => if losesLateRun planned entry then dropLateRun entry else entry

structure NewOccurrence where
  jobId : Nat
  taskType : String
  scheduledFor : Int
  runAt : Int
  maxAttempts : Nat
  missedAfter : Int
  deriving DecidableEq

def toNewOccurrence (now : Int) (entry : PlannedJob) (occurrence : Int) : NewOccurrence :=
  let runAt := if entry.plan.catchUpAt = some occurrence then now else occurrence
  -- the row becomes claimable no earlier than now
  let visibleAt := max runAt now
  { jobId := entry.job.id
    taskType := entry.job.taskType
    scheduledFor := occurrence
    runAt
    maxAttempts := entry.job.maxAttempts
    missedAfter := visibleAt + entry.job.misfireGraceSeconds * 1000 }

def toNewOccurrences (planned : List PlannedJob) (now : Int) : List NewOccurrence :=
  planned.flatMap fun entry => entry.plan.occurrences.map (toNewOccurrence now entry)

def insertIgnoringDuplicates (tasks : List NewOccurrence) : List NewOccurrence → List NewOccurrence × List NewOccurrence
  | [] => (tasks, [])
  | row :: rows =>
    if tasks.any fun other => other.jobId = row.jobId ∧ other.scheduledFor = row.scheduledFor then
      insertIgnoringDuplicates tasks rows
    else
      let (tasks, created) := insertIgnoringDuplicates (tasks ++ [row]) rows
      (tasks, row :: created)

/-- The jobs and the identities of the task rows. `recorded` keeps every insert and
`discarded` what the passes counted as skipped, for each job. -/
structure MaterializerState where
  jobs : List ScheduledJob
  tasks : List NewOccurrence := []
  recorded : List NewOccurrence := []
  discarded : Nat → Nat := fun _ => 0

def claimDueJobs (pass : Pass) (jobs : List ScheduledJob) : List ScheduledJob :=
  jobs.filter fun job => job.id ∈ pass.ids ∧
    job.nextRunAt.any fun nextRunAt => nextRunAt ≤ pass.now + pass.options.lookaheadSeconds * 1000

def advanceJob (planned : List PlannedJob) (job : ScheduledJob) : ScheduledJob :=
  match planned.find? fun entry => entry.job.id = job.id with
  | none => job
  | some entry => { job with nextRunAt := entry.plan.nextRunAt, lastFiredAt := entry.plan.lastFiredAt }

def skippedOf (planned : List PlannedJob) (id : Nat) : Nat :=
  ((planned.filter fun entry => entry.job.id = id).map fun entry => entry.plan.skippedOccurrences).sum

section Materialize

variable {C : Type} (lib : CronLibrary C) (defaultTimezone : String)

def planOrDeferJobs (pass : Pass) (s : MaterializerState) : List PlannedJob :=
  (claimDueJobs pass s.jobs).map (planOrDeferJob lib defaultTimezone pass)

def materialize (pass : Pass) (s : MaterializerState) : MaterializerState :=
  let occurrencesPlanned := applyCoalesceOwnerPolicy (planOrDeferJobs lib defaultTimezone pass s)
  let (tasks, created) := insertIgnoringDuplicates s.tasks (toNewOccurrences occurrencesPlanned pass.now)
  { jobs := s.jobs.map (advanceJob occurrencesPlanned)
    tasks
    recorded := s.recorded ++ created
    discarded := fun id => s.discarded id + skippedOf occurrencesPlanned id }

end Materialize

inductive MaterializerAction where
  | materialize (pass : Pass)
  | delete (rows : List (Nat × Int))
  | updateMisfirePolicy (ids : List Nat) (policy : ScheduledJobMisfirePolicy) (graceSeconds : Int)

namespace MaterializerState

variable {C : Type} (lib : CronLibrary C) (defaultTimezone : String)

def step (s : MaterializerState) : MaterializerAction → Option MaterializerState
  | .materialize pass => some (materialize lib defaultTimezone pass s)
  | .delete rows => some { s with tasks := s.tasks.filter fun task => (task.jobId, task.scheduledFor) ∉ rows }
  | .updateMisfirePolicy ids misfirePolicy misfireGraceSeconds =>
    some { s with
      jobs := s.jobs.map fun job => if job.id ∈ ids then { job with misfirePolicy, misfireGraceSeconds } else job }

/-- Provisioned jobs of which no pass has claimed one yet. -/
structure Initial (s : MaterializerState) : Prop where
  ids : (s.jobs.map ScheduledJob.id).Nodup
  tasks : s.tasks = []
  recorded : s.recorded = []
  discarded : ∀ id, s.discarded id = 0

end MaterializerState

def materializerSystem {C : Type} (lib : CronLibrary C) (defaultTimezone : String) :
    TransitionSystem MaterializerState MaterializerAction :=
  ⟨MaterializerState.Initial, MaterializerState.step lib defaultTimezone⟩

variable {C : Type} {lib : CronLibrary C} {tz : String} {schedule : Schedule} {first : Int}

/-- The values are the fires of a schedule from the one with number `n` on. -/
def FiresFrom (fire : Nat → Option Int) (n : Nat) (due : List Int) : Prop :=
  ∀ i t, due[i]? = some t → fire (n + i) = some t

theorem FiresFrom.cons {fire : Nat → Option Int} {n : Nat} {t : Int} {due : List Int} (h : fire n = some t)
    (hd : FiresFrom fire (n + 1) due) : FiresFrom fire n (t :: due) := by
  intro i t' hi
  cases i with
  | zero =>
    obtain rfl : t = t' := by simpa using hi
    exact h
  | succ i =>
    rw [Nat.add_succ, ← Nat.succ_add]
    exact hd i t' (by simpa using hi)

theorem dueFires_firesFrom (windowEnd : Int) {cap n : Nat} {f : Fires C} {due : List Int} {fire : Option Int}
    (hf : nthFires lib schedule first n = some f) (h : dueFires lib windowEnd cap f = .ok (due, fire)) :
    FiresFrom (fireAt lib schedule first) n due ∧ fireAt lib schedule first (n + due.length) = fire := by
  have hn : fireAt lib schedule first n = some f.value := by simp [fireAt, hf]
  have hstop : FiresFrom (fireAt lib schedule first) n [] := fun i t hi => by simp at hi
  induction cap generalizing n f due fire with
  | zero =>
    cases h
    exact ⟨hstop, hn⟩
  | succ cap ih =>
    rw [dueFires] at h
    split at h
    · cases hnext : f.next lib with
      | error => simp [hnext, bind, Except.bind] at h
      | ok x =>
        have hsucc := nthFires_succ hf hnext
        simp only [hnext, bind, Except.bind] at h
        cases x with
        | none =>
          cases h
          exact ⟨.cons hn fun i t hi => by simp at hi, by simp [fireAt, hsucc]⟩
        | some f' =>
          cases hrest : dueFires lib windowEnd cap f' with
          | error => simp [hrest] at h
          | ok r =>
            simp only [hrest, Except.ok.injEq, Prod.mk.injEq] at h
            obtain ⟨rfl, rfl⟩ := h
            obtain ⟨hd, hl⟩ := ih hsucc hrest (by simp [fireAt, hsucc]) fun i t hi => by simp at hi
            refine ⟨.cons hn hd, ?_⟩
            rw [List.length_cons, Nat.add_succ, ← Nat.succ_add]
            exact hl
    · cases h
      exact ⟨hstop, hn⟩

theorem FiresFrom.pairwise (hl : lib.Lawful) {n : Nat} {due : List Int}
    (h : FiresFrom (fireAt lib schedule first) n due) : due.Pairwise (· < ·) := by
  rw [List.pairwise_iff_getElem]
  intro i j hi hj hij
  exact fireAt_lt hl (Nat.add_lt_add_left hij n) (h i _ (List.getElem?_eq_getElem hi))
    (h j _ (List.getElem?_eq_getElem hj))

theorem filter_le_eq_take {now : Int} {due : List Int} (h : due.Pairwise (· < ·)) :
    due.filter (· ≤ now) = due.take (due.filter (· ≤ now)).length := by
  induction due with
  | nil => rfl
  | cons t due ih =>
    obtain ⟨hlt, hp⟩ := List.pairwise_cons.1 h
    by_cases ht : t ≤ now
    · simp only [ht, decide_true, List.filter_cons_of_pos, List.length_cons, List.take_succ_cons]
      rw [← ih hp]
    · have hnone : due.filter (· ≤ now) = [] := by
        rw [List.filter_eq_nil_iff]
        intro t' ht'
        have := hlt t' ht'
        simp only [decide_eq_true_eq]
        omega
      simp [ht, hnone]

theorem applyMisfirePolicy_sublist {now : Int} {job : ScheduledJob} {truncated : Bool} {due occurrences : List Int}
    {catchUpAt : Option Int} (hp : due.Pairwise (· < ·))
    (h : applyMisfirePolicy due now job truncated = .ok (occurrences, catchUpAt)) : occurrences.Sublist due := by
  have htake : due.filter (· ≤ now) = due.take (due.filter (· ≤ now)).length := filter_le_eq_take hp
  simp only [applyMisfirePolicy] at h
  generalize due.filter (· ≤ now) = behind at h htake
  have hsplit : behind ++ due.drop behind.length = due := by
    have h := List.take_append_drop behind.length due
    rwa [← htake] at h
  have hahead : (due.drop behind.length).Sublist due := List.drop_sublist _ _
  cases hb : behind.head? with
  | none =>
    simp only [hb, Except.ok.injEq, Prod.mk.injEq] at h
    exact h.1 ▸ List.Sublist.refl _
  | some oldest =>
    have hlate : (behind.getLast?.getD oldest :: due.drop behind.length).Sublist due := by
      cases hlast : behind.getLast? with
      | none => simp [List.getLast?_eq_none_iff.1 hlast] at hb
      | some t =>
        have hs : ([t] ++ due.drop behind.length).Sublist (behind ++ due.drop behind.length) :=
          (List.singleton_sublist.2 (List.mem_of_getLast? hlast)).append (List.Sublist.refl _)
        rw [hsplit] at hs
        exact hs
    simp only [hb] at h
    split at h
    · cases h
      exact List.Sublist.refl _
    · split at h
      · split at h
        · cases h
          exact List.nil_sublist _
        · cases h
          exact hlate
      · split at h
        · cases h
          exact List.nil_sublist _
        · cases h
          exact hlate
      · cases h
        exact hahead
      · cases h

/-- A plan from the fire with number `n`: it passes `due` fires, records some of them and counts the others. -/
structure PlanFrom (fire : Nat → Option Int) (n : Nat) (plan : OccurrencePlan) (due : List Int) : Prop where
  fires : FiresFrom fire n due
  next : plan.nextRunAt = fire (n + due.length)
  sublist : plan.occurrences.Sublist due
  skipped : plan.occurrences.length + plan.skippedOccurrences = due.length

/-- Where the clock of a job stands: at the fire with number `n`, or at its first value. -/
def ClockAt (fire : Nat → Option Int) (first : Int) (n : Nat) (clock : Option Int) : Prop :=
  clock = fire n ∨ n = 0 ∧ clock = some first

def jobFire (lib : CronLibrary C) (tz : String) (job : ScheduledJob) (first : Int) (k : Nat) : Option Int :=
  (resolveSchedule job tz).toOption.bind fun schedule => fireAt lib schedule first k

theorem planOccurrences_planFrom (hl : lib.Lawful) {job : ScheduledJob} {now clock : Int}
    {options : MaterializerOptions} {plan : OccurrencePlan} {n : Nat} (hclock : job.nextRunAt = some clock)
    (hat : ClockAt (jobFire lib tz job first) first n job.nextRunAt)
    (h : planOccurrences lib job now options tz = .ok plan) : ∃ due, PlanFrom (jobFire lib tz job first) n plan due := by
  cases hres : resolveSchedule job tz with
  | error => simp [planOccurrences, hres, bind, Except.bind] at h
  | ok schedule =>
    have hfire : jobFire lib tz job first = fireAt lib schedule first := by
      funext k
      simp [jobFire, hres, Except.toOption]
    rw [hfire] at hat ⊢
    cases hocc : occurrencesFrom lib schedule clock with
    | error => simp [planOccurrences, hres, hclock, hocc, bind, Except.bind] at h
    | ok f =>
      have hf : nthFires lib schedule first n = some f := by
        rcases hat with hat | ⟨rfl, hat⟩
        · obtain ⟨g, hg, hv⟩ := Option.map_eq_some_iff.1 (hat.symm.trans hclock)
          have hr := nthFires_restarts hl hg
          rw [hv, hocc] at hr
          rw [hg, Except.ok.inj hr]
        · obtain rfl := Option.some.inj (hclock.symm.trans hat)
          simp [nthFires, hocc, Except.toOption]
      cases hdue : dueFires lib (now + options.windowSeconds * 1000) options.maxPerJob f with
      | error => simp [planOccurrences, hres, hclock, hocc, hdue, bind, Except.bind] at h
      | ok r =>
        obtain ⟨due, fire⟩ := r
        obtain ⟨hfires, hnext⟩ := dueFires_firesFrom _ hf hdue
        simp only [planOccurrences, hres, hclock, hocc, hdue, bind, Except.bind] at h
        split at h
        · cases h
        · next r hpolicy =>
          obtain ⟨occurrences, catchUpAt⟩ := r
          cases h
          have hsub := applyMisfirePolicy_sublist (hfires.pairwise hl) hpolicy
          exact ⟨due, hfires, hnext.symm, hsub, Nat.add_sub_cancel' hsub.length_le⟩

end N8n.Scheduler
