import N8n.QueueRecovery.Executions

namespace N8n.QueueRecovery

open N8n.Lib N8n.Concurrency

structure Enqueuing where
  main : MainId
  executionId : ExecutionId
  queueName : String

/-- A call of `recoverFromQueue` in a main. -/
inductive Pass
  /-- `findJobsByStatus` has read the jobs of the first `queuesRead` queues that the main knows. -/
  | reading (main : MainId) (storedIds : List ExecutionId) (queuesRead : Nat) (queuedIds : List ExecutionId)
  /-- `markAsCrashed` still has these ids to update. -/
  | marking (main : MainId) (danglingIds : List ExecutionId)
  | done

namespace Pass

def main : Pass → Option MainId
  | .reading main _ _ _ | .marking main _ => some main
  | .done => none

def ids : Pass → List ExecutionId
  | .reading _ storedIds _ _ => storedIds
  | .marking _ danglingIds => danglingIds
  | .done => []

def danglingIds : Pass → List ExecutionId
  | .marking _ danglingIds => danglingIds
  | .reading .. | .done => []

end Pass

/-- The processes together with the database and the queues; `nextId` is the next id of the table. -/
structure Cluster where
  rows : List ExecutionRow
  nextId : ExecutionId
  jobs : List Job
  queueByName : MainId → List String
  enqueuing : List Enqueuing
  passes : List Pass

inductive Action
  | setupQueue (main : MainId)
  /-- The row of a new execution is written. -/
  | createExecution (main : MainId) (queueName : String)
  /-- The row of a waiting execution is set to running by the main that resumes it. -/
  | resumeExecution (main : MainId) (row : Nat) (queueName : String)
  /-- `addJob` takes its queue from the queues of the main, or creates it. -/
  | getOrCreateQueue (enqueuing : Nat)
  | addJob (enqueuing : Nat)
  /-- The queue refuses the job: the execution ends with an error. -/
  | addJobFails (enqueuing : Nat)
  | mainDies (main : MainId)
  /-- Any other write of a row by a main or a worker. -/
  | updateRow (row : Nat) (written : ExecutionRow)
  | deleteRow (row : Nat)
  /-- A job is picked up, finished, or put back after a stall. -/
  | moveJob (job : Nat) (status : JobStatus)
  | removeJob (job : Nat)
  | readInProgress (main : MainId)
  | readQueue (pass : Nat)
  | queuesRead (pass : Nat)
  | updateBatch (pass : Nat) (now : Nat)
  | passFails (pass : Nat)

namespace Cluster

def Queued (s : Cluster) (id : ExecutionId) : Prop := ∃ job ∈ s.jobs, job.executionId = id ∧ job.status.isLive

def ToBeQueued (s : Cluster) (id : ExecutionId) : Prop := ∃ e ∈ s.enqueuing, e.executionId = id

/-- The queues of a main after `getOrCreateQueue`. -/
def getOrCreateQueue (s : Cluster) (main : MainId) (queueName : String) : MainId → List String :=
  if queueName ∈ s.queueByName main then s.queueByName
  else Function.update s.queueByName main (s.queueByName main ++ [queueName])

variable (nullsFirst : Bool) (batchSize : Nat)

def recoverFromQueue (main : MainId) (storedIds queuedIds : List ExecutionId) : Pass :=
  let danglingIds := storedIds.filter fun id => !queuedIds.contains id
  if danglingIds.length = 0 then .done else .marking main danglingIds.eraseDups

def markAsCrashed (main : MainId) (danglingIds : List ExecutionId) : Pass :=
  if danglingIds.length ≤ MAX_UPDATE_BATCH_SIZE then .done else .marking main (danglingIds.drop MAX_UPDATE_BATCH_SIZE)

def endPassesOf (main : MainId) (passes : List Pass) : List Pass :=
  passes.map fun pass => if pass.main = some main then .done else pass

def step (s : Cluster) : Action → Option Cluster
  | .setupQueue main =>
    if s.queueByName main = [] then
      some { s with queueByName := Function.update s.queueByName main [DEFAULT_QUEUE_NAME] }
    else none
  | .createExecution main queueName =>
    some { s with
      rows := s.rows ++ [⟨s.nextId, .new, none, none, none, none⟩]
      nextId := s.nextId + 1
      enqueuing := s.enqueuing ++ [⟨main, s.nextId, queueName⟩] }
  | .resumeExecution main i queueName =>
    match s.rows[i]? with
    | some row =>
      -- the update of the row requires the status `waiting`
      if row.status = .waiting then
        some { s with
          rows := s.rows.set i { row with status := .running }
          enqueuing := s.enqueuing ++ [⟨main, row.id, queueName⟩] }
      else none
    | none => none
  | .getOrCreateQueue k =>
    match s.enqueuing[k]? with
    | some e =>
      if s.queueByName e.main = [] then none
      else some { s with queueByName := s.getOrCreateQueue e.main e.queueName }
    | none => none
  | .addJob k =>
    match s.enqueuing[k]? with
    | some e =>
      if e.queueName ∈ s.queueByName e.main then
        some { s with
          jobs := s.jobs ++ [⟨e.queueName, e.executionId, .waiting⟩]
          enqueuing := s.enqueuing.eraseIdx k }
      else none
    | none => none
  | .addJobFails k =>
    match s.enqueuing[k]? with
    | some e =>
      some { s with
        rows := s.rows.map fun row => if row.id = e.executionId then { row with status := .error } else row
        enqueuing := s.enqueuing.eraseIdx k }
    | none => none
  | .mainDies main =>
    some { s with
      queueByName := Function.update s.queueByName main []
      enqueuing := s.enqueuing.filter fun e => e.main ≠ main
      passes := endPassesOf main s.passes }
  | .updateRow i written =>
    match s.rows[i]? with
    | some row => some { s with rows := s.rows.set i { written with id := row.id } }
    | none => none
  | .deleteRow i => some { s with rows := s.rows.eraseIdx i }
  | .moveJob j status =>
    match s.jobs[j]? with
    | some job => if job.status.isLive then some { s with jobs := s.jobs.set j { job with status } } else none
    | none => none
  | .removeJob j => some { s with jobs := s.jobs.eraseIdx j }
  | .readInProgress main =>
    let storedIds := getInProgressExecutionIds nullsFirst s.rows batchSize
    some { s with passes := s.passes ++ [if storedIds.length = 0 then .done else .reading main storedIds 0 []] }
  | .readQueue p =>
    match s.passes[p]? with
    | some (.reading main storedIds n queuedIds) =>
      match (s.queueByName main)[n]? with
      | some queueName =>
        let pass := .reading main storedIds (n + 1) (queuedIds ++ getJobs queueName s.jobs)
        some { s with passes := s.passes.set p pass }
      | none => none
    | _ => none
  | .queuesRead p =>
    match s.passes[p]? with
    | some (.reading main storedIds n queuedIds) =>
      if n = (s.queueByName main).length then
        some { s with passes := s.passes.set p (recoverFromQueue main storedIds queuedIds) }
      else none
    | _ => none
  | .updateBatch p now =>
    match s.passes[p]? with
    | some (.marking main danglingIds) =>
      some { s with
        rows := transitionToCrashed now (danglingIds.take MAX_UPDATE_BATCH_SIZE) s.rows
        passes := s.passes.set p (markAsCrashed main danglingIds) }
    | _ => none
  | .passFails p => some { s with passes := s.passes.set p .done }

def empty : Cluster := ⟨[], 0, [], fun _ => [], [], []⟩

def system : TransitionSystem Cluster Action where
  init s := s = empty
  step := step nullsFirst batchSize

def PassedOver (s : Cluster) (id : ExecutionId) (queueName : String) : Pass → Prop
  | .reading main storedIds n queuedIds =>
    id ∈ storedIds ∧ id ∉ queuedIds ∧ queueName ∈ (s.queueByName main).take n
  | .marking .. | .done => False

def Complete (s : Cluster) : Pass → Prop
  | .reading main storedIds _ queuedIds =>
    (∀ e ∈ s.enqueuing, e.executionId ∈ storedIds → e.executionId ∈ queuedIds) ∧
      ∀ job ∈ s.jobs, job.status.isLive → job.executionId ∈ storedIds → job.executionId ∉ queuedIds →
        job.queueName ∈ s.queueByName main
  | .marking .. | .done => True

/--
No job is added behind the back of a pass, no execution is resumed between the reads and the updates of a pass, and
no pass is done with its reads while an execution that it misses is on its way to a queue, or in a queue of others.
-/
def Timely (s : Cluster) : Action → Prop
  | .addJob k => ∀ e ∈ s.enqueuing[k]?, ∀ pass ∈ s.passes, ¬ s.PassedOver e.executionId e.queueName pass
  | .resumeExecution _ i _ => ∀ row ∈ s.rows[i]?, ∀ pass ∈ s.passes, row.id ∉ pass.danglingIds
  | .queuesRead p => ∀ pass ∈ s.passes[p]?, s.Complete pass
  | _ => True

instance (s : Cluster) (id : ExecutionId) : Decidable (s.Queued id) :=
  inferInstanceAs (Decidable (∃ job ∈ s.jobs, _ ∧ _))

instance (s : Cluster) (id : ExecutionId) : Decidable (s.ToBeQueued id) :=
  inferInstanceAs (Decidable (∃ e ∈ s.enqueuing, _))

instance (s : Cluster) (id : ExecutionId) (queueName : String) (pass : Pass) :
    Decidable (s.PassedOver id queueName pass) := by
  unfold PassedOver
  split <;> infer_instance

instance (s : Cluster) (pass : Pass) : Decidable (s.Complete pass) := by
  unfold Complete
  split <;> infer_instance

instance (s : Cluster) (action : Action) : Decidable (s.Timely action) := by
  unfold Timely
  split <;> infer_instance

def Bounded (s : Cluster) : Pass → Prop
  | .reading main _ n _ => n ≤ (s.queueByName main).length
  | .marking .. | .done => True

structure Sound (s : Cluster) (pass : Pass) : Prop where
  lt_nextId : ∀ id ∈ pass.ids, id < s.nextId
  bounded : s.Bounded pass
  not_passedOver : ∀ job ∈ s.jobs, job.status.isLive → ¬ s.PassedOver job.executionId job.queueName pass
  not_queued : ∀ id ∈ pass.danglingIds, ¬ s.Queued id
  not_toBeQueued : ∀ id ∈ pass.danglingIds, ¬ s.ToBeQueued id

structure Inv (s : Cluster) : Prop where
  row_lt : ∀ row ∈ s.rows, row.id < s.nextId
  sound : ∀ pass ∈ s.passes, s.Sound pass

variable {nullsFirst batchSize} {s s' t : Cluster} {action : Action} {pass : Pass} {main : MainId}

theorem Sound.done : s.Sound .done :=
  ⟨nofun, trivial, fun _ _ _ h => h, nofun, nofun⟩

theorem take_of_isPrefix {l l' : List String} {n : Nat} (h : List.IsPrefix l l') (hn : n ≤ l.length) :
    l'.take n = l.take n := by
  obtain ⟨r, rfl⟩ := h
  exact List.take_append_of_le_length hn

theorem Sound.mono (h : s.Sound pass) (hn : s.nextId ≤ t.nextId)
    (hq : ∀ main ∈ pass.main, List.IsPrefix (s.queueByName main) (t.queueByName main))
    (hj : ∀ job ∈ t.jobs, job.status.isLive →
      (∃ job' ∈ s.jobs, job'.executionId = job.executionId ∧ job'.queueName = job.queueName ∧ job'.status.isLive) ∨
        ¬ s.PassedOver job.executionId job.queueName pass ∧ job.executionId ∉ pass.danglingIds)
    (he : ∀ e ∈ t.enqueuing, e ∈ s.enqueuing ∨ e.executionId ∉ pass.danglingIds) : t.Sound pass where
  lt_nextId id hid := Nat.lt_of_lt_of_le (h.lt_nextId id hid) hn
  bounded := by
    cases pass with
    | reading main storedIds n queuedIds => exact Nat.le_trans h.bounded (hq main rfl).length_le
    | marking | done => trivial
  not_passedOver := by
    intro job hjob hl
    have hs : ¬ s.PassedOver job.executionId job.queueName pass := by
      rcases hj job hjob hl with ⟨job', hjob', hid, hqn, hl'⟩ | ⟨hnot, -⟩
      · rw [← hid, ← hqn]
        exact h.not_passedOver job' hjob' hl'
      · exact hnot
    cases pass with
    | reading main storedIds n queuedIds =>
      rw [PassedOver, take_of_isPrefix (hq main rfl) h.bounded]
      exact hs
    | marking | done => exact id
  not_queued := by
    rintro id hid ⟨job, hjob, rfl, hl⟩
    rcases hj job hjob hl with ⟨job', hjob', hid', -, hl'⟩ | ⟨-, hnot⟩
    · exact h.not_queued _ hid ⟨job', hjob', hid', hl'⟩
    · exact hnot hid
  not_toBeQueued := by
    rintro id hid ⟨e, hen, rfl⟩
    rcases he e hen with hs | hnot
    · exact h.not_toBeQueued _ hid ⟨e, hs, rfl⟩
    · exact hnot hid

theorem Sound.shrink (h : s.Sound pass) (hn : t.nextId = s.nextId) (hq : t.queueByName = s.queueByName)
    (hj : ∀ job ∈ t.jobs, job.status.isLive →
      ∃ job' ∈ s.jobs, job'.executionId = job.executionId ∧ job'.queueName = job.queueName ∧ job'.status.isLive)
    (he : ∀ e ∈ t.enqueuing, e ∈ s.enqueuing) : t.Sound pass :=
  h.mono (Nat.le_of_eq hn.symm) (fun _ _ => hq ▸ List.prefix_rfl) (fun job hjob hl => .inl (hj job hjob hl))
    fun e hen => .inl (he e hen)

theorem Inv.row_lt_of {rows : List ExecutionRow} (h : s.Inv) (hr : ∀ row ∈ rows, ∃ row' ∈ s.rows, row'.id = row.id) :
    ∀ row ∈ rows, row.id < s.nextId := by
  intro row hrow
  obtain ⟨row', hrow', hid⟩ := hr row hrow
  exact hid ▸ h.row_lt row' hrow'

theorem Inv.writeRows {rows : List ExecutionRow} (h : s.Inv) (hr : ∀ row ∈ rows, ∃ row' ∈ s.rows, row'.id = row.id) :
    { s with rows }.Inv where
  row_lt := h.row_lt_of hr
  sound pass hpass := (h.sound pass hpass).shrink rfl rfl (fun job hjob hl => ⟨job, hjob, rfl, rfl, hl⟩) fun _ he => he

theorem mem_set_row {i : Nat} {row written : ExecutionRow} (hr : s.rows[i]? = some row) (hid : written.id = row.id) :
    ∀ r ∈ s.rows.set i written, ∃ r' ∈ s.rows, r'.id = r.id := by
  intro r hmem
  rcases List.mem_or_eq_of_mem_set hmem with hmem | rfl
  · exact ⟨r, hmem, rfl⟩
  · exact ⟨row, List.mem_of_getElem? hr, hid.symm⟩

theorem Inv.setPass {p : Nat} (h : s.Inv) (hp : s.Sound pass) : { s with passes := s.passes.set p pass }.Inv where
  row_lt := h.row_lt
  sound other hother := by
    have hs : s.Sound other := by
      rcases List.mem_or_eq_of_mem_set hother with hmem | rfl
      · exact h.sound other hmem
      · exact hp
    exact hs.shrink rfl rfl (fun job hjob hl => ⟨job, hjob, rfl, rfl, hl⟩) fun _ he => he

theorem Inv.createExecution {queueName : String} (h : s.Inv)
    (hs : step nullsFirst batchSize s (.createExecution main queueName) = some s') : s'.Inv := by
  cases hs
  refine ⟨?_, fun pass hpass => ?_⟩
  · intro row hrow
    rcases List.mem_append.1 hrow with hrow | hrow
    · exact Nat.lt_succ_of_lt (h.row_lt row hrow)
    · rw [List.mem_singleton.1 hrow]
      exact Nat.lt_succ_self _
  · have hsound := h.sound pass hpass
    refine hsound.mono (Nat.le_succ _) (fun _ _ => List.prefix_rfl)
      (fun job hjob hl => .inl ⟨job, hjob, rfl, rfl, hl⟩) fun e he => ?_
    rcases List.mem_append.1 he with he | he
    · exact .inl he
    · rw [List.mem_singleton.1 he]
      -- the id is fresh
      refine .inr fun hid => ?_
      cases pass with
      | marking main danglingIds => exact absurd (hsound.lt_nextId _ hid) (Nat.lt_irrefl _)
      | reading | done => cases hid

theorem Inv.resumeExecution {i : Nat} {queueName : String} (h : s.Inv)
    (hok : s.Timely (.resumeExecution main i queueName))
    (hs : step nullsFirst batchSize s (.resumeExecution main i queueName) = some s') : s'.Inv := by
  rw [step] at hs
  split at hs
  · next row hrow =>
    split at hs
    · cases hs
      refine ⟨h.row_lt_of (mem_set_row hrow rfl), fun pass hpass => ?_⟩
      refine (h.sound pass hpass).mono (Nat.le_refl _) (fun _ _ => List.prefix_rfl)
        (fun job hjob hl => .inl ⟨job, hjob, rfl, rfl, hl⟩) fun e he => ?_
      rcases List.mem_append.1 he with he | he
      · exact .inl he
      · rw [List.mem_singleton.1 he]
        exact .inr (hok row hrow pass hpass)
    · cases hs
  · cases hs

theorem isPrefix_getOrCreateQueue (s : Cluster) (main : MainId) (queueName : String) (other : MainId) :
    List.IsPrefix (s.queueByName other) (s.getOrCreateQueue main queueName other) := by
  rw [Cluster.getOrCreateQueue]
  split
  · exact List.prefix_rfl
  · by_cases ho : other = main
    · subst ho
      simp only [Function.update_self, List.prefix_append]
    · simp only [Function.update_of_ne ho, List.prefix_rfl]

theorem Inv.getOrCreateQueue {k : Nat} (h : s.Inv)
    (hs : step nullsFirst batchSize s (.getOrCreateQueue k) = some s') : s'.Inv := by
  rw [step] at hs
  split at hs
  · next e he =>
    split at hs
    · cases hs
    · cases hs
      refine ⟨h.row_lt, fun pass hpass => ?_⟩
      exact (h.sound pass hpass).mono (Nat.le_refl _) (fun _ _ => isPrefix_getOrCreateQueue s _ _ _)
        (fun job hjob hl => .inl ⟨job, hjob, rfl, rfl, hl⟩) fun e he => .inl he
  · cases hs

theorem Inv.addJob {k : Nat} (h : s.Inv) (hok : s.Timely (.addJob k))
    (hs : step nullsFirst batchSize s (.addJob k) = some s') : s'.Inv := by
  rw [step] at hs
  split at hs
  · next e he =>
    split at hs
    · cases hs
      refine ⟨h.row_lt, fun pass hpass => ?_⟩
      refine (h.sound pass hpass).mono (Nat.le_refl _) (fun _ _ => List.prefix_rfl) (fun job hjob hl => ?_)
        fun e he => .inl (List.mem_of_mem_eraseIdx he)
      rcases List.mem_append.1 hjob with hjob | hjob
      · exact .inl ⟨job, hjob, rfl, rfl, hl⟩
      · rw [List.mem_singleton.1 hjob]
        -- until now the main was going to add the job
        refine .inr ⟨hok e he pass hpass, fun hid => ?_⟩
        exact (h.sound pass hpass).not_toBeQueued _ hid ⟨e, List.mem_of_getElem? he, rfl⟩
    · cases hs
  · cases hs

theorem Inv.setupQueue (h : s.Inv) (hs : step nullsFirst batchSize s (.setupQueue main) = some s') : s'.Inv := by
  rw [step] at hs
  split at hs
  · next hempty =>
    cases hs
    refine ⟨h.row_lt, fun pass hpass => ?_⟩
    refine (h.sound pass hpass).mono (Nat.le_refl _) (fun other _ => ?_)
      (fun job hjob hl => .inl ⟨job, hjob, rfl, rfl, hl⟩) fun e he => .inl he
    by_cases ho : other = main
    · rw [ho, hempty]
      exact List.nil_prefix
    · have hsame := Function.update_of_ne ho [DEFAULT_QUEUE_NAME] s.queueByName
      exact hsame ▸ List.prefix_rfl
  · cases hs

theorem Inv.mainDies (h : s.Inv) (hs : step nullsFirst batchSize s (.mainDies main) = some s') : s'.Inv := by
  cases hs
  refine ⟨h.row_lt, fun pass hpass => ?_⟩
  obtain ⟨pass, hmem, rfl⟩ := List.mem_map.1 hpass
  by_cases hm : pass.main = some main
  · rw [if_pos hm]
    exact .done
  · rw [if_neg hm]
    refine (h.sound pass hmem).mono (Nat.le_refl _) (fun other ho => ?_)
      (fun job hjob hl => .inl ⟨job, hjob, rfl, rfl, hl⟩) fun e he => .inl (List.mem_of_mem_filter he)
    -- the pass runs in another main
    have hne : other ≠ main := fun heq => hm (heq ▸ ho)
    have hsame := Function.update_of_ne hne [] s.queueByName
    exact hsame ▸ List.prefix_rfl

theorem Inv.writeJobs {jobs : List Job} (h : s.Inv)
    (hj : ∀ job ∈ jobs, job.status.isLive →
      ∃ job' ∈ s.jobs, job'.executionId = job.executionId ∧ job'.queueName = job.queueName ∧ job'.status.isLive) :
    { s with jobs }.Inv :=
  ⟨h.row_lt, fun pass hpass => (h.sound pass hpass).shrink rfl rfl hj fun _ he => he⟩

theorem Inv.moveJob {j : Nat} {status : JobStatus} (h : s.Inv)
    (hs : step nullsFirst batchSize s (.moveJob j status) = some s') : s'.Inv := by
  rw [step] at hs
  split at hs
  · next moved hmoved =>
    split at hs
    · next hlive =>
      cases hs
      refine h.writeJobs fun job hjob hl => ?_
      rcases List.mem_or_eq_of_mem_set hjob with hjob | rfl
      · exact ⟨job, hjob, rfl, rfl, hl⟩
      · exact ⟨moved, List.mem_of_getElem? hmoved, rfl, rfl, hlive⟩
    · cases hs
  · cases hs

theorem Inv.addJobFails {k : Nat} (h : s.Inv) (hs : step nullsFirst batchSize s (.addJobFails k) = some s') :
    s'.Inv := by
  rw [step] at hs
  split at hs
  · next e he =>
    cases hs
    refine ⟨h.row_lt_of fun row hrow => ?_, fun pass hpass => ?_⟩
    · obtain ⟨row', hrow', rfl⟩ := List.mem_map.1 hrow
      refine ⟨row', hrow', ?_⟩
      split <;> rfl
    · exact (h.sound pass hpass).shrink rfl rfl (fun job hjob hl => ⟨job, hjob, rfl, rfl, hl⟩)
        fun _ he => List.mem_of_mem_eraseIdx he
  · cases hs

theorem Inv.readInProgress (h : s.Inv) (hs : step nullsFirst batchSize s (.readInProgress main) = some s') :
    s'.Inv := by
  cases hs
  refine ⟨h.row_lt, fun pass hpass => ?_⟩
  have hsound : s.Sound pass := by
    rcases List.mem_append.1 hpass with hpass | hpass
    · exact h.sound pass hpass
    · rw [List.mem_singleton.1 hpass]
      split
      · exact .done
      · refine ⟨fun id hid => ?_, Nat.zero_le _, fun _ _ _ hpassed => ?_, nofun, nofun⟩
        · obtain ⟨row, hrow, rfl⟩ := mem_getInProgressExecutionIds hid
          exact h.row_lt row hrow
        · cases hpassed.2.2
  exact hsound.shrink rfl rfl (fun job hjob hl => ⟨job, hjob, rfl, rfl, hl⟩) fun _ he => he

theorem Inv.readQueue {p : Nat} (h : s.Inv) (hs : step nullsFirst batchSize s (.readQueue p) = some s') : s'.Inv := by
  rw [step] at hs
  split at hs
  · next main storedIds n queuedIds hpass =>
    split at hs
    · next queueName hqueue =>
      cases hs
      have hsound := h.sound _ (List.mem_of_getElem? hpass)
      obtain ⟨hlt, hget⟩ := List.getElem?_eq_some_iff.1 hqueue
      refine h.setPass ⟨hsound.lt_nextId, hlt, fun job hjob hl hpassed => ?_, nofun, nofun⟩
      obtain ⟨hstored, hmissed, hread⟩ := hpassed
      rw [List.take_succ_eq_append_getElem hlt, hget, List.mem_append, List.mem_singleton] at hread
      rcases hread with hread | hlast
      · exact hsound.not_passedOver job hjob hl ⟨hstored, fun hin => hmissed (List.mem_append_left _ hin), hread⟩
      · exact hmissed (List.mem_append_right _ (mem_getJobs.2 ⟨job, hjob, rfl, hlast, hl⟩))
    · cases hs
  · cases hs

theorem Inv.queuesRead {p : Nat} (h : s.Inv) (hok : s.Timely (.queuesRead p))
    (hs : step nullsFirst batchSize s (.queuesRead p) = some s') : s'.Inv := by
  rw [step] at hs
  split at hs
  · next main storedIds n queuedIds hpass =>
    split at hs
    · next hall =>
      cases hs
      have hsound := h.sound _ (List.mem_of_getElem? hpass)
      obtain ⟨hplans, hjobs⟩ := hok _ hpass
      apply h.setPass
      rw [recoverFromQueue]
      split
      · exact .done
      · have hmem : ∀ id ∈ (storedIds.filter fun id => !queuedIds.contains id).eraseDups,
            id ∈ storedIds ∧ id ∉ queuedIds := by
          intro id hid
          simpa using hid
        refine ⟨fun id hid => hsound.lt_nextId id (hmem id hid).1, trivial, fun _ _ _ h => h, ?_, ?_⟩
        · rintro id hid ⟨job, hjob, rfl, hl⟩
          obtain ⟨hstored, hmissed⟩ := hmem _ hid
          refine hsound.not_passedOver job hjob hl ⟨hstored, hmissed, ?_⟩
          rw [hall, List.take_length]
          exact hjobs job hjob hl hstored hmissed
        · rintro id hid ⟨e, he, rfl⟩
          obtain ⟨hstored, hmissed⟩ := hmem _ hid
          exact hmissed (hplans e he hstored)
    · cases hs
  · cases hs

theorem Sound.markAsCrashed {danglingIds : List ExecutionId} (h : s.Sound (.marking main danglingIds)) :
    s.Sound (markAsCrashed main danglingIds) := by
  rw [Cluster.markAsCrashed]
  split
  · exact .done
  · exact ⟨fun id hid => h.lt_nextId id (List.mem_of_mem_drop hid), trivial, fun _ _ _ h => h,
      fun id hid => h.not_queued id (List.mem_of_mem_drop hid),
      fun id hid => h.not_toBeQueued id (List.mem_of_mem_drop hid)⟩

theorem Inv.updateBatch {p now : Nat} (h : s.Inv) (hs : step nullsFirst batchSize s (.updateBatch p now) = some s') :
    s'.Inv := by
  rw [step] at hs
  split at hs
  · next main danglingIds hpass =>
    cases hs
    have hset := h.setPass (p := p) (h.sound _ (List.mem_of_getElem? hpass)).markAsCrashed
    exact hset.writeRows fun row hrow => mem_transitionToCrashed hrow
  · cases hs

theorem Inv.step (h : s.Inv) (hok : s.Timely action) (hs : step nullsFirst batchSize s action = some s') : s'.Inv := by
  cases action with
  | setupQueue main => exact h.setupQueue hs
  | createExecution main queueName => exact h.createExecution hs
  | resumeExecution main i queueName => exact h.resumeExecution hok hs
  | getOrCreateQueue k => exact h.getOrCreateQueue hs
  | addJob k => exact h.addJob hok hs
  | addJobFails k => exact h.addJobFails hs
  | mainDies main => exact h.mainDies hs
  | updateRow i written =>
    rw [Cluster.step] at hs
    split at hs
    · next row hrow =>
      cases hs
      exact h.writeRows (mem_set_row hrow rfl)
    · cases hs
  | deleteRow i =>
    cases hs
    exact h.writeRows fun row hrow => ⟨row, List.mem_of_mem_eraseIdx hrow, rfl⟩
  | moveJob j status => exact h.moveJob hs
  | removeJob j =>
    cases hs
    exact h.writeJobs fun job hjob hl => ⟨job, List.mem_of_mem_eraseIdx hjob, rfl, rfl, hl⟩
  | readInProgress main => exact h.readInProgress hs
  | readQueue p => exact h.readQueue hs
  | queuesRead p => exact h.queuesRead hok hs
  | updateBatch p now => exact h.updateBatch hs
  | passFails p =>
    cases hs
    exact h.setPass .done

theorem Inv.empty : Cluster.empty.Inv := ⟨fun _ h => absurd h List.not_mem_nil, fun _ h => absurd h List.not_mem_nil⟩

theorem Inv.of_reachable (h : (system nullsFirst batchSize).Reachable Timely s) : s.Inv := by
  apply h.invariant
  · rintro _ rfl
    exact .empty
  · exact fun _ _ _ hok hs hstep => hs.step hok hstep

/-- In a run with timely steps, a pass crashes executions without a job and without a main that is to add one. -/
theorem crashed_dangling {p now i : Nat} {row : ExecutionRow}
    (h : (system nullsFirst batchSize).Reachable Timely s)
    (hs : step nullsFirst batchSize s (.updateBatch p now) = some s') (hcrashed : Crashed s.rows s'.rows i row) :
    ¬ s.Queued row.id ∧ ¬ s.ToBeQueued row.id := by
  have hinv := Inv.of_reachable h
  rw [step] at hs
  split at hs
  · next main danglingIds hpass =>
    cases hs
    have hsound := hinv.sound _ (List.mem_of_getElem? hpass)
    have hmem : row.id ∈ danglingIds := List.mem_of_mem_take hcrashed.mem_batch
    exact ⟨hsound.not_queued _ hmem, hsound.not_toBeQueued _ hmem⟩
  · cases hs

/-- The main dies between the row and the job. -/
theorem orphan_crashed :
    ∃ s s' row, (system true 2).Reachable Timely s ∧ step true 2 s (.updateBatch 0 5) = some s' ∧
      Crashed s.rows s'.rows 0 row ∧ ¬ s.Queued row.id ∧ ¬ s.ToBeQueued row.id := by
  let row : ExecutionRow := ⟨0, .new, none, none, none, none⟩
  have hrun : ((system true 2).run (fun s a => decide (Timely s a)) empty
      [.setupQueue 0, .setupQueue 1, .createExecution 0 "jobs", .mainDies 0, .readInProgress 1, .readQueue 0,
        .queuesRead 0]).any (fun s =>
          (step true 2 s (.updateBatch 0 5)).any fun s' => decide (Crashed s.rows s'.rows 0 row)) = true := by
    decide +kernel
  obtain ⟨s, hrun, hs⟩ := (Option.any_eq_true ..).1 hrun
  obtain ⟨s', hs', hcrashed⟩ := (Option.any_eq_true ..).1 hs
  have hcrashed := of_decide_eq_true hcrashed
  have hreach : (system true 2).Reachable Timely s :=
    ⟨empty, rfl, (TransitionSystem.run_leads hrun).mono fun _ _ => of_decide_eq_true⟩
  exact ⟨s, s', row, hreach, hs', hcrashed, crashed_dangling hreach hs' hcrashed⟩

/--
An execution is crashed while its job waits in the queue of a worker pool that the leader does not know, and another
one between its row and its job.
-/
theorem queued_crashed :
    (∃ s s' row, (system true 2).Reachable TransitionSystem.Any s ∧ step true 2 s (.updateBatch 0 5) = some s' ∧
      Crashed s.rows s'.rows 0 row ∧ s.Queued row.id) ∧
    ∃ s s' row, (system true 2).Reachable TransitionSystem.Any s ∧ step true 2 s (.updateBatch 0 5) = some s' ∧
      Crashed s.rows s'.rows 0 row ∧ s.ToBeQueued row.id := by
  let row : ExecutionRow := ⟨0, .new, none, none, none, none⟩
  constructor
  · have hrun : ((system true 2).run (fun _ _ => true) empty
        [.setupQueue 0, .setupQueue 1, .createExecution 0 "jobs-gpu", .getOrCreateQueue 0, .addJob 0,
          .readInProgress 1, .readQueue 0, .queuesRead 0]).any (fun s => (step true 2 s (.updateBatch 0 5)).any
            fun s' => decide (Crashed s.rows s'.rows 0 row ∧ s.Queued row.id)) = true := by
      decide +kernel
    obtain ⟨s, hrun, hs⟩ := (Option.any_eq_true ..).1 hrun
    obtain ⟨s', hs', hcrashed⟩ := (Option.any_eq_true ..).1 hs
    obtain ⟨hcrashed, hqueued⟩ := of_decide_eq_true hcrashed
    exact ⟨s, s', row, ⟨empty, rfl, (TransitionSystem.run_leads hrun).mono fun _ _ _ => trivial⟩, hs', hcrashed,
      hqueued⟩
  · have hrun : ((system true 2).run (fun _ _ => true) empty
        [.setupQueue 0, .setupQueue 1, .createExecution 0 "jobs", .readInProgress 1, .readQueue 0,
          .queuesRead 0]).any (fun s => (step true 2 s (.updateBatch 0 5)).any
            fun s' => decide (Crashed s.rows s'.rows 0 row ∧ s.ToBeQueued row.id)) = true := by
      decide +kernel
    obtain ⟨s, hrun, hs⟩ := (Option.any_eq_true ..).1 hrun
    obtain ⟨s', hs', hcrashed⟩ := (Option.any_eq_true ..).1 hs
    obtain ⟨hcrashed, hto⟩ := of_decide_eq_true hcrashed
    exact ⟨s, s', row, ⟨empty, rfl, (TransitionSystem.run_leads hrun).mono fun _ _ _ => trivial⟩, hs', hcrashed, hto⟩

end Cluster

end N8n.QueueRecovery
