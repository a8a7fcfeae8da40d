import N8n.Concurrency.ActiveExecutions
import Mathlib.Data.List.Basic

namespace N8n.QueueRecovery

open N8n.Concurrency (ExecutionStatus)

abbrev ExecutionId := Nat

abbrev MainId := Nat

def DEFAULT_QUEUE_NAME : String := "jobs"

structure ExecutionRow where
  id : ExecutionId
  status : ExecutionStatus
  startedAt : Option Nat
  stoppedAt : Option Nat
  waitTill : Option Nat
  deletedAt : Option Nat
  deriving DecidableEq

/-- The descending order of a date column; a database puts the rows without the date at one of the ends. -/
def descending (nullsFirst : Bool) : Option Nat → Option Nat → Bool
  | some a, some b => decide (b ≤ a)
  | none, some _ => nullsFirst
  | some _, none => !nullsFirst
  | none, none => true

def getInProgressExecutionIds (nullsFirst : Bool) (rows : List ExecutionRow) (batchSize : Nat) : List ExecutionId :=
  let inProgress := rows.filter fun row => row.deletedAt.isNone && (row.status = .new || row.status = .running)
  ((inProgress.mergeSort fun a b => descending nullsFirst a.startedAt b.startedAt).take batchSize).map (·.id)

def CRASHABLE_EXECUTION_STATUSES : List ExecutionStatus := [.new, .running, .unknown]

def MAX_UPDATE_BATCH_SIZE : Nat := 900

def transitionToCrashed (stoppedAt : Nat) (batch : List ExecutionId) (rows : List ExecutionRow) : List ExecutionRow :=
  rows.map fun row =>
    if row.id ∈ batch ∧ row.status ∈ CRASHABLE_EXECUTION_STATUSES then
      { row with status := .crashed, stoppedAt := some stoppedAt, waitTill := none }
    else row

inductive JobStatus
  | waiting | active | completed | failed
  deriving DecidableEq

def JobStatus.isLive : JobStatus → Bool
  | .waiting | .active => true
  | .completed | .failed => false

structure Job where
  queueName : String
  executionId : ExecutionId
  status : JobStatus

def getJobs (queueName : String) (jobs : List Job) : List ExecutionId :=
  (jobs.filter fun job => job.queueName = queueName && job.status.isLive).map (·.executionId)

variable {nullsFirst : Bool} {rows : List ExecutionRow} {jobs : List Job} {batchSize stoppedAt : Nat} {id : ExecutionId}

theorem mem_getInProgressExecutionIds (h : id ∈ getInProgressExecutionIds nullsFirst rows batchSize) :
    ∃ row ∈ rows, row.id = id := by
  obtain ⟨row, hrow, rfl⟩ := List.mem_map.1 h
  have hsorted := List.mem_of_mem_take hrow
  exact ⟨row, (List.mem_filter.1 (List.mem_mergeSort.1 hsorted)).1, rfl⟩

theorem mem_getJobs {queueName : String} :
    id ∈ getJobs queueName jobs ↔
      ∃ job ∈ jobs, job.executionId = id ∧ job.queueName = queueName ∧ job.status.isLive := by
  simp only [getJobs, List.mem_map, List.mem_filter, Bool.and_eq_true, decide_eq_true_eq]
  constructor
  · rintro ⟨job, ⟨hjob, hq, hl⟩, rfl⟩
    exact ⟨job, hjob, rfl, hq, hl⟩
  · rintro ⟨job, hjob, rfl, hq, hl⟩
    exact ⟨job, ⟨hjob, hq, hl⟩, rfl⟩

theorem mem_transitionToCrashed {batch : List ExecutionId} {row : ExecutionRow}
    (h : row ∈ transitionToCrashed stoppedAt batch rows) : ∃ row' ∈ rows, row'.id = row.id := by
  obtain ⟨row', hrow', rfl⟩ := List.mem_map.1 h
  refine ⟨row', hrow', ?_⟩
  split <;> rfl

/-- The row goes from another status to `crashed`. -/
def Crashed (rows rows' : List ExecutionRow) (i : Nat) (row : ExecutionRow) : Prop :=
  rows[i]? = some row ∧ row.status ≠ .crashed ∧ rows'[i]?.map (·.status) = some .crashed

instance (rows rows' : List ExecutionRow) (i : Nat) (row : ExecutionRow) : Decidable (Crashed rows rows' i row) :=
  inferInstanceAs (Decidable (_ ∧ _ ∧ _))

theorem Crashed.mem_batch {batch : List ExecutionId} {i : Nat} {row : ExecutionRow}
    (h : Crashed rows (transitionToCrashed stoppedAt batch rows) i row) : row.id ∈ batch := by
  obtain ⟨hrow, hstatus, hcrashed⟩ := h
  rw [transitionToCrashed, List.getElem?_map, hrow, Option.map_some, Option.map_some, Option.some.injEq] at hcrashed
  by_cases hb : row.id ∈ batch
  · exact hb
  · rw [if_neg fun h => hb h.1] at hcrashed
    exact absurd hcrashed hstatus

end N8n.QueueRecovery
