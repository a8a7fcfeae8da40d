import N8n.Lib.ObjectMap
import N8n.Lib.OrderedSet
import N8n.Lib.Transition

/-!
The requester of tasks: the maps that tie its calls to the broker's answers, and the continuations of the calls.

A request id is the position of its call.
-/

namespace N8n.TaskRequester

open N8n.Lib

inductive TaskFailure (ξ : Type) where
  | error (error : ξ)
  /-- A `TaskCancelledError`. -/
  | cancelled (reason : String)
  deriving DecidableEq

inductive TaskAnswer (δ ξ : Type) where
  | accept (data : δ)
  | reject (failure : TaskFailure ξ)
  deriving DecidableEq

inductive Settlement (δ ξ : Type) where
  /-- The promise is rejected with a `TaskRequestTimeoutError`. -/
  | requestTimedOut
  | result (taskId : String) (answer : TaskAnswer δ ξ)
  deriving DecidableEq

/-- Where a call of `startTask` stands. -/
inductive CallPhase (δ ξ : Type) where
  /-- It awaits the task id. -/
  | requested
  /-- The task id is there, and the call has not gone on yet. -/
  | accepted (taskId : String)
  | expired
  /-- It awaits the result. -/
  | running (taskId : String)
  | answered (taskId : String) (answer : TaskAnswer δ ξ)
  | settled (settlement : Settlement δ ξ)
  deriving DecidableEq

structure Call (σ δ ξ : Type) where
  taskType : String
  settings : σ
  executionId : Option String
  phase : CallPhase δ ξ
  /-- `cancelTasks` was called for its execution since it started. -/
  cancelled : Bool
  deriving DecidableEq

inductive RequesterMessage (σ : Type) where
  | taskRequest (requestId : Nat) (taskType : String)
  | taskSettings (taskId : String) (settings : σ)
  | taskCancel (taskId : String) (reason : String)
  deriving DecidableEq

inductive BrokerMessage (δ ξ : Type) where
  | taskReady (requestId : Nat) (taskId : String)
  | requestExpired (requestId : Nat)
  | taskDone (taskId : String) (data : δ)
  | taskError (taskId : String) (error : ξ)
  deriving DecidableEq

structure RequesterState (σ δ ξ : Type) where
  calls : List (Call σ δ ξ)
  requestAcceptRejects : OrderedSet Nat
  /-- The call that a task's answer resolves. -/
  taskAcceptRejects : ObjectMap String Nat
  /-- The call that a task's data belong to. -/
  tasks : ObjectMap String Nat
  executionIdsToTaskIds : ObjectMap String (OrderedSet String)
  sent : List (RequesterMessage σ)
  received : List (BrokerMessage δ ξ)
  settlements : List (Nat × Settlement δ ξ)
  /-- The calls that sent their settings after their execution was cancelled. -/
  sentCancelled : List Nat

inductive RequesterAction (σ δ ξ : Type) where
  | startTask (taskType : String) (settings : σ) (executionId : Option String)
  | onMessage (message : BrokerMessage δ ξ)
  /-- The call goes on after the promise it awaits is settled. -/
  | resume (call : Nat)
  | cancelTasks (executionId : String)
  deriving DecidableEq

namespace CallPhase

variable {δ ξ : Type}

def acceptTask (taskId : String) : CallPhase δ ξ → CallPhase δ ξ
  | .requested => .accepted taskId
  | phase => phase

def rejectRequest : CallPhase δ ξ → CallPhase δ ξ
  | .requested => .expired
  | phase => phase

def answer (a : TaskAnswer δ ξ) : CallPhase δ ξ → CallPhase δ ξ
  | .running taskId => .answered taskId a
  | phase => phase

def task? : CallPhase δ ξ → Option String
  | .running taskId | .answered taskId _ => some taskId
  | _ => none

def isSettled : CallPhase δ ξ → Bool
  | .settled _ => true
  | _ => false

end CallPhase

/-- An empty execution id counts as none. -/
def truthy (executionId : Option String) : Option String := executionId.filter (· ≠ "")

def addTaskId (executionId? : Option String) (taskId : String) (m : ObjectMap String (OrderedSet String)) :
    ObjectMap String (OrderedSet String) :=
  match truthy executionId? with
  | some executionId => m.set executionId (((m.get? executionId).getD .empty).insert taskId)
  | none => m

/-- The task id leaves the first execution that has it. -/
def clearExecutionsMap (taskId : String) (m : ObjectMap String (OrderedSet String)) :
    ObjectMap String (OrderedSet String) :=
  match m.entries.find? fun e => taskId ∈ e.2.items with
  | none => m
  | some (executionId, taskIds) =>
    if (taskIds.erase taskId).size = 0 then m.erase executionId
    else m.set executionId (taskIds.erase taskId)

def requestNotFound : String :=
  "Request ID not found. In multi-main setup, it is possible for one of the mains to have reported ready state already."

namespace RequesterState

variable {σ δ ξ : Type} (s : RequesterState σ δ ξ)

def initial : RequesterState σ δ ξ := ⟨[], .empty, .empty, .empty, .empty, [], [], [], []⟩

def send (message : RequesterMessage σ) : RequesterState σ δ ξ := { s with sent := s.sent ++ [message] }

def setPhase (i : Nat) (f : CallPhase δ ξ → CallPhase δ ξ) : RequesterState σ δ ξ :=
  { s with calls := s.calls.modify i fun call => { call with phase := f call.phase } }

def startTask (taskType : String) (settings : σ) (executionId : Option String) : RequesterState σ δ ξ :=
  let call : Call σ δ ξ := ⟨taskType, settings, executionId, .requested, false⟩
  { s with
    calls := s.calls ++ [call]
    requestAcceptRejects := s.requestAcceptRejects.insert s.calls.length }.send (.taskRequest s.calls.length taskType)

def sendSettings (i : Nat) (call : Call σ δ ξ) (taskId : String) : RequesterState σ δ ξ :=
  ({ s with
    tasks := s.tasks.set taskId i
    executionIdsToTaskIds := addTaskId call.executionId taskId s.executionIdsToTaskIds
    taskAcceptRejects := s.taskAcceptRejects.set taskId i
    sentCancelled := if call.cancelled then s.sentCancelled ++ [i] else s.sentCancelled }.send
      (.taskSettings taskId call.settings)).setPhase i fun _ => .running taskId

def settle (i : Nat) (settlement : Settlement δ ξ) : RequesterState σ δ ξ :=
  { s with settlements := s.settlements ++ [(i, settlement)] }.setPhase i fun _ => .settled settlement

def resume (i : Nat) : Option (RequesterState σ δ ξ) := do
  let call ← s.calls[i]?
  match call.phase with
  | .accepted taskId => some (s.sendSettings i call taskId)
  | .expired => some (s.settle i .requestTimedOut)
  | .answered taskId answer =>
    some ({ s with
      tasks := s.tasks.erase taskId
      executionIdsToTaskIds := clearExecutionsMap taskId s.executionIdsToTaskIds }.settle i (.result taskId answer))
  | _ => none

def answerTask (taskId : String) (answer : TaskAnswer δ ξ) : RequesterState σ δ ξ :=
  match s.taskAcceptRejects.get? taskId with
  | some i => { s with taskAcceptRejects := s.taskAcceptRejects.erase taskId }.setPhase i (CallPhase.answer answer)
  | none => s

def cancelTask (taskId : String) (reason : String) : RequesterState σ δ ξ :=
  if s.tasks.has taskId then
    ({ s with tasks := s.tasks.erase taskId }.send (.taskCancel taskId reason)).answerTask taskId
      (.reject (.cancelled reason))
  else s

def getTaskIds (executionId : String) : OrderedSet String := (s.executionIdsToTaskIds.get? executionId).getD .empty

def markCancelled (executionId : String) : RequesterState σ δ ξ :=
  { s with
    calls := s.calls.map fun call =>
      { call with cancelled := call.cancelled || decide (call.executionId = some executionId) } }

def cancelTasks (executionId : String) : RequesterState σ δ ξ :=
  (s.getTaskIds executionId).items.foldl (fun s taskId => s.cancelTask taskId "Task cancelled by user")
    (s.markCancelled executionId)

def rejectTask (taskId reason : String) : RequesterState σ δ ξ := s.send (.taskCancel taskId reason)

def taskReady (requestId : Nat) (taskId : String) : RequesterState σ δ ξ :=
  if requestId ∈ s.requestAcceptRejects.items then
    { s with requestAcceptRejects := s.requestAcceptRejects.erase requestId }.setPhase requestId
      (CallPhase.acceptTask taskId)
  else s.rejectTask taskId requestNotFound

def requestExpired (requestId : Nat) : RequesterState σ δ ξ :=
  if requestId ∈ s.requestAcceptRejects.items then
    { s with requestAcceptRejects := s.requestAcceptRejects.erase requestId }.setPhase requestId CallPhase.rejectRequest
  else s

def taskDone (taskId : String) (data : δ) : RequesterState σ δ ξ := s.answerTask taskId (.accept data)

def taskError (taskId : String) (error : ξ) : RequesterState σ δ ξ := s.answerTask taskId (.reject (.error error))

def receive (message : BrokerMessage δ ξ) : RequesterState σ δ ξ := { s with received := s.received ++ [message] }

def onMessage (message : BrokerMessage δ ξ) : RequesterState σ δ ξ :=
  match message with
  | .taskReady requestId taskId => s.taskReady requestId taskId
  | .taskDone taskId data => s.taskDone taskId data
  | .taskError taskId error => s.taskError taskId error
  | .requestExpired requestId => s.requestExpired requestId

def step (s : RequesterState σ δ ξ) : RequesterAction σ δ ξ → Option (RequesterState σ δ ξ)
  | .startTask taskType settings executionId => some (s.startTask taskType settings executionId)
  | .onMessage message => some ((s.receive message).onMessage message)
  | .resume i => s.resume i
  | .cancelTasks executionId => some (s.cancelTasks executionId)

end RequesterState

def requester (σ δ ξ : Type) : TransitionSystem (RequesterState σ δ ξ) (RequesterAction σ δ ξ) where
  init s := s = .initial
  step := RequesterState.step

section Counting

variable {κ α : Type} [DecidableEq κ]

theorem countP_modify {β : Type} (p : β → Bool) (f : β → β) {l : List β} {i : Nat} {b : β} (h : l[i]? = some b) :
    (l.modify i f).countP p + (if p b then 1 else 0) = l.countP p + (if p (f b) then 1 else 0) := by
  induction l generalizing i with
  | nil => cases h
  | cons c l ih =>
    cases i with
    | zero =>
      cases h
      simp only [List.modify_zero_cons, List.countP_cons]
      omega
    | succ i =>
      have hrest := ih (i := i) h
      simp only [List.modify_succ_cons, List.countP_cons]
      omega

theorem countP_entries_set (p : κ × α → Bool) (m : ObjectMap κ α) (k : κ) (v : α) :
    (m.set k v).entries.countP p = (m.erase k).entries.countP p + (if p (k, v) then 1 else 0) := by
  rw [(m.set_perm k v).countP_eq p, List.countP_cons]

theorem countP_entries_of_get? (p : κ × α → Bool) {m : ObjectMap κ α} {k : κ} {v : α} (h : m.get? k = some v) :
    m.entries.countP p = (m.erase k).entries.countP p + (if p (k, v) then 1 else 0) := by
  rw [(m.entries_perm h).countP_eq p, List.countP_cons]

end Counting

def executionsOf (taskId : String) (m : ObjectMap String (OrderedSet String)) : Nat :=
  m.entries.countP fun e => taskId ∈ e.2.items

def NoneEmpty (m : ObjectMap String (OrderedSet String)) : Prop :=
  ∀ executionId taskIds, m.get? executionId = some taskIds → taskIds.size ≠ 0

theorem executionsOf_pos {taskId executionId : String} {m : ObjectMap String (OrderedSet String)}
    {taskIds : OrderedSet String} (h : m.get? executionId = some taskIds) (hm : taskId ∈ taskIds) :
    0 < executionsOf taskId m := by
  apply List.countP_pos_iff.2
  exact ⟨(executionId, taskIds), m.mem_entries.2 h, decide_eq_true hm⟩

theorem indicator_insert (taskIds : OrderedSet String) (taskId other : String) :
    (if other ∈ (taskIds.insert taskId).items then 1 else 0) ≤
      (if other ∈ taskIds.items then 1 else 0) + (if taskId = other then 1 else 0) := by
  by_cases hm : other ∈ (taskIds.insert taskId).items
  · obtain rfl | hold := OrderedSet.mem_insert.1 hm
    · simp [hm]
    · have hold : other ∈ taskIds.items := hold
      simp [hm, hold]
  · simp [hm]

theorem executionsOf_addTaskId (executionId? : Option String) (taskId other : String)
    (m : ObjectMap String (OrderedSet String)) :
    executionsOf other (addTaskId executionId? taskId m) ≤
      executionsOf other m + (if taskId = other then 1 else 0) := by
  rw [addTaskId]
  split
  · next executionId _ =>
    simp only [executionsOf, countP_entries_set, decide_eq_true_eq]
    cases hg : m.get? executionId with
    | none =>
      have hinsert := indicator_insert .empty taskId other
      have hempty : ¬ other ∈ (OrderedSet.empty : OrderedSet String).items := List.not_mem_nil
      rw [if_neg hempty] at hinsert
      rw [m.erase_of_get?_eq_none hg, Option.getD_none]
      omega
    | some taskIds =>
      have hinsert := indicator_insert taskIds taskId other
      simp only [countP_entries_of_get? _ hg, decide_eq_true_eq, Option.getD_some]
      omega
  · exact Nat.le_add_right _ _

theorem noneEmpty_addTaskId (executionId? : Option String) (taskId : String) {m : ObjectMap String (OrderedSet String)}
    (h : NoneEmpty m) : NoneEmpty (addTaskId executionId? taskId m) := by
  rw [addTaskId]
  split
  · intro executionId taskIds hg
    rw [ObjectMap.get?_set] at hg
    split at hg
    · cases hg
      intro hsize
      exact OrderedSet.size_eq_zero.1 hsize taskId (OrderedSet.mem_insert.2 (.inl rfl))
    · exact h executionId taskIds hg
  · exact h

theorem executionsOf_clear (taskId other : String) (m : ObjectMap String (OrderedSet String)) :
    executionsOf other (clearExecutionsMap taskId m) ≤ executionsOf other m - (if taskId = other then 1 else 0) := by
  rw [clearExecutionsMap]
  split
  · next hnone =>
    split
    · next ho =>
      subst ho
      have hzero : executionsOf taskId m = 0 := List.countP_eq_zero.2 (List.find?_eq_none.1 hnone)
      simp [hzero]
    · exact Nat.le_refl _
  · next executionId taskIds hsome =>
    have hm : taskId ∈ taskIds.items := by simpa using List.find?_some hsome
    have hg : m.get? executionId = some taskIds := m.mem_entries.1 (List.mem_of_find?_eq_some hsome)
    have hcount := countP_entries_of_get? (fun e => decide (other ∈ e.2.items)) hg
    have herase : (if other ∈ (taskIds.erase taskId).items then 1 else 0) =
        (if other ∈ taskIds.items then 1 else 0) - (if taskId = other then 1 else 0) := by
      by_cases ho : taskId = other
      · subst ho
        have hgone : ¬ taskId ∈ (taskIds.erase taskId).items := fun h => (OrderedSet.mem_erase.1 h).2 rfl
        simp [hgone, hm]
      · have hsame : other ∈ (taskIds.erase taskId).items ↔ other ∈ taskIds.items :=
          ⟨fun h => (OrderedSet.mem_erase.1 h).1, fun h => OrderedSet.mem_erase.2 ⟨h, Ne.symm ho⟩⟩
        simp [hsame, ho]
    have hle : (if taskId = other then 1 else 0) ≤ (if other ∈ taskIds.items then 1 else 0) := by
      by_cases ho : taskId = other
      · subst ho
        simp [hm]
      · simp [ho]
    simp only [executionsOf, hcount, decide_eq_true_eq]
    split
    · omega
    · simp only [countP_entries_set, decide_eq_true_eq, herase]
      omega

theorem noneEmpty_clear (taskId : String) {m : ObjectMap String (OrderedSet String)} (h : NoneEmpty m) :
    NoneEmpty (clearExecutionsMap taskId m) := by
  rw [clearExecutionsMap]
  split
  · exact h
  · split
    · intro executionId taskIds hg
      rw [ObjectMap.get?_erase] at hg
      split at hg
      · cases hg
      · exact h executionId taskIds hg
    · next hsize =>
      intro executionId taskIds hg
      rw [ObjectMap.get?_set] at hg
      split at hg
      · cases hg
        exact hsize
      · exact h executionId taskIds hg

end N8n.TaskRequester
