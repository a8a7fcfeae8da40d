import Mathlib.Logic.Function.Basic
import N8n.Lib.Transition

/-!
The registry of active executions, with the capacity that each `add` reserves. A call of `add` goes through its awaited
steps and then registers its execution; the callback on the post-execution promise gives the capacity back.
-/

namespace N8n.Concurrency

open N8n.Lib

inductive ExecutionStatus where
  | canceled
  | crashed
  | error
  | new
  | running
  | success
  | unknown
  | waiting
  deriving DecidableEq

inductive ExecutionsMode where
  | regular
  | queue
  deriving DecidableEq

inductive WorkflowExecuteMode where
  | chat
  | cli
  | error
  | evaluation
  | integrated
  | internal
  | manual
  | retry
  | trigger
  | webhook
  deriving DecidableEq

structure ResumableExecution where
  executionId : String
  expectedStatus : ExecutionStatus
  deriving DecidableEq

/-- What `add` awaits. -/
inductive AddStep where
  | create
  | reserve
  | updateExistingExecution
  | setRunning
  deriving DecidableEq

def reservation (mode : WorkflowExecuteMode) : List AddStep := if mode ≠ .evaluation then [.reserve] else []

def addSteps (executionsMode : ExecutionsMode) (mode : WorkflowExecuteMode) : Option ResumableExecution → List AddStep
  | none => .create :: (reservation mode ++ if executionsMode = .regular then [.setRunning] else [])
  | some existing =>
    reservation mode ++ .updateExistingExecution :: if existing.expectedStatus = .new then [.setRunning] else []

/-- `acquiredReservation` of a `ConcurrencyCapacityReservation`, and whether it was released. -/
inductive Reservation where
  | free
  | acquired
  | released
  deriving DecidableEq

/-- A call of `add` and the execution it registers. -/
inductive AddPhase where
  | adding (steps : List AddStep)
  | failed
  /-- Registered, with the post-execution promise pending. -/
  | active
  /-- The promise has settled, and its callback is still to run. -/
  | settled
  | removed
  deriving DecidableEq

structure Execution where
  executionId : String
  phase : AddPhase
  status : ExecutionStatus
  capacity : Reservation
  /-- A stop or a finalization of the execution came after it was registered. -/
  ended : Bool
  deriving DecidableEq

def Execution.Registered (e : Execution) : Prop := e.phase = .active ∨ e.phase = .settled ∨ e.phase = .removed

instance (e : Execution) : Decidable e.Registered := inferInstanceAs (Decidable (_ ∨ _))

/-- `release` of the reservation. -/
def Execution.release (e : Execution) : Execution :=
  if e.capacity = .acquired then { e with capacity := .released } else e

/-- The promise settles, unless it has already. -/
def Execution.settle (e : Execution) : Execution := if e.phase = .active then { e with phase := .settled } else e

/-- An awaited step has come back; `create` gives the id. -/
def Execution.after (e : Execution) (id : String) : AddStep → Execution
  | .create => { e with executionId := id }
  | .reserve => { e with capacity := .acquired }
  | _ => e

def Execution.endedBy (e : Execution) (executionId : String) : Execution :=
  if e.executionId = executionId ∧ e.Registered then { e with ended := true } else e

structure ActiveExecutions where
  executions : Nat → Option Execution
  /-- The number of calls of `add`. -/
  count : Nat
  activeExecutions : String → Option Nat
  /-- The calls whose capacity was given back, one entry for each call of `release` on the service. -/
  releases : List Nat

inductive ExecutionAction where
  | add (mode : WorkflowExecuteMode) (existing : Option ResumableExecution)
  /-- The step that a call of `add` awaits comes back, or it fails. -/
  | resolves (n : Nat) (id : String)
  | rejects (n : Nat)
  | setStatus (executionId : String) (status : ExecutionStatus)
  | stopExecution (executionId : String)
  | finalizeExecution (executionId : String)
  /-- The callback on the post-execution promise. -/
  | finally (n : Nat)
  deriving DecidableEq

namespace ActiveExecutions

def put (s : ActiveExecutions) (n : Nat) (e : Execution) : ActiveExecutions :=
  { s with executions := Function.update s.executions n (some e) }

def putReleased (s : ActiveExecutions) (n : Nat) (e : Execution) : ActiveExecutions :=
  { s.put n e.release with releases := if e.capacity = .acquired then n :: s.releases else s.releases }

def register (s : ActiveExecutions) (n : Nat) (e : Execution) : ActiveExecutions :=
  { s.put n { e with phase := .active, status := .running } with
    activeExecutions := Function.update s.activeExecutions e.executionId (some n) }

def ending (s : ActiveExecutions) (executionId : String) : ActiveExecutions :=
  { s with executions := fun n => (s.executions n).map fun e => e.endedBy executionId }

def unregister (s : ActiveExecutions) (executionId : String) : ActiveExecutions :=
  { s with activeExecutions := Function.update s.activeExecutions executionId none }

def step (executionsMode : ExecutionsMode) (s : ActiveExecutions) : ExecutionAction → Option ActiveExecutions
  | .add mode existing =>
    some { s.put s.count
      ⟨(existing.map ResumableExecution.executionId).getD "", .adding (addSteps executionsMode mode existing), .new,
        .free, false⟩ with count := s.count + 1 }
  | .resolves n id => do
      let e ← s.executions n
      -- An id that is empty fails an assertion.
      if id = "" then none else
      match e.phase with
      | .adding (step :: []) => some (s.register n (e.after id step))
      | .adding (step :: next :: rest) => some (s.put n { e.after id step with phase := .adding (next :: rest) })
      | _ => none
  | .rejects n => do
      let e ← s.executions n
      match e.phase with
      | .adding (.reserve :: _) => none
      | .adding (_ :: _) => some (s.putReleased n { e with phase := .failed })
      | _ => none
  | .setStatus executionId status =>
    match s.activeExecutions executionId with
    | none => some s
    | some n => (s.executions n).map fun e => s.put n { e with status }
  | .stopExecution executionId =>
    let s := s.ending executionId
    match s.activeExecutions executionId with
    | none => some s
    | some n => (s.executions n).map fun e =>
      -- A waiting execution is taken to have no valid promise.
      if e.status = .waiting then s.unregister executionId else s.put n e.settle
  | .finalizeExecution executionId =>
    let s := s.ending executionId
    match s.activeExecutions executionId with
    | none => some s
    | some n => (s.executions n).map fun e => s.put n e.settle
  | .finally n => do
      let e ← s.executions n
      if e.phase = .settled then
        let s := s.putReleased n { e with phase := .removed }
        some (if e.status = .waiting then s else s.unregister e.executionId)
      else none

def Initial (s : ActiveExecutions) : Prop :=
  s.executions = (fun _ => none) ∧ s.count = 0 ∧ s.activeExecutions = (fun _ => none) ∧ s.releases = []

end ActiveExecutions

def activeExecutions (executionsMode : ExecutionsMode) : TransitionSystem ActiveExecutions ExecutionAction where
  init := ActiveExecutions.Initial
  step := ActiveExecutions.step executionsMode

end N8n.Concurrency
