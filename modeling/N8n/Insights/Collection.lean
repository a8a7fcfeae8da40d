import N8n.Lib.OrderedSet
import N8n.Lib.Transition

namespace N8n.Insights

open N8n.Lib

structure BufferedInsight (ι : Type) where
  object : Nat
  insight : ι
  deriving DecidableEq

inductive FlushPhase where
  | saving
  /-- The rows are inserted. -/
  | stored
  | failed
  | ended
  deriving DecidableEq

structure Flush (ι : Type) where
  insights : OrderedSet (BufferedInsight ι)
  phase : FlushPhase
  /-- It began after the shutdown. -/
  late : Bool
  deriving DecidableEq

inductive Shutdown where
  | running
  /-- For the flushes that were in progress, and its own one. -/
  | waiting (flushes : Nat)
  | resolved
  deriving DecidableEq

structure CollectionState (ι : Type) where
  bufferedInsights : OrderedSet (BufferedInsight ι)
  timer : Bool
  isAsynchronouslySavingInsights : Bool
  isInitialized : Bool
  flushes : List (Flush ι)
  /-- The flushes that handlers wait for. -/
  handlers : List Nat
  shutdown : Shutdown
  database : List (BufferedInsight ι)
  accepted : List (BufferedInsight ι)
  /-- What saves from before the shutdown have put back since, and no flush has taken. -/
  putBack : List (BufferedInsight ι)
  /-- A save that began after the shutdown has failed. -/
  lateFailure : Bool
  deriving DecidableEq

inductive CollectionAction (ι : Type) where
  /-- An execution ends, with its insights if it is not skipped. -/
  | workflowExecuteAfter (insights : List ι)
  | resumeHandler (handler : Nat)
  | timer
  | store (flush : Nat)
  | fail (flush : Nat)
  /-- The flush goes on after its save. -/
  | finish (flush : Nat)
  | shutdown
  | resolve
  deriving DecidableEq

namespace CollectionState

variable {ι : Type} [DecidableEq ι] (s : CollectionState ι)

def scheduleFlushing : CollectionState ι := if s.isInitialized then { s with timer := true } else s

def flushEvents : CollectionState ι :=
  if s.isInitialized = false then s
  else if s.bufferedInsights.size = 0 then s.scheduleFlushing
  else
    { s with
      timer := false
      bufferedInsights := .empty
      flushes := s.flushes ++ [⟨s.bufferedInsights, .saving, s.shutdown ≠ .running⟩]
      putBack := [] }

def flushIfFull (flushBatchSize : Nat) : CollectionState ι :=
  if s.bufferedInsights.size ≥ flushBatchSize then s.flushEvents else s

def collected (insights : List ι) : List (BufferedInsight ι) :=
  insights.zipIdx s.accepted.length |>.map fun p => ⟨p.2, p.1⟩

def addInsights (insights : List ι) : CollectionState ι :=
  { s with
    bufferedInsights := s.bufferedInsights.insertAll (s.collected insights)
    accepted := s.accepted ++ s.collected insights }

def handleWorkflowExecuteAfter (flushBatchSize : Nat) (insights : List ι) : CollectionState ι :=
  if s.isInitialized = false ∨ insights = [] then s
  else if s.isAsynchronouslySavingInsights then (s.addInsights insights).flushIfFull flushBatchSize
  else { (s.addInsights insights).flushEvents with handlers := s.handlers ++ [s.flushes.length] }

def setFlush (i : Nat) (flush : Flush ι) (phase : FlushPhase) : CollectionState ι :=
  { s with flushes := s.flushes.set i { flush with phase } }

def putBackInto (flush : Flush ι) : CollectionState ι :=
  { s with
    bufferedInsights := s.bufferedInsights.insertAll flush.insights.items
    putBack := if flush.late = false ∧ s.shutdown ≠ .running then s.putBack ++ flush.insights.items else s.putBack }

def stopBuffering : CollectionState ι :=
  { s with
    timer := false
    isAsynchronouslySavingInsights := false
    shutdown := .waiting 0 }

def beginShutdown : CollectionState ι :=
  let flushed := s.stopBuffering.flushEvents
  { flushed with shutdown := .waiting flushed.flushes.length }

def step (flushBatchSize : Nat) (s : CollectionState ι) : CollectionAction ι → Option (CollectionState ι)
  | .workflowExecuteAfter insights => some (s.handleWorkflowExecuteAfter flushBatchSize insights)
  | .resumeHandler handler => do
      let flush ← s.flushes[(← s.handlers[handler]?)]?
      if flush.phase = .ended then
        some ({ s with handlers := s.handlers.eraseIdx handler }.flushIfFull flushBatchSize)
      else none
  | .timer => if s.timer then some { s with timer := false }.flushEvents else none
  | .store i => do
      let flush ← s.flushes[i]?
      if flush.phase = .saving then
        some ({ s with database := s.database ++ flush.insights.items }.setFlush i flush .stored)
      else none
  | .fail i => do
      let flush ← s.flushes[i]?
      if flush.phase = .saving then
        some ({ s with lateFailure := s.lateFailure || flush.late }.setFlush i flush .failed)
      else none
  | .finish i => do
      let flush ← s.flushes[i]?
      match flush.phase with
      | .stored => some (s.setFlush i flush .ended).scheduleFlushing
      | .failed => some ((s.putBackInto flush).setFlush i flush .ended).scheduleFlushing
      | _ => none
  | .shutdown => if s.shutdown = .running then some s.beginShutdown else none
  | .resolve =>
    match s.shutdown with
    | .waiting flushes =>
      if ∀ flush ∈ s.flushes.take flushes, flush.phase = .ended then
        some { s with isInitialized := false, shutdown := .resolved }
      else none
    | _ => none

/-- After `init`. -/
def initial : CollectionState ι := ⟨.empty, true, true, true, [], [], .running, [], [], [], false⟩

end CollectionState

def collection (ι : Type) [DecidableEq ι] (flushBatchSize : Nat) :
    TransitionSystem (CollectionState ι) (CollectionAction ι) where
  init := fun s => s = .initial
  step := CollectionState.step flushBatchSize

def Flush.held {ι : Type} (flush : Flush ι) : List (BufferedInsight ι) :=
  match flush.phase with
  | .saving | .failed => flush.insights.items
  | .stored | .ended => []

namespace CollectionState

variable {ι : Type} [DecidableEq ι] (s : CollectionState ι)

def InOnePlace : Prop :=
  s.accepted.Nodup ∧ s.accepted.Perm (s.bufferedInsights.items ++ s.flushes.flatMap Flush.held ++ s.database)

def Saved : Prop := s.shutdown = .resolved → s.lateFailure = false → ∀ insight ∈ s.accepted, insight ∈ s.database

end CollectionState

end N8n.Insights
