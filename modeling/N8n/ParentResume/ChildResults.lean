import Mathlib.Data.List.Basic

namespace N8n.ParentResume

structure RelatedExecution where
  executionId : String
  workflowId : String
  deriving DecidableEq

structure DynamicCredentialsUsage where
  usedDynamicCredentials : Bool
  attemptedDynamicCredentials : Bool
  dynamicCredentialsResolvedUserId : Option String
  deriving DecidableEq

namespace DynamicCredentialsUsage

def isEmpty (usage : DynamicCredentialsUsage) : Bool :=
  !usage.usedDynamicCredentials && !usage.attemptedDynamicCredentials && usage.dynamicCredentialsResolvedUserId.isNone

/-- The keys of `usage` over those of an earlier report. -/
def union (earlier : Option DynamicCredentialsUsage) (usage : DynamicCredentialsUsage) : DynamicCredentialsUsage :=
  match earlier with
  | none => usage
  | some earlier =>
    ⟨usage.usedDynamicCredentials || earlier.usedDynamicCredentials,
      usage.attemptedDynamicCredentials || earlier.attemptedDynamicCredentials,
      usage.dynamicCredentialsResolvedUserId <|> earlier.dynamicCredentialsResolvedUserId⟩

end DynamicCredentialsUsage

structure TaskMetadata (ε : Type) where
  resumeError : Option ε
  subExecution : Option RelatedExecution
  dynamicCredentialsUsage : Option DynamicCredentialsUsage
  deriving DecidableEq

structure ExecuteData (δ ε : Type) where
  node : String
  data : δ
  metadata : TaskMetadata ε
  deriving DecidableEq

structure TaskFlags where
  usedDynamicCredentials : Bool
  attemptedDynamicCredentials : Bool
  deriving DecidableEq

/-- The data of an execution; `runtimeData` is the user that executes it, if there is such data. -/
structure RunExecutionData (δ ε : Type) where
  nodeExecutionStack : Option (List (ExecuteData δ ε))
  runData : List (String × List TaskFlags)
  runtimeData : Option (Option String)
  deriving DecidableEq

/-- What an ended child has: its error, the data of its last node, its use of credentials and its own id. -/
structure ChildResult (δ ε : Type) where
  error : Option ε
  lastExecutedNodeData : Option δ
  dynamicCredentialsUsage : DynamicCredentialsUsage
  childExecution : Option RelatedExecution
  deriving DecidableEq

variable {δ ε : Type}

namespace ChildResult

def Empty (child : ChildResult δ ε) : Prop := child.error = none ∧ child.lastExecutedNodeData = none

instance (child : ChildResult δ ε) : Decidable child.Empty :=
  decidable_of_iff (child.error.isNone ∧ child.lastExecutedNodeData.isNone) (by simp [Empty])

def stashUsage (child : ChildResult δ ε) (entry : ExecuteData δ ε) : ExecuteData δ ε :=
  if child.dynamicCredentialsUsage.isEmpty then entry
  else { entry with metadata := { entry.metadata with
    dynamicCredentialsUsage := some (.union entry.metadata.dynamicCredentialsUsage child.dynamicCredentialsUsage) } }

def settle (child : ChildResult δ ε) (entry : ExecuteData δ ε) : ExecuteData δ ε :=
  match child.error with
  | some error => { entry with metadata := { entry.metadata with
      resumeError := some error
      subExecution := match child.childExecution with
        | some execution => some execution
        | none => entry.metadata.subExecution } }
  | none =>
    match child.lastExecutedNodeData with
    | some data => { entry with data := data }
    | none => entry

/-- The flags of the waiting task, the last one of the node. -/
def stampTasks (child : ChildResult δ ε) (tasks : List TaskFlags) : List TaskFlags :=
  tasks.mapIdx fun i task =>
    if i + 1 = tasks.length then
      ⟨task.usedDynamicCredentials || child.dynamicCredentialsUsage.usedDynamicCredentials,
        task.attemptedDynamicCredentials || child.dynamicCredentialsUsage.attemptedDynamicCredentials⟩
    else task

def stampUser (child : ChildResult δ ε) (runtimeData : Option (Option String)) : Option (Option String) :=
  match runtimeData, child.dynamicCredentialsUsage.dynamicCredentialsResolvedUserId with
  | some _, some user => if child.dynamicCredentialsUsage.usedDynamicCredentials then some (some user) else runtimeData
  | _, _ => runtimeData

end ChildResult

namespace RunExecutionData

def entry (data : RunExecutionData δ ε) : Option (ExecuteData δ ε) := data.nodeExecutionStack.bind List.head?

/-- The data that `updateParentExecutionWithChildResults` writes; without a stack it writes nothing. -/
def withChildResult (data : RunExecutionData δ ε) (child : ChildResult δ ε) : Option (RunExecutionData δ ε) :=
  match data.nodeExecutionStack with
  | none | some [] => none
  | some (entry :: rest) => some
      { nodeExecutionStack := some (child.settle (child.stashUsage entry) :: rest)
        runData := data.runData.map fun tasks =>
          if tasks.1 = entry.node then (tasks.1, child.stampTasks tasks.2) else tasks
        runtimeData := child.stampUser data.runtimeData }

end RunExecutionData

def Whole (original : ExecuteData δ ε) (child : ChildResult δ ε) (entry : ExecuteData δ ε) : Prop :=
  match child.error with
  | some error =>
    entry.data = original.data ∧ entry.metadata.resumeError = some error ∧
      entry.metadata.subExecution = match child.childExecution with
        | some execution => some execution
        | none => original.metadata.subExecution
  | none =>
    entry.data = child.lastExecutedNodeData.getD original.data ∧
      entry.metadata.resumeError = original.metadata.resumeError ∧
      entry.metadata.subExecution = original.metadata.subExecution

def Mixes (original : ExecuteData δ ε) (child : ChildResult δ ε) (entry : ExecuteData δ ε) : Prop :=
  match child.error with
  | some _ =>
    entry.data ≠ original.data ∨
      child.childExecution = none ∧ entry.metadata.subExecution ≠ original.metadata.subExecution
  | none => entry.metadata.resumeError ≠ none

instance [DecidableEq δ] [DecidableEq ε] (original : ExecuteData δ ε) (child : ChildResult δ ε)
    (entry : ExecuteData δ ε) : Decidable (Mixes original child entry) := by
  unfold Mixes
  cases child.error <;> infer_instance

def Untouched (original entry : ExecuteData δ ε) : Prop :=
  entry.data = original.data ∧ entry.metadata.resumeError = original.metadata.resumeError ∧
    entry.metadata.subExecution = original.metadata.subExecution

variable {data data' : RunExecutionData δ ε} {child other : ChildResult δ ε} {original entry : ExecuteData δ ε}

namespace ChildResult

theorem data_stashUsage : (child.stashUsage entry).data = entry.data := by
  rw [stashUsage]
  split <;> rfl

theorem resumeError_stashUsage : (child.stashUsage entry).metadata.resumeError = entry.metadata.resumeError := by
  rw [stashUsage]
  split <;> rfl

theorem subExecution_stashUsage : (child.stashUsage entry).metadata.subExecution = entry.metadata.subExecution := by
  rw [stashUsage]
  split <;> rfl

end ChildResult

theorem Whole.of_empty (h : child.Empty) (hu : Untouched original entry) : Whole original child entry := by
  obtain ⟨herror, hdata⟩ := h
  rw [Whole, herror, hdata]
  exact hu

theorem Whole.settle (hfresh : original.metadata.resumeError = none) (hmix : ¬ Mixes original child entry)
    (h : Untouched original entry ∨ Whole original other entry) (hne : ¬ child.Empty) :
    Whole original child (child.settle (child.stashUsage entry)) := by
  rw [Whole, ChildResult.settle]
  rw [Mixes] at hmix
  cases herror : child.error with
  | some error =>
    rw [herror] at hmix
    simp only [not_or, not_and, Classical.not_not, ne_eq] at hmix
    refine ⟨ChildResult.data_stashUsage.trans hmix.1, rfl, ?_⟩
    show (match child.childExecution with | some execution => some execution | none => _) = _
    cases hexec : child.childExecution with
    | some execution => rfl
    | none => exact ChildResult.subExecution_stashUsage.trans (hmix.2 hexec)
  | none =>
    rw [herror] at hmix
    have hno : entry.metadata.resumeError = none := Decidable.not_not.1 hmix
    have hsub : entry.metadata.subExecution = original.metadata.subExecution := by
      rcases h with h | h
      · exact h.2.2
      · rw [Whole] at h
        cases hother : other.error with
        | some _ =>
          rw [hother] at h
          rw [h.2.1] at hno
          cases hno
        | none =>
          rw [hother] at h
          exact h.2.2
    cases hdata : child.lastExecutedNodeData with
    | none => exact absurd ⟨herror, hdata⟩ hne
    | some data =>
      refine ⟨rfl, ?_, ChildResult.subExecution_stashUsage.trans hsub⟩
      exact ChildResult.resumeError_stashUsage.trans (hno.trans hfresh.symm)

theorem RunExecutionData.entry_withChildResult (h : data.withChildResult child = some data') :
    ∃ entry, data.entry = some entry ∧ data'.entry = some (child.settle (child.stashUsage entry)) := by
  rw [withChildResult] at h
  split at h
  · cases h
  · cases h
  · next entry rest hstack =>
    cases h
    exact ⟨entry, by rw [RunExecutionData.entry, hstack]; rfl, rfl⟩

theorem RunExecutionData.entry_of_withChildResult_none (h : data.withChildResult child = none) : data.entry = none := by
  rw [withChildResult] at h
  rw [entry]
  split at h
  · next hstack => rw [hstack]; rfl
  · next hstack => rw [hstack]; rfl
  · cases h

end N8n.ParentResume
