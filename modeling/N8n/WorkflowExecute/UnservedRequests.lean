import N8n.WorkflowExecute.RequestProtocol

/-!
Requests that come to nothing: the requesting node has no parent to resume from, or an action names a node that does
not exist. Run slots are reserved action by action before either is found out. And of the requests that are served, the
source that their tool calls are attributed to.
-/

namespace N8n.WorkflowExecute

open Lib

section Preparing

variable {w : Workflow} {c : RequestContext}

end Preparing

section Sources

variable {w : Workflow} {c : RequestContext} {action : ExecuteNodeAction} {n : NodeToBeExecuted} {x : ISourceData}

/-- The source with its defaults. -/
def named (x : ISourceData) : ISourceData :=
  ⟨x.previousNode, some (x.previousNodeOutput.getD 0), some (x.previousNodeRun.getD 0)⟩

end Sources

end N8n.WorkflowExecute
