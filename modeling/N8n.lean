import N8n.WorkflowExecute.DeliveryRun
import N8n.WorkflowExecute.LoopRuns
import N8n.WorkflowExecute.RequestProtocol
import N8n.WorkflowExecute.RetryBudget
import N8n.Scheduler.LeaseFencing
import N8n.Scheduler.FireAccounts
import N8n.Scheduler.NextRuns
import N8n.Scheduler.MisfireChunks
import N8n.Scheduler.ExecutorStop
import N8n.Scheduler.OwnerCoalescing
import N8n.Concurrency.Admissions
import N8n.Workflow.ConnectionIndexes
import N8n.Workflow.ConnectionReversal
import N8n.Workflow.ConnectedNodes
import N8n.Workflow.ExtractableSelection
import N8n.Workflow.GroupRepair
import N8n.WorkflowDiff.GroupWorkflows
import N8n.WorkflowDiff.ParameterSuperset
import N8n.WorkflowDiff.ConnectionsDiff
import N8n.PartialExecution.GraphRoundTrip
import N8n.Engine.LifecycleOrder
import N8n.Engine.Confluence
import N8n.Engine.BatchLoop
import N8n.Expression.SplitJoin
import N8n.Expression.LiteralCalls
import N8n.Crdt.Protocol
import N8n.Publication.OutboxRuns
import N8n.Concurrency.CapacityRuns
import N8n.TaskBroker.Matching
import N8n.TaskBroker.ServedOnce
import N8n.TaskBroker.UnresponsiveRunners
import N8n.CodeNode.ChunkedRuns
import N8n.Webhooks.PositionalRouting
import N8n.Webhooks.CacheCoherence
import N8n.Insights.Compaction
import N8n.Insights.Shutdown
import N8n.Scaling.LeaderKey
import N8n.TaskRequester.Cancellations
import N8n.TaskRunner.TaskRequests
import N8n.ObservableObject.ChangeTracking
import N8n.Leadership.LeaderOnlyPasses
import N8n.Leadership.WaitTracker
import N8n.DataTable.RowSelection
import N8n.DataTable.Pages
import N8n.ParentResume.Resumption
import N8n.QueueRecovery.RecoveryPass
import N8n.Agents.MessageListRuns
import N8n.Agents.MessageConversion
import N8n.Agents.HistoryLoads
import N8n.EngineCompatibility.WellFormed
import N8n.WorkflowExecute.UnservedRequests
import N8n.WorkflowExecute.Deferrals
import N8n.WorkflowExecute.DrainOrder
import N8n.Workflow.NodesByDepth
import N8n.PartialExecution.InputSets
import N8n.PartialExecution.CleanRunData
import N8n.PartialExecution.SubgraphPaths
import N8n.PartialExecution.FilterDisabledNodes
import N8n.PartialExecution.FindStartNodes
import N8n.PartialExecution.ComponentsFound
import N8n.PartialExecution.CycleStarts
import N8n.Codegen.CycleAnnotation
import N8n.Codegen.GraphRoots
import N8n.Workflow.FilterParameter
import N8n.Publication.LifecycleLock
import N8n.Publication.NodeIdHealing
import N8n.Publication.WorkerPool
import N8n.EngineCompatibility.DisabledNodes
import N8n.EngineCompatibility.BackEdges
import N8n.Codegen.StringUtils
import N8n.Expression.FromAICalls
import N8n.DataTable.ColumnOrder
import N8n.Agents.ObservationLog
import N8n.Agents.ToolResultGuard
import N8n.Agents.Reflection
import N8n.Workflow.ResolveOrder
import N8n.Utils.JsonSizeExceeds
