import N8n.Workflow.GraphUtils

namespace N8n.NodeGrouping

open Lib

def STICKY_NODE_TYPE : String := "n8n-nodes-base.stickyNote"

/-- Node objects with an id; other generic code asks for a name only. -/
class GroupableNode (N : Type) where
  nodeId : N → String
  nodeName : N → String
  nodeType : N → String

/-- Group objects; equal objects are the same object, and two objects may have the same fields. -/
class WorkflowGroup (G : Type) where
  groupId : G → String
  groupName : G → String
  nodeIds : G → List String

export GroupableNode (nodeId nodeName nodeType)
export WorkflowGroup (groupId groupName nodeIds)

structure IdentifiedNode extends INode where
  id : String

structure IWorkflowGroup where
  id : String
  name : String
  nodeIds : List String
deriving DecidableEq

instance : GroupableNode IdentifiedNode := ⟨(·.id), (·.name), (·.type)⟩

instance : WorkflowGroup IWorkflowGroup := ⟨(·.id), (·.name), (·.nodeIds)⟩

structure GroupedNodeType extends INodeTypeDescription where
  group : List String

def isTriggerNode (nodeTypeData : GroupedNodeType) : Bool := nodeTypeData.group.contains "trigger"

structure NonMainConnection where
  source : String
  target : String
  type : String
deriving DecidableEq

/-- The reasons for which a selection is no group. Those on several branches are given by extraction only. -/
inductive GroupRuleFailure where
  | triggerSelected (triggers : List String)
  | invalidSubgraph (errors : List ExtractableErrorResult)
  | multipleInputBranches (node : String)
  | multipleOutputBranches (node : String)
  | nodeAlreadyGrouped (nodeIds : List String)
  | nonMainBoundary (connection : NonMainConnection)
deriving DecidableEq

structure ValidSelection (N : Type) where
  subGraph : List N
  subGraphData : ExtractableSubgraphData

structure NodeGroupingValidationInput (N G : Type) where
  nodes : List N
  connectionsBySourceNode : IConnections
  getNodeType : N → Option GroupedNodeType
  existingNodeGroups : Option (List G) := none

def addNeighbor (neighbors : ObjectMap String (OrderedSet String)) (a b : String) :
    ObjectMap String (OrderedSet String) :=
  match neighbors.get? a with
  | none => neighbors
  | some names => neighbors.set a (names.insert b)

def neighborsByNodeName (nodeNames : OrderedSet String) (currentAdjacencyList : IConnectionAdjacencyList) :
    ObjectMap String (OrderedSet String) :=
  (edgesOf currentAdjacencyList).foldl (fun acc e =>
    if e.1 ∉ nodeNames ∨ e.2.node ∉ nodeNames ∨ e.2.node = e.1 then acc
    else addNeighbor (addNeighbor acc e.1 e.2.node) e.2.node e.1)
    (nodeNames.items.foldl (fun acc nodeName => acc.set nodeName .empty) .empty)

/-- A node with the empty name is taken off the queue without a look at its neighbors. -/
def neighborsOf (neighbors : ObjectMap String (OrderedSet String)) (nodeName : String) : OrderedSet String :=
  if nodeName = "" then .empty else (neighbors.get? nodeName).getD .empty

theorem neighborsOf_bound (neighbors : ObjectMap String (OrderedSet String)) (a : String) :
    ∀ b ∈ neighborsOf neighbors a, b ∈ neighbors.entries.flatMap (·.2.items) := by
  intro b hb
  rw [neighborsOf] at hb
  split at hb
  · exact absurd hb OrderedSet.mem_empty
  · cases hg : neighbors.get? a with
    | none =>
      rw [hg] at hb
      exact absurd hb OrderedSet.mem_empty
    | some names =>
      rw [hg] at hb
      exact List.mem_flatMap.2 ⟨(a, names), (ObjectMap.mem_entries _).2 hg, hb⟩

/-- The nodes connected with the first one, whatever the direction and type of the connections. -/
def connectedWith (nodeNames : OrderedSet String) (currentAdjacencyList : IConnectionAdjacencyList)
    (firstNodeName : String) : OrderedSet String :=
  let neighbors := neighborsByNodeName nodeNames currentAdjacencyList
  queueSearch (neighborsOf neighbors) (neighbors.entries.flatMap (·.2.items)) (neighborsOf_bound neighbors)
    (.ofList [firstNodeName]) [firstNodeName]

def findDisconnectedSelectionError (nodeNames : OrderedSet String) (currentAdjacencyList : IConnectionAdjacencyList) :
    Option ExtractableErrorResult :=
  if nodeNames.size ≤ 1 then none
  else
    match nodeNames.items.head?.filter (· ≠ "") with
    | none => none
    | some firstNodeName =>
      let visited := connectedWith nodeNames currentAdjacencyList firstNodeName
      if visited.size = nodeNames.size then none
      else
        ((nodeNames.items.find? (· ∉ visited)).filter (· ≠ "")).map fun disconnectedNodeName =>
          .noContinuousPathFromRootToLeaf firstNodeName disconnectedNodeName

/-- The first connection that is not main and has one end among the nodes. -/
def findNonMainBoundaryConnection (nodeNames : OrderedSet String) (connectionsBySourceNode : IConnections) :
    Option NonMainConnection :=
  ((visits connectionsBySourceNode).find? fun v =>
    v.type ≠ "main" ∧ decide (v.source ∈ nodeNames) ≠ decide (v.connection.node ∈ nodeNames)).map fun v =>
      ⟨v.source, v.connection.node, v.type⟩

section

variable {N G : Type} [GroupableNode N] [WorkflowGroup G]

def findAlreadyGroupedNodeIds (selectionNodeIds : List String) (existingNodeGroups : List G) : List String :=
  let groupedNodeIds := OrderedSet.ofList (existingNodeGroups.flatMap nodeIds)
  selectionNodeIds.filter (· ∈ groupedNodeIds)

def selectedTriggers (nodes : List N) (getNodeType : N → Option GroupedNodeType) : List N :=
  nodes.filter fun node => (getNodeType node).any isTriggerNode

def validateNodeSelectionSubgraph (nodes : List N) (connectionsBySourceNode : IConnections)
    (getNodeType : N → Option GroupedNodeType) : Except GroupRuleFailure (ValidSelection N) :=
  let triggers := selectedTriggers nodes getNodeType
  if triggers.length > 0 then .error (.triggerSelected (triggers.map nodeName))
  else
    let adjacencyList := buildAdjacencyList connectionsBySourceNode
    let selectedNodeNames := OrderedSet.ofList (nodes.map nodeName)
    match parseExtractableSubgraphSelection selectedNodeNames adjacencyList with
    | .error errors => .error (.invalidSubgraph errors)
    | .ok selection =>
      match findDisconnectedSelectionError selectedNodeNames adjacencyList with
      | some disconnected => .error (.invalidSubgraph [disconnected])
      | none => .ok ⟨nodes, selection⟩

def validateMembers (nodes : List N) (connectionsBySourceNode : IConnections)
    (getNodeType : N → Option GroupedNodeType) : Except GroupRuleFailure (ValidSelection N) :=
  let connectableNodes := nodes.filter (nodeType · ≠ STICKY_NODE_TYPE)
  if connectableNodes.length = 0 then .ok ⟨nodes, ⟨none, none⟩⟩
  else
    match validateNodeSelectionSubgraph connectableNodes connectionsBySourceNode getNodeType with
    | .error failure => .error failure
    | .ok selection =>
      match findNonMainBoundaryConnection (.ofList (selection.subGraph.map nodeName)) connectionsBySourceNode with
      | some connection => .error (.nonMainBoundary connection)
      | none => .ok ⟨nodes, selection.subGraphData⟩

def validateNodeSelectionForGrouping (input : NodeGroupingValidationInput N G) :
    Except GroupRuleFailure (ValidSelection N) :=
  let alreadyGroupedNodeIds :=
    findAlreadyGroupedNodeIds (input.nodes.map nodeId) (input.existingNodeGroups.getD [])
  if alreadyGroupedNodeIds.length > 0 then .error (.nodeAlreadyGrouped alreadyGroupedNodeIds)
  else validateMembers input.nodes input.connectionsBySourceNode input.getNodeType

theorem findAlreadyGroupedNodeIds_eq_nil {selectionNodeIds : List String} {existingNodeGroups : List G} :
    findAlreadyGroupedNodeIds selectionNodeIds existingNodeGroups = [] ↔
      ∀ g ∈ existingNodeGroups, ∀ x ∈ nodeIds g, x ∉ selectionNodeIds := by
  rw [findAlreadyGroupedNodeIds, List.filter_eq_nil_iff]
  simp only [decide_eq_true_eq, OrderedSet.mem_ofList, List.mem_flatMap]
  constructor
  · intro h g hg x hx hs
    exact h x hs ⟨g, hg, hx⟩
  · rintro h x hs ⟨g, hg, hx⟩
    exact h g hg x hx hs

theorem validateNodeSelectionForGrouping_isOk {input : NodeGroupingValidationInput N G} :
    (validateNodeSelectionForGrouping input).isOk = true ↔
      (∀ g ∈ input.existingNodeGroups.getD [], ∀ x ∈ nodeIds g, x ∉ input.nodes.map nodeId) ∧
        (validateMembers input.nodes input.connectionsBySourceNode input.getNodeType).isOk = true := by
  rw [validateNodeSelectionForGrouping, ← findAlreadyGroupedNodeIds_eq_nil]
  split
  · next h =>
    constructor
    · intro hok
      cases hok
    · rintro ⟨hnil, -⟩
      rw [hnil] at h
      cases h
  · next h => exact ⟨fun hok => ⟨List.length_eq_zero_iff.1 (by omega), hok⟩, fun hok => hok.2⟩

end

inductive WorkflowGroupViolationCode where
  | duplicateGroupId
  | duplicateGroupName
  | emptyGroup
  | unknownNodeId
  | nodeInMultipleGroups
  | triggerSelected
  | invalidSubgraph
  | multipleInputBranches
  | multipleOutputBranches
  | nodeAlreadyGrouped
  | nonMainBoundary
deriving DecidableEq

def GroupRuleFailure.reason : GroupRuleFailure → WorkflowGroupViolationCode
  | .triggerSelected _ => .triggerSelected
  | .invalidSubgraph _ => .invalidSubgraph
  | .multipleInputBranches _ => .multipleInputBranches
  | .multipleOutputBranches _ => .multipleOutputBranches
  | .nodeAlreadyGrouped _ => .nodeAlreadyGrouped
  | .nonMainBoundary _ => .nonMainBoundary

structure WorkflowGroupViolation where
  groupId : String
  groupName : String
  code : WorkflowGroupViolationCode
  message : String
deriving DecidableEq

structure WorkflowGroupViolationWithGroup (G : Type) extends WorkflowGroupViolation where
  group : G
deriving DecidableEq

inductive WorkflowGroupsValidationResult (V : Type) where
  | valid
  | invalid (firstViolation : V) (restViolations : List V)
deriving DecidableEq

def WorkflowGroupsValidationResult.violations {V : Type} : WorkflowGroupsValidationResult V → List V
  | .valid => []
  | .invalid firstViolation restViolations => firstViolation :: restViolations

def WorkflowGroupsValidationResult.ofList {V : Type} : List V → WorkflowGroupsValidationResult V
  | [] => .valid
  | firstViolation :: restViolations => .invalid firstViolation restViolations

def WorkflowGroupsValidationResult.map {V W : Type} (f : V → W) :
    WorkflowGroupsValidationResult V → WorkflowGroupsValidationResult W
  | .valid => .valid
  | .invalid firstViolation restViolations => .invalid (f firstViolation) (restViolations.map f)

/-- Without `getNodeType` only the basic checks run. -/
structure WorkflowGroupsValidationInput (N G : Type) where
  nodes : List N
  connectionsBySourceNode : Option IConnections := none
  nodeGroups : Option (List G) := none
  getNodeType : Option (N → Option GroupedNodeType)

structure BasicChecks (G : Type) where
  violations : List (WorkflowGroupViolationWithGroup G)
  groupsWithBasicViolations : OrderedSet G
  seenGroupIds : OrderedSet String
  seenGroupNames : OrderedSet String
  nodeToGroup : ObjectMap String String

variable {N G : Type} [GroupableNode N] [WorkflowGroup G] [DecidableEq G]

def nodesById (nodes : List N) : ObjectMap String N :=
  (nodes.filter (nodeId · ≠ "")).foldl (fun acc node => acc.set (nodeId node) node) .empty

/-- The name of a node, or its id if there is no such node or the name is empty. -/
def nodeLabel (nodeById : ObjectMap String N) (id : String) : String :=
  (((nodeById.get? id).map nodeName).filter (· ≠ "")).getD id

def violation (group : G) (code : WorkflowGroupViolationCode) (message : String) : WorkflowGroupViolationWithGroup G :=
  ⟨⟨groupId group, groupName group, code, message⟩, group⟩

def BasicChecks.start : BasicChecks G := ⟨[], .empty, .empty, .empty, .empty⟩

def BasicChecks.addBasicViolation (s : BasicChecks G) (group : G) (code : WorkflowGroupViolationCode)
    (message : String) : BasicChecks G :=
  { s with violations := s.violations ++ [violation group code message]
           groupsWithBasicViolations := s.groupsWithBasicViolations.insert group }

def BasicChecks.checkId (s : BasicChecks G) (group : G) : BasicChecks G :=
  let t :=
    if groupId group ∈ s.seenGroupIds then
      s.addBasicViolation group .duplicateGroupId ("Duplicate node group ID \"" ++ groupId group ++ "\".")
    else s
  { t with seenGroupIds := t.seenGroupIds.insert (groupId group) }

def BasicChecks.checkName (s : BasicChecks G) (group : G) : BasicChecks G :=
  let t :=
    if groupName group ∈ s.seenGroupNames then
      s.addBasicViolation group .duplicateGroupName ("Duplicate node group name \"" ++ groupName group ++ "\".")
    else s
  { t with seenGroupNames := t.seenGroupNames.insert (groupName group) }

def BasicChecks.checkEmpty (s : BasicChecks G) (group : G) : BasicChecks G :=
  if (nodeIds group).length = 0 then
    s.addBasicViolation group .emptyGroup ("Group \"" ++ groupName group ++ "\" has no members.")
  else s

/-- A node counts as given to a group only if the name of that group is not empty. -/
def BasicChecks.checkMember (nodeById : ObjectMap String N) (group : G) (s : BasicChecks G) (id : String) :
    BasicChecks G :=
  if !nodeById.has id then
    s.addBasicViolation group .unknownNodeId
      ("Group \"" ++ groupName group ++ "\" references node ID \"" ++ id ++ "\" that does not exist in the workflow.")
  else
    match (s.nodeToGroup.get? id).filter (· ≠ "") with
    | some existingGroup =>
      s.addBasicViolation group .nodeInMultipleGroups
        ("Node \"" ++ nodeLabel nodeById id ++ "\" belongs to multiple groups: \"" ++ existingGroup ++ "\" and \"" ++
          groupName group ++ "\".")
    | none => { s with nodeToGroup := s.nodeToGroup.set id (groupName group) }

def BasicChecks.checkGroup (nodeById : ObjectMap String N) (s : BasicChecks G) (group : G) : BasicChecks G :=
  (nodeIds group).foldl (checkMember nodeById group) (((s.checkId group).checkName group).checkEmpty group)

def describeSubgraphError (label : String → String) : Option ExtractableErrorResult → String
  | none => ""
  | some (.outputEdgeFromNonLeafNode node) =>
    " (" ++ (ExtractableErrorResult.outputEdgeFromNonLeafNode node).errorCode.toLower ++ ": \"" ++ label node ++ "\")"
  | some (.inputEdgeToNonRootNode node) =>
    " (" ++ (ExtractableErrorResult.inputEdgeToNonRootNode node).errorCode.toLower ++ ": \"" ++ label node ++ "\")"
  | some (.multipleInputNodes nodes) =>
    " (" ++ (ExtractableErrorResult.multipleInputNodes nodes).errorCode.toLower ++ ": " ++
      ", ".intercalate (nodes.map fun node => "\"" ++ label node ++ "\"") ++ ")"
  | some (.multipleOutputNodes nodes) =>
    " (" ++ (ExtractableErrorResult.multipleOutputNodes nodes).errorCode.toLower ++ ": " ++
      ", ".intercalate (nodes.map fun node => "\"" ++ label node ++ "\"") ++ ")"
  | some (.noContinuousPathFromRootToLeaf start endNode) =>
    " (no path from \"" ++ label start ++ "\" to \"" ++ label endNode ++ "\")"

def groupRuleViolationMessage (group : G) (result : GroupRuleFailure) (label : String → String) : String :=
  let groupLabel := "Node group \"" ++ groupName group ++ "\""
  match result with
  | .triggerSelected triggers => groupLabel ++ " cannot contain trigger nodes: " ++ ", ".intercalate triggers ++ "."
  | .invalidSubgraph errors =>
    groupLabel ++ " must form a single connected subgraph with a single entry and exit" ++
      describeSubgraphError label errors.head? ++ "."
  | .nodeAlreadyGrouped ids =>
    groupLabel ++ " contains nodes that already belong to another group: " ++ ", ".intercalate (ids.map label) ++ "."
  | .nonMainBoundary connection =>
    groupLabel ++ " cannot cross the \"" ++ connection.type ++ "\" connection between \"" ++ connection.source ++
      "\" and \"" ++ connection.target ++ "\"."
  | .multipleInputBranches node => groupLabel ++ " has multiple input branches at node \"" ++ node ++ "\"."
  | .multipleOutputBranches node => groupLabel ++ " has multiple output branches at node \"" ++ node ++ "\"."

def groupingInput (nodeById : ObjectMap String N) (nodeGroups : List G) (connections : IConnections)
    (getNodeType : N → Option GroupedNodeType) (group : G) : NodeGroupingValidationInput N G where
  nodes := (nodeIds group).filterMap nodeById.get?
  connectionsBySourceNode := connections
  getNodeType := getNodeType
  existingNodeGroups := some (nodeGroups.filter fun other => groupId other ≠ groupId group)

def fullCheck (nodeById : ObjectMap String N) (nodeGroups : List G) (connections : IConnections)
    (getNodeType : N → Option GroupedNodeType) (basic : BasicChecks G) (group : G) :
    List (WorkflowGroupViolationWithGroup G) :=
  if group ∈ basic.groupsWithBasicViolations then []
  else
    match validateNodeSelectionForGrouping (groupingInput nodeById nodeGroups connections getNodeType group) with
    | .ok _ => []
    | .error result =>
      [violation group result.reason (groupRuleViolationMessage group result (nodeLabel nodeById))]

def groupViolations (input : WorkflowGroupsValidationInput N G) : List (WorkflowGroupViolationWithGroup G) :=
  let nodeGroups := input.nodeGroups.getD []
  let nodeById := nodesById input.nodes
  let basic := nodeGroups.foldl (BasicChecks.checkGroup nodeById) .start
  match input.getNodeType with
  | none => basic.violations
  | some getNodeType =>
    basic.violations ++
      nodeGroups.flatMap
        (fullCheck nodeById nodeGroups (input.connectionsBySourceNode.getD .empty) getNodeType basic)

def validateWorkflowGroupsWithGroupIdentity (input : WorkflowGroupsValidationInput N G) :
    WorkflowGroupsValidationResult (WorkflowGroupViolationWithGroup G) :=
  if (input.nodeGroups.getD []).length = 0 then .valid else .ofList (groupViolations input)

def validateWorkflowGroups (input : WorkflowGroupsValidationInput N G) :
    WorkflowGroupsValidationResult WorkflowGroupViolation :=
  (validateWorkflowGroupsWithGroupIdentity input).map (·.toWorkflowGroupViolation)

structure GroupedWorkflow (N G : Type) where
  nodes : List N
  nodeGroups : Option (List G) := none
  connections : Option IConnections := none

def GroupedWorkflow.validationInput (workflow : GroupedWorkflow N G) (getNodeType : Option (N → Option GroupedNodeType)) :
    WorkflowGroupsValidationInput N G :=
  ⟨workflow.nodes, workflow.connections, workflow.nodeGroups, getNodeType⟩

def dropInvalidWorkflowGroups (workflow : GroupedWorkflow N G) (getNodeType : Option (N → Option GroupedNodeType))
    (shouldDrop : WorkflowGroupViolation → Bool := fun _ => true) : List WorkflowGroupViolation × GroupedWorkflow N G :=
  if (workflow.nodeGroups.getD []).length = 0 then ([], workflow)
  else
    match validateWorkflowGroupsWithGroupIdentity (workflow.validationInput getNodeType) with
    | .valid => ([], workflow)
    | .invalid firstViolation restViolations =>
      let dropped := (firstViolation :: restViolations).filter (shouldDrop ·.toWorkflowGroupViolation)
      if dropped.length = 0 then ([], workflow)
      else
        let droppedGroups := OrderedSet.ofList (dropped.map (·.group))
        (dropped.map (·.toWorkflowGroupViolation),
          { workflow with nodeGroups := some ((workflow.nodeGroups.getD []).filter (· ∉ droppedGroups)) })

end N8n.NodeGrouping
