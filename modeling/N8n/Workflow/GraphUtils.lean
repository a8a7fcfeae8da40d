import N8n.Lib.Search
import N8n.Workflow.Connections

namespace N8n

open Lib

/-- A `Map` from a node to its outgoing connections. -/
abbrev IConnectionAdjacencyList := ObjectMap String (List IConnection)

inductive ExtractableErrorResult where
  | multipleInputNodes (nodes : List String)
  | multipleOutputNodes (nodes : List String)
  | inputEdgeToNonRootNode (node : String)
  | outputEdgeFromNonLeafNode (node : String)
  | noContinuousPathFromRootToLeaf (start endNode : String)
deriving DecidableEq

def ExtractableErrorResult.errorCode : ExtractableErrorResult → String
  | .multipleInputNodes _ => "Multiple Input Nodes"
  | .multipleOutputNodes _ => "Multiple Output Nodes"
  | .inputEdgeToNonRootNode _ => "Input Edge To Non-Root Node"
  | .outputEdgeFromNonLeafNode _ => "Output Edge From Non-Leaf Node"
  | .noContinuousPathFromRootToLeaf _ _ => "No Continuous Path From Root To Leaf In Selection"

structure ExtractableSubgraphData where
  start : Option String
  endNode : Option String
deriving DecidableEq

abbrev Edge := String × IConnection

def edgesOf (adjacencyList : IConnectionAdjacencyList) : List Edge :=
  adjacencyList.entries.flatMap fun e => e.2.map fun c => (e.1, c)

def getInputEdges (graphIds : OrderedSet String) (adjacencyList : IConnectionAdjacencyList) : List Edge :=
  (edgesOf adjacencyList).filter fun e => e.1 ∉ graphIds ∧ e.2.node ∈ graphIds

def getOutputEdges (graphIds : OrderedSet String) (adjacencyList : IConnectionAdjacencyList) : List Edge :=
  (edgesOf adjacencyList).filter fun e => e.1 ∈ graphIds ∧ e.2.node ∉ graphIds

def connectionsOf (adjacencyList : IConnectionAdjacencyList) (nodeId : String) : List IConnection :=
  (adjacencyList.get? nodeId).getD []

def mainNeighbors (adjacencyList : IConnectionAdjacencyList) (nodeId : String) : OrderedSet String :=
  .ofList (((connectionsOf adjacencyList nodeId).filter fun c => c.type = "main" ∧ c.node ≠ nodeId).map (·.node))

def getRootNodes (graphIds : OrderedSet String) (adjacencyList : IConnectionAdjacencyList) : OrderedSet String :=
  let innerNodes := graphIds.items.foldl (fun acc nodeId => acc.union (mainNeighbors adjacencyList nodeId)) .empty
  graphIds.diff innerNodes

def getLeafNodes (graphIds : OrderedSet String) (adjacencyList : IConnectionAdjacencyList) : OrderedSet String :=
  .ofList (graphIds.items.filter fun nodeId => ((mainNeighbors adjacencyList nodeId).inter graphIds).size = 0)

def mainTargets (adjacencyList : IConnectionAdjacencyList) (nodeId : String) : List String :=
  (OrderedSet.ofList (((connectionsOf adjacencyList nodeId).filter fun c => c.type = "main").map (·.node))).items

theorem mem_mainTargets {adjacencyList : IConnectionAdjacencyList} {a b : String} :
    b ∈ mainTargets adjacencyList a ↔ ∃ c ∈ connectionsOf adjacencyList a, c.type = "main" ∧ c.node = b := by
  rw [mainTargets, OrderedSet.mem_items, OrderedSet.mem_ofList, List.mem_map]
  simp only [List.mem_filter, decide_eq_true_eq, and_assoc]

theorem mem_edgesOf {adjacencyList : IConnectionAdjacencyList} {e : Edge} :
    e ∈ edgesOf adjacencyList ↔ e.2 ∈ connectionsOf adjacencyList e.1 := by
  rw [edgesOf, List.mem_flatMap, connectionsOf]
  constructor
  · rintro ⟨⟨k, cs⟩, hm, he⟩
    obtain ⟨c, hc, rfl⟩ := List.mem_map.1 he
    rw [(ObjectMap.mem_entries _).1 hm]
    exact hc
  · intro h
    cases hg : adjacencyList.get? e.1 with
    | none =>
      rw [hg] at h
      cases h
    | some cs =>
      rw [hg] at h
      exact ⟨(e.1, cs), (ObjectMap.mem_entries _).2 hg, List.mem_map.2 ⟨e.2, h, rfl⟩⟩

theorem mainTargets_bound (adjacencyList : IConnectionAdjacencyList) (a : String) :
    ∀ b ∈ mainTargets adjacencyList a, b ∈ (edgesOf adjacencyList).map (·.2.node) := by
  intro b hb
  obtain ⟨c, hc, -, rfl⟩ := mem_mainTargets.1 hb
  exact List.mem_map.2 ⟨(a, c), mem_edgesOf.2 hc, rfl⟩

/-- The search pops the node pushed last, and may push a node again until it is seen. -/
def hasPath (start endNode : String) (adjacencyList : IConnectionAdjacencyList) : Bool :=
  stackSearch (mainTargets adjacencyList) ((edgesOf adjacencyList).map (·.2.node)) (mainTargets_bound adjacencyList)
    endNode [] [start]

/-- The connections of each source in the order of the walk. -/
def buildAdjacencyList (connectionsBySourceNode : IConnections) : IConnectionAdjacencyList :=
  (visits connectionsBySourceNode).foldl (fun acc v =>
    acc.set v.source ((acc.get? v.source).getD [] ++ [v.connection])) .empty

/-- The nodes of the selection at its main border, with those roots or leaves among them that may stand there. -/
structure Boundary where
  nodes : OrderedSet String
  allowed : OrderedSet String

/-- A lone boundary node counts as a root or leaf of a selection without any. -/
def boundary (nodes ends : OrderedSet String) : Boundary :=
  ⟨nodes, if ends.size = 0 ∧ nodes.size = 1 then nodes else ends⟩

def inputBoundary (graphIds : OrderedSet String) (adjacencyList : IConnectionAdjacencyList) : Boundary :=
  boundary (.ofList (((getInputEdges graphIds adjacencyList).filter fun e => e.2.type = "main").map (·.2.node)))
    (getRootNodes graphIds adjacencyList)

def outputBoundary (graphIds : OrderedSet String) (adjacencyList : IConnectionAdjacencyList) : Boundary :=
  boundary (.ofList (((getOutputEdges graphIds adjacencyList).filter fun e => e.2.type = "main").map (·.1)))
    (getLeafNodes graphIds adjacencyList)

def Boundary.errors (b : Boundary) (outside : String → ExtractableErrorResult)
    (multiple : List String → ExtractableErrorResult) : List ExtractableErrorResult :=
  (b.nodes.diff b.allowed).items.map outside ++
    if (b.allowed.inter b.nodes).size > 1 then [multiple (b.allowed.inter b.nodes).items] else []

def Boundary.first (b : Boundary) : Option String := (b.allowed.inter b.nodes).items.head?

/-- A name counts as a start or end only if it is not the empty text. -/
def pathErrors (start endNode : Option String) (adjacencyList : IConnectionAdjacencyList) :
    List ExtractableErrorResult :=
  match start, endNode with
  | some start, some endNode =>
    if start ≠ "" && endNode ≠ "" && !hasPath start endNode adjacencyList then
      [.noContinuousPathFromRootToLeaf start endNode]
    else []
  | _, _ => []

def parseExtractableSubgraphSelection (graphIds : OrderedSet String) (adjacencyList : IConnectionAdjacencyList) :
    Except (List ExtractableErrorResult) ExtractableSubgraphData :=
  let inputs := inputBoundary graphIds adjacencyList
  let outputs := outputBoundary graphIds adjacencyList
  let errors :=
    inputs.errors .inputEdgeToNonRootNode .multipleInputNodes ++
      outputs.errors .outputEdgeFromNonLeafNode .multipleOutputNodes ++
      pathErrors inputs.first outputs.first adjacencyList
  if errors.length > 0 then .error errors else .ok ⟨inputs.first, outputs.first⟩

end N8n
