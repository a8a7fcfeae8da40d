import N8n.Lib.Search
import N8n.Workflow.Connections

namespace N8n.Codegen

open Lib

structure SwitchRules where
  rules : Option (List Json)
  values : Option (List Json)

structure NodeParameters where
  rules : Option SwitchRules
  numberInputs : Option Nat

structure NodeJSON where
  id : String
  name : Option String
  type : String
  parameters : Option NodeParameters
  onError : Option OnError

structure NodeSemantics where
  outputs : NodeJSON → List String
  inputs : NodeJSON → List String

def switchOutputs (node : NodeJSON) : List String :=
  let rules := node.parameters.bind (·.rules)
  let rulesArray := (rules.bind (·.rules)).or (rules.bind (·.values))
  let numCases := (rulesArray.map List.length).getD 4
  (List.range numCases).map (fun i => "case" ++ toString i) ++ ["fallback"]

def mergeInputs (node : NodeJSON) : List String :=
  let numInputs := (node.parameters.bind (·.numberInputs)).getD 2
  (List.range numInputs).map fun i => "branch" ++ toString i

def NODE_SEMANTICS : List (String × NodeSemantics) :=
  [("n8n-nodes-base.if", ⟨fun _ => ["trueBranch", "falseBranch"], fun _ => ["input"]⟩),
    ("n8n-nodes-base.switch", ⟨switchOutputs, fun _ => ["input"]⟩),
    ("n8n-nodes-base.merge", ⟨fun _ => ["output"], mergeInputs⟩),
    ("n8n-nodes-base.splitInBatches", ⟨fun _ => ["done", "loop"], fun _ => ["input"]⟩)]

/-- What the table gives for a type, where that can be asked for slots: for the name of an inherited member it gives
the member, which has none, and the caller throws. -/
def semanticsOf (type : String) : Option (Option NodeSemantics) :=
  if type ∈ inheritedNames then none else some (Entries.lookup type NODE_SEMANTICS)

def hasErrorOutput (node : NodeJSON) : Bool := node.onError = some .continueErrorOutput

def getErrorOutputIndex (semantics : Option NodeSemantics) (node : NodeJSON) : Nat :=
  (semantics.map fun s => (s.outputs node).length).getD 1

def slotName (base : String) (names : List String) (index : Nat) : String :=
    names[index]?.getD (base ++ toString index)

def getOutputName (type : String) (index : Nat) (node : NodeJSON) : Option String :=
  (semanticsOf type).map fun semantics =>
    if hasErrorOutput node ∧ index = getErrorOutputIndex semantics node then "error"
    else slotName "output" ((semantics.map (·.outputs node)).getD []) index

def getInputName (type : String) (index : Nat) (node : NodeJSON) : Option String :=
  (semanticsOf type).map fun semantics => slotName "input" ((semantics.map (·.inputs node)).getD []) index

structure SemanticConnection where
  target : String
  targetInputSlot : String
  deriving DecidableEq

structure SourceInfo where
  source : String
  outputSlot : String
  deriving DecidableEq

structure SubnodeConnection where
  connectionType : String
  subnodeName : String
  index : Nat

structure NodeAnnotations where
  isTrigger : Bool
  isCycleTarget : Bool
  isConvergencePoint : Bool

structure SemanticNode where
  name : String
  type : String
  json : NodeJSON
  outputs : ObjectMap String (List SemanticConnection)
  inputSources : ObjectMap String (List SourceInfo)
  subnodes : List SubnodeConnection
  annotations : NodeAnnotations

structure SemanticGraph where
  nodes : ObjectMap String SemanticNode
  roots : List String
  cycleEdges : ObjectMap String (List String)

/-- The targets of all the connections of a node, in the order the loops meet them. -/
def SemanticNode.targets (node : SemanticNode) : List String := node.outputs.entries.flatMap fun e => e.2.map
    (·.target)

namespace SemanticGraph

def next (graph : SemanticGraph) (name : String) : List String :=
  match graph.nodes.get? name with
  | none => []
  | some node => node.targets

def modify (graph : SemanticGraph) (name : String) (f : SemanticNode → SemanticNode) : SemanticGraph :=
  match graph.nodes.get? name with
  | none => graph
  | some node => { graph with nodes := graph.nodes.set name (f node) }

def names (graph : SemanticGraph) : List String := graph.nodes.entries.map Prod.fst

def targets (graph : SemanticGraph) : List String := graph.nodes.entries.flatMap fun e => e.2.targets

theorem next_subset (graph : SemanticGraph) (name : String) : ∀ target ∈ graph.next name, target ∈ graph.targets := by
  intro target h
  rw [next] at h
  cases hnode : graph.nodes.get? name with
  | none =>
    rw [hnode] at h
    exact absurd h List.not_mem_nil
  | some node =>
    rw [hnode] at h
    exact List.mem_flatMap.2 ⟨(name, node), (graph.nodes.mem_entries).2 hnode, h⟩

theorem next_of_not_mem {graph : SemanticGraph} {name : String} (h : name ∉ graph.names) : graph.next name = [] := by
  rw [next, show graph.nodes.get? name = none from Entries.lookup_eq_none.2 h]

theorem get?_modify (graph : SemanticGraph) (name k : String) (f : SemanticNode → SemanticNode) :
    (graph.modify name f).nodes.get? k = if k = name then (graph.nodes.get? k).map f else graph.nodes.get? k := by
  rw [modify]
  cases h : graph.nodes.get? name with
  | none =>
    dsimp only
    split
    · next hk => rw [hk, h, Option.map_none]
    · rfl
  | some node =>
    dsimp only
    rw [ObjectMap.get?_set]
    split
    · next hk => rw [hk, h, Option.map_some]
    · rfl

end SemanticGraph

def TRIGGER_NODE_TYPES : List String :=
  ["n8n-nodes-base.webhook", "n8n-nodes-base.cron", "n8n-nodes-base.emailReadImap", "n8n-nodes-base.telegramBot",
    "n8n-nodes-base.start"]

/-- No character outside ASCII has a lower case with one of the searched letters alone. -/
def isTriggerNodeType (type : String) : Bool :=
  type ∈ TRIGGER_NODE_TYPES ∨ "trigger".toList <:+: type.toList.map Char.toLower

def createSemanticNode (nodeJson : NodeJSON) : SemanticNode where
  name := nodeJson.name.getD nodeJson.id
  type := nodeJson.type
  json := nodeJson
  outputs := .empty
  inputSources := .empty
  subnodes := []
  annotations := ⟨isTriggerNodeType nodeJson.type, false, false⟩

/-- The loop that counts on while the name is taken. The first argument bounds the turns. -/
def countUp (taken : String → Bool) (baseName : String) : Nat → Nat → String
  | 0, counter => baseName ++ " " ++ toString counter
  | turns + 1, counter =>
    let uniqueName := baseName ++ " " ++ toString counter
    if taken uniqueName then countUp taken baseName turns (counter + 1) else uniqueName

/-- The names that are taken bound the turns. -/
def generateUniqueName (baseName : String) (taken : List String) : String :=
  countUp (· ∈ taken) baseName taken.length 2

/-- The last of the parts between the dots; there always is one. -/
def typeSuffix (type : String) : String := String.ofList (type.toList.reverse.takeWhile (· ≠ '.')).reverse

def unnamedName (suffix : String) (counter : Nat) : String :=
  "__unnamed_" ++ suffix ++ "_" ++ toString counter ++ "__"

structure NodeCreation where
  nodes : ObjectMap String SemanticNode
  unnamedCounters : ObjectMap String Nat

def createNode (acc : NodeCreation) (nodeJson : NodeJSON) : NodeCreation :=
  let add (nodeName : String) := acc.nodes.set nodeName { createSemanticNode nodeJson with name := nodeName }
  match nodeJson.name with
  | some name =>
    if name = "" then unnamed acc nodeJson add
    else if acc.nodes.has name then
      { acc with nodes := add (generateUniqueName name (acc.nodes.entries.map Prod.fst)) }
    else { acc with nodes := add name }
  | none => unnamed acc nodeJson add
where
  unnamed (acc : NodeCreation) (nodeJson : NodeJSON) (add : String → ObjectMap String SemanticNode) : NodeCreation :=
    let suffix := typeSuffix nodeJson.type
    let counter := (acc.unnamedCounters.get? suffix).getD 0 + 1
    ⟨add (unnamedName suffix counter), acc.unnamedCounters.set suffix counter⟩

def createNodes (nodes : List NodeJSON) : NodeCreation := nodes.foldl createNode ⟨.empty, .empty⟩

structure ConnectionJSON where
  node : String
  type : String
  index : Option Nat

inductive OutputJSON where
  | missing
  | targets (connections : List ConnectionJSON)
  | tuple (node : String) (type : Option String) (index : Option Nat)

structure WorkflowJSON where
  nodes : List NodeJSON
  connections : ObjectMap String (ObjectMap String (List OutputJSON))

def reservedCopyKeys : List String := ["__proto__", "constructor", "prototype"]

def copyKeys {α : Type} (m : ObjectMap String α) : ObjectMap String α := reservedCopyKeys.foldl ObjectMap.erase m

def deepCopy (connections : ObjectMap String (ObjectMap String (List OutputJSON))) :
    ObjectMap String (ObjectMap String (List OutputJSON)) := (copyKeys connections).mapValues copyKeys

def normalizeOutput : OutputJSON → Option (List IConnection)
  | .missing => none
  | .targets connections => some (connections.map fun c => ⟨c.node, c.type, c.index.getD 0⟩)
  | .tuple node type index => some [⟨node, type.getD "main", index.getD 0⟩]

def normalizeConnections (connections : ObjectMap String (ObjectMap String (List OutputJSON))) : IConnections :=
  connections.mapValues fun byType => byType.mapValues fun outputs => outputs.map normalizeOutput

def addTarget (sourceName outputName : String) (acc : SemanticGraph × List SemanticConnection) (target : IConnection) :
    Option (SemanticGraph × List SemanticConnection) :=
  match acc.1.nodes.get? target.node with
  | none => some acc
  | some targetNode =>
    (getInputName targetNode.type target.index targetNode.json).map fun inputSlot =>
      (acc.1.modify target.node fun node => { node with
        inputSources := node.inputSources.set inputSlot
          ((node.inputSources.get? inputSlot).getD [] ++ [⟨sourceName, outputName⟩]) },
      acc.2 ++ [⟨target.node, inputSlot⟩])

def setOutput (graph : SemanticGraph) (sourceName outputName : String) (connections : List SemanticConnection) :
    SemanticGraph :=
  if connections.isEmpty then graph
  else graph.modify sourceName fun node => { node with outputs := node.outputs.set outputName connections }

def parseMainOutput (sourceName : String) (sourceNode : SemanticNode) (graph : SemanticGraph)
    (output : Option (List IConnection) × Nat) : Option SemanticGraph :=
  match output.1 with
  | none => some graph
  | some targets => do
      let outputName ← getOutputName sourceNode.type output.2 sourceNode.json
      let (graph, connections) ← targets.foldlM (addTarget sourceName outputName) (graph, [])
      some (setOutput graph sourceName outputName connections)

def parseMainConnections (sourceName : String) (outputs : NodeInputConnections) (graph : SemanticGraph) :
    Option SemanticGraph :=
  match graph.nodes.get? sourceName with
  | none => some graph
  | some sourceNode => outputs.zipIdx.foldlM (parseMainOutput sourceName sourceNode) graph

def parseErrorConnections (sourceName : String) (outputs : NodeInputConnections) (graph : SemanticGraph) :
    Option SemanticGraph :=
  match graph.nodes.get? sourceName with
  | none => some graph
  | some _ => do
      let (graph, connections) ← (outputs.flatMap (·.getD [])).foldlM (addTarget sourceName "error") (graph, [])
      some (setOutput graph sourceName "error" connections)

def addSubnode (sourceName connectionType : String) (graph : SemanticGraph) (target : IConnection) : SemanticGraph :=
  graph.modify target.node fun node => { node with
    subnodes := node.subnodes ++ [⟨connectionType, sourceName, target.index⟩] }

def parseAiConnections (sourceName connectionType : String) (outputs : NodeInputConnections) (graph : SemanticGraph) :
    SemanticGraph :=
  match graph.nodes.get? sourceName with
  | none => graph
  | some _ => (outputs.flatMap (·.getD [])).foldl (addSubnode sourceName connectionType) graph

def AI_CONNECTION_TYPES : List String :=
  ["ai_languageModel", "ai_memory", "ai_tool", "ai_outputParser", "ai_embedding", "ai_vectorStore", "ai_retriever",
    "ai_document", "ai_textSplitter", "ai_reranker"]

def parseConnections (sourceName : String) (byType : INodeConnections) (graph : SemanticGraph) (connType : String) :
    Option SemanticGraph :=
  let outputs := (byType.get? connType).getD []
  if connType = "main" then parseMainConnections sourceName outputs graph
  else if connType = "error" then parseErrorConnections sourceName outputs graph
  else if connType ∈ AI_CONNECTION_TYPES then some (parseAiConnections sourceName connType outputs graph)
  else some graph

def parseSource (connections : IConnections) (graph : SemanticGraph) (sourceName : String) : Option SemanticGraph :=
  let byType := (connections.get? sourceName).getD .empty
  byType.keys.foldlM (parseConnections sourceName byType) graph

def parseAll (connections : IConnections) (graph : SemanticGraph) : Option SemanticGraph :=
  connections.keys.foldlM (parseSource connections) graph

def sortSubnodes (graph : SemanticGraph) : SemanticGraph :=
  { graph with nodes := graph.nodes.mapValues fun node => { node with
      subnodes := node.subnodes.insertionSort fun a b => a.index ≤ b.index } }

def subnodeNames (graph : SemanticGraph) : OrderedSet String :=
  .ofList (graph.nodes.entries.flatMap fun e => e.2.subnodes.map (·.subnodeName))

def identifyRoots (graph : SemanticGraph) : List String :=
  let hasIncomingConnections := OrderedSet.ofList graph.targets
  let subnodeNames := subnodeNames graph
  (graph.nodes.entries.filter fun e =>
    ¬ e.1 ∈ subnodeNames ∧ (e.2.annotations.isTrigger ∨ ¬ e.1 ∈ hasIncomingConnections)).map Prod.fst

def nextIn (graph : SemanticGraph) (scope : List String) (name : String) : List String :=
  (graph.next name).filter (· ∈ scope)

theorem nextIn_subset (graph : SemanticGraph) (scope : List String) (name : String) :
    ∀ target ∈ nextIn graph scope name, target ∈ graph.targets := fun target h =>
  graph.next_subset name target (List.mem_filter.1 h).1

def markReachable (graph : SemanticGraph) (scope processed : List String) (start : String) : List String :=
  stackMarks (nextIn graph scope) graph.targets (nextIn_subset graph scope) processed [start]

def reachableFrom (graph : SemanticGraph) (roots : List String) : List String :=
  stackMarks graph.next graph.targets graph.next_subset [] roots.reverse

def disconnectedNodes (graph : SemanticGraph) : List String :=
  let reachable := reachableFrom graph graph.roots
  let subnodeNames := subnodeNames graph
  graph.names.filter fun name => name ∉ reachable ∧ ¬ name ∈ subnodeNames

def incomingFromDisconnected (graph : SemanticGraph) (disconnected : List String) (name : String) : List String :=
  disconnected.filter fun nodeName => nodeName ≠ name ∧ name ∈ graph.next nodeName

/-- A pass over the names that takes those not yet reached as further roots. -/
def entryPass (graph : SemanticGraph) (disconnected : List String) (isEntry : String → Bool) (names : List String)
    (acc : List String × List String) : List String × List String :=
  names.foldl (fun acc name =>
    if name ∉ acc.2 ∧ isEntry name then (acc.1 ++ [name], markReachable graph disconnected acc.2 name) else acc) acc

def findDisconnectedRoots (graph : SemanticGraph) : List String :=
  let disconnected := disconnectedNodes graph
  let first := entryPass graph disconnected
    (fun name => (incomingFromDisconnected graph disconnected name).isEmpty) disconnected ([], [])
  (entryPass graph disconnected (fun _ => true) disconnected first).1

def withRoots (graph : SemanticGraph) : SemanticGraph :=
  let graph := { graph with roots := identifyRoots graph }
  { graph with roots := graph.roots ++ findDisconnectedRoots graph }

def buildSemanticGraph (json : WorkflowJSON) : Option SemanticGraph := do
  let graph ← parseAll (normalizeConnections (deepCopy json.connections)) ⟨(createNodes json.nodes).nodes, [], .empty⟩
  some (withRoots (sortSubnodes graph))

end N8n.Codegen
