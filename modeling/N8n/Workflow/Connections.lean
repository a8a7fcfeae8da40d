import N8n.Workflow.Interfaces

namespace N8n

open Lib

inductive ConnectionType where
  | all
  | allNonMain
  | type (name : String)
  deriving DecidableEq

/-- `inputs.push([])` until the list has a place for `index`, then the push at that place. -/
def pushAt (places : NodeInputConnections) (index : Nat) (c : IConnection) : NodeInputConnections :=
  let padded := places ++ List.replicate (index + 1 - places.length) (some [])
  padded.modify index (fun place => place.map (fun cs => cs ++ [c]))

def addByDestination (acc : IConnections) (sourceNode type : String) (inputIndex : Nat)
    (connectionInfo : IConnection) : IConnections :=
  let byType := (acc.get? connectionInfo.node).getD ObjectMap.empty
  let places := (byType.get? connectionInfo.type).getD []
  acc.set connectionInfo.node
    (byType.set connectionInfo.type (pushAt places connectionInfo.index ⟨sourceNode, type, inputIndex⟩))

/-- The index for names that objects do not inherit or hide: `mapByDestination` has the lookups of the source. -/
def mapConnectionsByDestination (connections : IConnections) : IConnections :=
  connections.keys.foldl (fun acc sourceNode =>
    let byType := (connections.get? sourceNode).getD ObjectMap.empty
    byType.keys.foldl (fun acc type =>
      let places := (byType.get? type).getD []
      places.zipIdx.foldl (fun acc place =>
        (place.1.getD []).foldl (fun acc connectionInfo =>
          addByDestination acc sourceNode type place.2 connectionInfo) acc) acc) acc) ObjectMap.empty

def moveToFront (names : List String) (name : String) : List String := name :: names.erase name

def connectionTypes (connectionType : ConnectionType) (byType : INodeConnections) : List String :=
  match connectionType with
  | .all => byType.keys
  | .allNonMain => byType.keys.filter (fun t => t ≠ "main")
  | .type name => [name]

def connectionsOfTypes (byType : INodeConnections) (types : List String) : List IConnection :=
  types.flatMap (fun t => ((byType.get? t).getD []).flatMap (fun place => place.getD []))

abbrev Memo := ObjectMap (Int × String) (List String)

/-- The names on the current path differ and all have connections, so
the fuel need not exceed the number of nodes with connections by more than one. -/
def collectConnectedNodes (connections : IConnections) (connectionType : ConnectionType) :
    Nat → String → Int → List String → Memo → List String × Memo
  | 0, _, _, _, memo => ([], memo)
  | fuel + 1, nodeName, depth, currentPath, memo =>
    if depth = 0 then ([], memo)
    else
      match connections.get? nodeName with
      | none => ([], memo)
      | some byType =>
        match memo.get? (depth, nodeName) with
        | some cached => (cached, memo)
        | none =>
          let newDepth := if depth = -1 then depth else depth - 1
          let path := nodeName :: currentPath
          let result := (connectionsOfTypes byType (connectionTypes connectionType byType)).foldl
            (fun (acc : List String × Memo) connection =>
              if connection.node ∈ path then acc
              else
                let returnNodes := moveToFront acc.1 connection.node
                let sub := collectConnectedNodes connections connectionType fuel connection.node newDepth path acc.2
                (sub.1.foldr (fun name names => moveToFront names name) returnNodes, sub.2))
            ([], memo)
          (result.1, result.2.set (depth, nodeName) result.1)

def getConnectedNodes (connections : IConnections) (nodeName : String)
    (connectionType : ConnectionType) (depth : Int) : List String :=
  (collectConnectedNodes connections connectionType (connections.entries.length + 1) nodeName depth []
    ObjectMap.empty).1

namespace Workflow

def connectionsByDestinationNode (w : Workflow) : IConnections :=
  mapConnectionsByDestination w.connectionsBySourceNode

def isLegacyExecutionOrder (w : Workflow) : Bool := w.executionOrder ≠ some .v1

def getNode (w : Workflow) (name : String) : Option INode := w.nodes.get? name

def getParentNodes (w : Workflow) (nodeName : String) : List String :=
  getConnectedNodes w.connectionsByDestinationNode nodeName (.type "main") (-1)

/-- The incoming main connections of a node; `none` when the node has none of that type. -/
def mainInputs (w : Workflow) (nodeName : String) : Option NodeInputConnections :=
  (w.connectionsByDestinationNode.get? nodeName).bind (fun byType => byType.get? "main")

def numberOfInputs (w : Workflow) (nodeName : String) : Nat := ((w.mainInputs nodeName).getD []).length

def isDisabled (w : Workflow) (nodeName : String) : Option Bool := (w.getNode nodeName).bind INode.disabled

def addMissing (names : List String) (add : List String) : List String :=
  add.foldl (fun acc name => if name ∈ acc then acc else acc ++ [name]) names

/-- `checkedNodes` is shared by the whole search, so a name is followed at most once. -/
def highestNode (w : Workflow) : Nat → String → Option Nat → List String → List String × List String
  | 0, _, _, checked => ([], checked)
  | fuel + 1, nodeName, nodeConnectionIndex, checked =>
    match w.getNode nodeName with
    | none => ([], checked)
    | some node =>
      let currentHighest := if node.disabled = some false then [nodeName] else []
      match w.mainInputs nodeName with
      | none => (currentHighest, checked)
      | some inputs =>
        if nodeName ∈ checked then (currentHighest, checked)
        else
          let followed := inputs.zipIdx.filter (fun p => nodeConnectionIndex.all (fun i => i = p.2))
          (followed.flatMap (fun p => p.1.getD [])).foldl
            (fun (acc : List String × List String) connection =>
              if connection.node ∈ acc.2 then acc
              else if (w.getNode connection.node).isNone then acc
              else
                let sub := highestNode w fuel connection.node none acc.2
                let addNodes :=
                  if sub.1 = [] ∧ w.isDisabled connection.node ≠ some true then [connection.node] else sub.1
                (addMissing acc.1 addNodes, sub.2))
            ([], checked ++ [nodeName])

def getHighestNode (w : Workflow) (nodeName : String) (nodeConnectionIndex : Option Nat) : List String :=
  (highestNode w (w.nodes.entries.length + 1) nodeName nodeConnectionIndex []).1

end Workflow

/-!
The connections of a workflow in the order in which its nested objects and arrays are walked.
-/

structure Visit where
  source : String
  type : String
  outputIndex : Nat
  connection : IConnection
deriving DecidableEq

def outputVisits (source type : String) (outputs : NodeInputConnections) : List Visit :=
  outputs.zipIdx.flatMap fun place => (place.1.getD []).map fun c => ⟨source, type, place.2, c⟩

def nodeVisits (source : String) (byType : INodeConnections) : List Visit :=
  byType.keys.flatMap fun type => outputVisits source type ((byType.get? type).getD [])

def visits (connections : IConnections) : List Visit :=
  connections.keys.flatMap fun source => nodeVisits source ((connections.get? source).getD .empty)

def visitByDestination (acc : IConnections) (v : Visit) : IConnections :=
  addByDestination acc v.source v.type v.outputIndex v.connection

theorem mapConnectionsByDestination_eq (connections : IConnections) :
    mapConnectionsByDestination connections = (visits connections).foldl visitByDestination .empty := by
  simp only [mapConnectionsByDestination, visits, nodeVisits, outputVisits, List.foldl_flatMap, List.foldl_map]
  rfl

theorem has_visitByDestination (acc : IConnections) (v : Visit) (nodeName : String) :
    (visitByDestination acc v).has nodeName = true ↔ v.connection.node = nodeName ∨ acc.has nodeName = true := by
  simp only [visitByDestination, addByDestination, ObjectMap.has, ObjectMap.get?_set]
  by_cases h : nodeName = v.connection.node
  · simp [h]
  · simp [h, Ne.symm h]

end N8n
