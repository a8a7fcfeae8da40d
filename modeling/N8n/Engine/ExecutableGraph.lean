import N8n.Workflow.Interfaces
import N8n.Lib.StronglyConnected

namespace N8n.Engine

open Lib Relation

inductive StepType where
  | trigger
  | v1Node
  | wait
  | subworkflow
  | batch
deriving DecidableEq

structure GraphNode where
  id : String
  name : String
  type : StepType
  config : Option Json

structure GraphEdge where
  fromId : String
  toId : String
  outputIndex : Nat
  inputIndex : Nat
  isBackEdge : Bool
deriving DecidableEq

structure WorkflowGraph where
  nodes : List GraphNode
  edges : List GraphEdge

/-- The batch size of a batch node's configuration, a whole number of at least 1. -/
def batchStepConfig : Option Json → Option Nat
  | some (.obj fields) =>
    match field fields "batchSize" with
    | some (.num batchSize) => if batchSize.den = 1 ∧ 1 ≤ batchSize.num then some batchSize.num.toNat else none
    | _ => none
  | _ => none

def findTriggerNode (graph : WorkflowGraph) : Option GraphNode := graph.nodes.find? (·.type = .trigger)

def WorkflowGraph.outgoing (graph : WorkflowGraph) (nodeId : String) : List GraphEdge :=
  graph.edges.filter (·.fromId = nodeId)

def WorkflowGraph.incoming (graph : WorkflowGraph) (nodeId : String) : List GraphEdge :=
  graph.edges.filter (·.toId = nodeId)

def getSuccessorNodeIds (graph : WorkflowGraph) (nodeId : String) : OrderedSet String :=
  .ofList ((graph.outgoing nodeId).map (·.toId))

variable {graph : WorkflowGraph} {nodeId : String}

theorem mem_outgoing {edge : GraphEdge} : edge ∈ graph.outgoing nodeId ↔ edge ∈ graph.edges ∧ edge.fromId = nodeId := by
  rw [WorkflowGraph.outgoing, List.mem_filter, decide_eq_true_iff]

theorem mem_incoming {edge : GraphEdge} : edge ∈ graph.incoming nodeId ↔ edge ∈ graph.edges ∧ edge.toId = nodeId := by
  rw [WorkflowGraph.incoming, List.mem_filter, decide_eq_true_iff]

theorem mem_getSuccessorNodeIds {id : String} :
    id ∈ getSuccessorNodeIds graph nodeId ↔ ∃ edge ∈ graph.edges, edge.fromId = nodeId ∧ edge.toId = id := by
  rw [getSuccessorNodeIds, OrderedSet.mem_ofList, List.mem_map]
  constructor
  · rintro ⟨edge, he, rfl⟩
    obtain ⟨he, hfrom⟩ := mem_outgoing.1 he
    exact ⟨edge, he, hfrom, rfl⟩
  · rintro ⟨edge, he, hfrom, rfl⟩
    exact ⟨edge, mem_outgoing.2 ⟨he, hfrom⟩, rfl⟩

theorem successors_bound (graph : WorkflowGraph) (nodeId : String) :
    ∀ id ∈ getSuccessorNodeIds graph nodeId, id ∈ graph.edges.map (·.toId) := by
  intro id hid
  obtain ⟨edge, he, -, rfl⟩ := mem_getSuccessorNodeIds.1 hid
  exact List.mem_map_of_mem he

/-- Every node downstream of a node, breadth first. -/
def getDescendantNodeIds (graph : WorkflowGraph) (nodeId : String) : OrderedSet String :=
  let descendants := getSuccessorNodeIds graph nodeId
  queueSearch (getSuccessorNodeIds graph) (graph.edges.map (·.toId)) (successors_bound graph) descendants descendants.items

def WorkflowGraph.Leads (graph : WorkflowGraph) : String → String → Prop :=
  ReflTransGen fun a b => ∃ edge ∈ graph.edges, edge.fromId = a ∧ edge.toId = b

theorem leads_iff {a b : String} :
    graph.Leads a b ↔ ReflTransGen (Step fun a => (getSuccessorNodeIds graph a).items) a b := by
  have hstep : (fun a b => ∃ edge ∈ graph.edges, edge.fromId = a ∧ edge.toId = b) =
      Step fun a => (getSuccessorNodeIds graph a).items := by
    funext a b
    exact propext mem_getSuccessorNodeIds.symm
  rw [WorkflowGraph.Leads, hstep]

theorem mem_getDescendantNodeIds {id : String} :
    id ∈ getDescendantNodeIds graph nodeId ↔
      ∃ edge ∈ graph.edges, edge.fromId = nodeId ∧ graph.Leads edge.toId id := by
  rw [getDescendantNodeIds, mem_queueSearch]
  constructor
  · rintro ⟨a, ha, hr⟩
    obtain ⟨edge, he, hfrom, rfl⟩ := mem_getSuccessorNodeIds.1 ha
    exact ⟨edge, he, hfrom, leads_iff.2 hr⟩
  · rintro ⟨edge, he, hfrom, hr⟩
    exact ⟨edge.toId, mem_getSuccessorNodeIds.2 ⟨edge, he, hfrom, rfl⟩, leads_iff.1 hr⟩

def reachableNodeIds (graph : WorkflowGraph) (nodeId : String) : OrderedSet String :=
  .ofList (nodeId :: (getDescendantNodeIds graph nodeId).items)

theorem mem_reachableNodeIds {id : String} : id ∈ reachableNodeIds graph nodeId ↔ graph.Leads nodeId id := by
  rw [reachableNodeIds, OrderedSet.mem_ofList, List.mem_cons, OrderedSet.mem_items, mem_getDescendantNodeIds]
  constructor
  · rintro (rfl | ⟨edge, he, hfrom, hr⟩)
    · exact .refl
    · exact .head ⟨edge, he, hfrom, rfl⟩ hr
  · intro hr
    rcases ReflTransGen.cases_head hr with rfl | ⟨a, ⟨edge, he, hfrom, rfl⟩, hr⟩
    · exact .inl rfl
    · exact .inr ⟨edge, he, hfrom, hr⟩

inductive GraphError where
  | validation (message : String)
  | unimplemented (message : String)
deriving DecidableEq

structure WorkflowLoop where
  batchNodeId : String
  memberIds : OrderedSet String
  backEdges : List GraphEdge
  entryEdges : List GraphEdge
  exitEdges : List GraphEdge
deriving DecidableEq

def edgeTargets (edges : List GraphEdge) (nodeId : String) : List String :=
  (edges.filter (·.fromId = nodeId)).map (·.toId)

def searchBound (graph : WorkflowGraph) (edges : List GraphEdge) : List String :=
  graph.nodes.map (·.id) ++ edges.map (·.toId)

def computeSccMembership (graph : WorkflowGraph) (edges : List GraphEdge) : ObjectMap String (OrderedSet String) :=
  components (edgeTargets edges) (searchBound graph edges).length (graph.nodes.map (·.id))

def deriveLoop (graph : WorkflowGraph) (sccByNode : ObjectMap String (OrderedSet String)) (batchNodeId : String) :
    WorkflowLoop :=
  let memberIds := (sccByNode.get? batchNodeId).getD (.ofList [batchNodeId])
  { batchNodeId
    memberIds
    backEdges := graph.edges.filter fun e => e.isBackEdge = true ∧ e.toId = batchNodeId
    entryEdges := graph.edges.filter fun e => e.isBackEdge = false ∧ e.toId = batchNodeId ∧ e.fromId ∉ memberIds
    exitEdges := graph.edges.filter fun e => e.isBackEdge = false ∧ e.fromId ∈ memberIds ∧ e.toId ∉ memberIds }

def backEdgeTargets (graph : WorkflowGraph) : OrderedSet String :=
  .ofList ((graph.edges.filter (·.isBackEdge)).map (·.toId))

def deriveLoops (graph : WorkflowGraph) : List WorkflowLoop :=
  (backEdgeTargets graph).items.map (deriveLoop graph (computeSccMembership graph graph.edges))

def isCyclic (members : OrderedSet String) (edges : List GraphEdge) : Bool :=
  members.size > 1 || members.items.head?.any fun only => edges.any fun e => e.fromId = only ∧ e.toId = only

def throwIf (bad : Prop) [Decidable bad] (error : GraphError) : Except GraphError Unit :=
  if bad then .error error else .ok ()

section Rules

variable (graph : WorkflowGraph)

def nodeName (id : String) : String := ((graph.nodes.reverse.find? (·.id = id)).map (·.name)).getD id

def edgeName (edge : GraphEdge) : String := s!"Edge {nodeName graph edge.fromId} -> {nodeName graph edge.toId}"

def forwardEdges : List GraphEdge := graph.edges.filter fun e => e.isBackEdge = false

def nodeIdsOfType (type : StepType) : List String := (graph.nodes.filter (·.type = type)).map (·.id)

def checkNodeIds : List String → List GraphNode → Except GraphError Unit
  | _, [] => .ok ()
  | seen, node :: nodes => do
      throwIf (node.id ∈ seen) (.validation s!"Two nodes share the id {node.id}")
      checkNodeIds (node.id :: seen) nodes

def checkEndpoints : Except GraphError Unit :=
  graph.edges.forM fun edge =>
    [edge.fromId, edge.toId].forM fun endpoint =>
      throwIf (endpoint ∉ graph.nodes.map (·.id))
        (.validation s!"{edgeName graph edge} references {endpoint}, which is not a node in the graph")

/-- Rule 1: with the back-edges removed, no component is cyclic. -/
def checkForward : Except GraphError Unit :=
  ((computeSccMembership graph (forwardEdges graph)).entries.map (·.2)).forM fun members =>
    let names := ", ".intercalate (members.items.map (nodeName graph))
    throwIf (isCyclic members (forwardEdges graph) = true)
      (.validation s!"Nodes {names} form a cycle with no back-edge to close it, so none of them can ever become runnable")

/-- Rule 3, for a batch node to which nothing returns. -/
def checkBatchNodes : Except GraphError Unit :=
  (nodeIdsOfType graph .batch).forM fun batchNodeId =>
    throwIf (batchNodeId ∉ (deriveLoops graph).map (·.batchNodeId))
      (.validation s!"Batch node {nodeName graph batchNodeId} has no back-edge returning to it, so its loop could never advance")

variable (loop : WorkflowLoop)

def checkHead : Except GraphError Unit := do
  let batchNode := nodeName graph loop.batchNodeId
  throwIf (loop.batchNodeId ∉ nodeIdsOfType graph .batch)
    (.validation s!"Node {batchNode} has a back-edge returning to it but is not a batch node")
  throwIf ((batchStepConfig ((graph.nodes.find? (·.id = loop.batchNodeId)).bind (·.config))).isNone = true)
    (.validation s!"Batch node {batchNode} has no batch size, and it must be a whole number of at least 1")

def checkMembers : Except GraphError Unit := do
  let batchNode := nodeName graph loop.batchNodeId
  loop.memberIds.items.forM fun memberId =>
    throwIf (memberId ∈ nodeIdsOfType graph .trigger)
      (.validation s!"Trigger {nodeName graph memberId} is inside the loop of {batchNode}, so that loop could never start")
  loop.memberIds.items.forM fun memberId =>
    throwIf (memberId ≠ loop.batchNodeId ∧ memberId ∈ nodeIdsOfType graph .batch)
      (.unimplemented s!"Batch node {nodeName graph memberId} sits inside the loop of {batchNode}; nested loops are not supported yet")

/-- Rule 2, and rule 3 for several returns. -/
def checkReturns : Except GraphError Unit := do
  loop.backEdges.forM fun edge => do
    let name := s!"Back-edge {nodeName graph edge.fromId} -> {nodeName graph edge.toId}"
    throwIf (edge.inputIndex ≠ 0)
      (.validation s!"{name} feeds input slot {edge.inputIndex}; returns feed the batch node's slot 0")
    throwIf (edge.fromId ∉ loop.memberIds) (.validation s!"{name} returns from outside the loop")
  throwIf (loop.backEdges.length > 1)
    (.unimplemented s!"Batch node {nodeName graph loop.batchNodeId} has {loop.backEdges.length} back-edges; multiple returns converge on one input slot, which is not supported yet")

/-- Rule 4: the batch node's own slots. -/
def checkSlots : Except GraphError Unit :=
  graph.edges.forM fun edge => do
    throwIf (edge.toId = loop.batchNodeId ∧ edge.isBackEdge = false ∧ edge.inputIndex ≠ 0)
      (.validation s!"{edgeName graph edge} feeds input slot {edge.inputIndex} of a batch node, which has only slot 0")
    throwIf (edge.fromId = loop.batchNodeId ∧ edge.outputIndex ≠ 0 ∧ edge.outputIndex ≠ 1)
      (.validation s!"{edgeName graph edge} leaves output slot {edge.outputIndex} of a batch node, which has only done (0) and loop (1)")

def checkEntries : Except GraphError Unit :=
  throwIf (loop.entryEdges.length > 1)
    (.unimplemented s!"Batch node {nodeName graph loop.batchNodeId} has {loop.entryEdges.length} entry edges; converging entries on its input slot is not supported yet")

/-- Rule 5, the way out. -/
def checkExits : Except GraphError Unit :=
  loop.exitEdges.forM fun edge => do
    throwIf (edge.fromId ≠ loop.batchNodeId)
      (.unimplemented s!"{edgeName graph edge} leaves the loop of {nodeName graph loop.batchNodeId} mid-body; dangling body branches are not supported yet")
    throwIf (edge.outputIndex ≠ 0)
      (.validation s!"{edgeName graph edge} leaves the loop from the loop slot; only the done slot (0) exits")

/-- Rule 5, where the done slot may point, and the way in. -/
def checkBody : Except GraphError Unit :=
  graph.edges.forM fun edge => do
    let batchNode := nodeName graph loop.batchNodeId
    throwIf (edge.fromId = loop.batchNodeId ∧ edge.outputIndex = 0 ∧ edge.toId ∈ loop.memberIds)
      (.validation s!"Done slot of {batchNode} feeds {nodeName graph edge.toId}, a member of its own loop; a node cannot run both per iteration and after the loop")
    throwIf (edge.isBackEdge = false ∧ edge.toId ∈ loop.memberIds ∧ edge.toId ≠ loop.batchNodeId ∧
        edge.fromId ∉ loop.memberIds)
      (.validation s!"{edgeName graph edge} enters the loop of {batchNode} mid-body; the batch node is the only way in")

def validateLoop : Except GraphError Unit := do
  checkHead graph loop
  checkMembers graph loop
  checkReturns graph loop
  checkSlots graph loop
  checkEntries graph loop
  checkExits graph loop
  checkBody graph loop

def validateLoops : Except GraphError Unit := do
  checkNodeIds [] graph.nodes
  checkEndpoints graph
  checkForward graph
  checkBatchNodes graph
  (deriveLoops graph).forM (validateLoop graph)

end Rules

def maxSlotIndex : Nat := 100

def checkInputSlots : List String → List GraphEdge → Except GraphError Unit
  | _, [] => .ok ()
  | seen, edge :: edges =>
    if edge.isBackEdge then checkInputSlots seen edges
    else do
      throwIf (s!"{edge.toId}#{edge.inputIndex}" ∈ seen)
        (.unimplemented s!"Node {edge.toId} has more than one edge into input slot {edge.inputIndex}; converging branches on one slot is not supported yet")
      checkInputSlots (s!"{edge.toId}#{edge.inputIndex}" :: seen) edges

def validateExecutableGraph (graph : WorkflowGraph) : Except GraphError Unit :=
  match graph.nodes.filter (·.type = .trigger) with
  | [] => .error (.validation "Graph has no trigger node to start from")
  | _ :: _ :: _ => .error (.validation "Graph must have exactly one trigger node")
  | [trigger] => do
      validateLoops graph
      let reachable := reachableNodeIds graph trigger.id
      graph.edges.forM fun edge =>
        throwIf (edge.toId ∈ reachable ∧ edge.fromId ∉ reachable)
          (.validation s!"Edge {edge.fromId} -> {edge.toId} feeds a node the trigger reaches from one it cannot reach, so {edge.toId} would wait on {edge.fromId} forever")
      -- Slot indices are natural numbers here.
      graph.edges.forM fun edge =>
        [edge.outputIndex, edge.inputIndex].forM fun index =>
          throwIf (index > maxSlotIndex)
            (.validation s!"Edge {edge.fromId} -> {edge.toId} has slot index {index}; slot indices above {maxSlotIndex} are not supported yet")
      checkInputSlots [] graph.edges

section Checks

variable {ε : Type}

theorem bind_ok {first second : Except ε Unit} :
    (first >>= fun _ => second) = .ok () ↔ first = .ok () ∧ second = .ok () := by
  cases first with
  | error e => exact ⟨(fun h => nomatch h), fun h => nomatch h.1⟩
  | ok u => exact ⟨fun h => ⟨rfl, h⟩, fun h => h.2⟩

theorem forM_ok {α : Type} {check : α → Except ε Unit} {as : List α} :
    as.forM check = .ok () ↔ ∀ a ∈ as, check a = .ok () := by
  induction as with
  | nil => exact ⟨(fun _ _ h => nomatch h), fun _ => rfl⟩
  | cons a as ih =>
    rw [List.forall_mem_cons, ← ih]
    exact bind_ok

theorem throwIf_ok {bad : Prop} [Decidable bad] {error : GraphError} : throwIf bad error = .ok () ↔ ¬ bad := by
  rw [throwIf]
  split
  · next h => exact ⟨fun he => (nomatch he), fun hn => absurd h hn⟩
  · next h => exact ⟨fun _ => h, fun _ => rfl⟩

end Checks

def Forward (graph : WorkflowGraph) (a b : String) : Prop :=
  ∃ edge ∈ graph.edges, edge.isBackEdge = false ∧ edge.fromId = a ∧ edge.toId = b

structure LoopRules (graph : WorkflowGraph) (loop : WorkflowLoop) : Prop where
  batch : loop.batchNodeId ∈ nodeIdsOfType graph .batch
  config : (batchStepConfig ((graph.nodes.find? (·.id = loop.batchNodeId)).bind (·.config))).isSome = true
  no_trigger : ∀ memberId ∈ loop.memberIds, memberId ∉ nodeIdsOfType graph .trigger
  no_nested : ∀ memberId ∈ loop.memberIds, memberId ∈ nodeIdsOfType graph .batch → memberId = loop.batchNodeId
  returns : ∀ edge ∈ loop.backEdges, edge.inputIndex = 0 ∧ edge.fromId ∈ loop.memberIds
  one_return : loop.backEdges.length ≤ 1
  slot_in : ∀ edge ∈ graph.edges, edge.toId = loop.batchNodeId → edge.isBackEdge = false → edge.inputIndex = 0
  slot_out : ∀ edge ∈ graph.edges, edge.fromId = loop.batchNodeId → edge.outputIndex = 0 ∨ edge.outputIndex = 1
  one_entry : loop.entryEdges.length ≤ 1
  exits : ∀ edge ∈ loop.exitEdges, edge.fromId = loop.batchNodeId ∧ edge.outputIndex = 0
  done : ∀ edge ∈ graph.edges, edge.fromId = loop.batchNodeId → edge.outputIndex = 0 → edge.toId ∉ loop.memberIds
  way_in : ∀ edge ∈ graph.edges, edge.isBackEdge = false → edge.toId ∈ loop.memberIds → edge.toId ≠ loop.batchNodeId →
    edge.fromId ∈ loop.memberIds

structure LoopsValid (graph : WorkflowGraph) : Prop where
  ids : (graph.nodes.map (·.id)).Nodup
  endpoints : ∀ edge ∈ graph.edges, edge.fromId ∈ graph.nodes.map (·.id) ∧ edge.toId ∈ graph.nodes.map (·.id)
  forward : ∀ members ∈ (computeSccMembership graph (forwardEdges graph)).entries.map (·.2),
    isCyclic members (forwardEdges graph) = false
  batches : ∀ batchNodeId ∈ nodeIdsOfType graph .batch, ∃ loop ∈ deriveLoops graph, loop.batchNodeId = batchNodeId
  loops : ∀ loop ∈ deriveLoops graph, LoopRules graph loop

structure Executable (graph : WorkflowGraph) : Prop extends LoopsValid graph where
  trigger : ∃ trigger, graph.nodes.filter (·.type = .trigger) = [trigger]
  reachable : ∀ trigger, findTriggerNode graph = some trigger → ∀ edge ∈ graph.edges,
    graph.Leads trigger.id edge.toId → graph.Leads trigger.id edge.fromId
  slots : graph.edges.Pairwise fun e e' => e.isBackEdge = false → e'.isBackEdge = false → e.toId = e'.toId →
    e.inputIndex ≠ e'.inputIndex

theorem checkNodeIds_ok {nodes : List GraphNode} {seen : List String} (h : checkNodeIds seen nodes = .ok ()) :
    (nodes.map (·.id)).Nodup ∧ ∀ id ∈ nodes.map (·.id), id ∉ seen := by
  induction nodes generalizing seen with
  | nil => exact ⟨.nil, fun _ h => nomatch h⟩
  | cons node nodes ih =>
    rw [checkNodeIds, bind_ok, throwIf_ok] at h
    obtain ⟨hnodup, hseen⟩ := ih h.2
    rw [List.map_cons, List.nodup_cons]
    refine ⟨⟨fun hm => hseen _ hm List.mem_cons_self, hnodup⟩, fun id hid => ?_⟩
    rcases List.mem_cons.1 hid with rfl | hid
    · exact h.1
    · exact fun hs => hseen id hid (List.mem_cons_of_mem _ hs)

theorem checkInputSlots_ok {edges : List GraphEdge} {seen : List String} (h : checkInputSlots seen edges = .ok ()) :
    (edges.Pairwise fun e e' => e.isBackEdge = false → e'.isBackEdge = false → e.toId = e'.toId →
      e.inputIndex ≠ e'.inputIndex) ∧
      ∀ e ∈ edges, e.isBackEdge = false → s!"{e.toId}#{e.inputIndex}" ∉ seen := by
  induction edges generalizing seen with
  | nil => exact ⟨.nil, fun _ h => nomatch h⟩
  | cons edge edges ih =>
    rw [checkInputSlots] at h
    rw [List.pairwise_cons]
    split at h
    · next hback =>
      obtain ⟨hpairwise, hseen⟩ := ih h
      refine ⟨⟨fun e _ he => absurd hback (by rw [he]; exact Bool.false_ne_true), hpairwise⟩, fun e he hf => ?_⟩
      rcases List.mem_cons.1 he with rfl | he
      · rw [hf] at hback
        cases hback
      · exact hseen e he hf
    · rw [bind_ok, throwIf_ok] at h
      obtain ⟨hpairwise, hseen⟩ := ih h.2
      refine ⟨⟨fun e he _ hf hto hslot => ?_, hpairwise⟩, fun e he hf => ?_⟩
      · apply hseen e he hf
        rw [← hto, ← hslot]
        exact List.mem_cons_self
      · rcases List.mem_cons.1 he with rfl | he
        · exact h.1
        · exact fun hs => hseen e he hf (List.mem_cons_of_mem _ hs)

theorem validateLoop_ok {loop : WorkflowLoop} (h : validateLoop graph loop = .ok ()) : LoopRules graph loop := by
  rw [validateLoop, bind_ok, bind_ok, bind_ok, bind_ok, bind_ok, bind_ok] at h
  obtain ⟨hhead, hmembers, hreturns, hslots, hentries, hexits, hbody⟩ := h
  rw [checkHead, bind_ok, throwIf_ok, throwIf_ok, not_not] at hhead
  rw [checkMembers, bind_ok, forM_ok, forM_ok] at hmembers
  rw [checkReturns, bind_ok, forM_ok, throwIf_ok] at hreturns
  rw [checkSlots, forM_ok] at hslots
  rw [checkEntries, throwIf_ok] at hentries
  rw [checkExits, forM_ok] at hexits
  rw [checkBody, forM_ok] at hbody
  simp only [bind_ok, throwIf_ok, not_not] at hmembers hreturns hslots hexits hbody
  exact
    { batch := hhead.1
      config := by
        rw [Option.isNone_iff_eq_none] at hhead
        exact Option.isSome_iff_ne_none.2 hhead.2
      no_trigger := hmembers.1
      no_nested := fun m hm hbatch => by
        by_contra hne
        exact hmembers.2 m hm ⟨hne, hbatch⟩
      returns := hreturns.1
      one_return := Nat.le_of_not_lt hreturns.2
      slot_in := fun e he hto hf => by
        by_contra hne
        exact (hslots e he).1 ⟨hto, hf, hne⟩
      slot_out := fun e he hfrom => by
        by_contra hne
        rw [not_or] at hne
        exact (hslots e he).2 ⟨hfrom, hne⟩
      one_entry := Nat.le_of_not_lt hentries
      exits := hexits
      done := fun e he hfrom hslot hm => (hbody e he).1 ⟨hfrom, hslot, hm⟩
      way_in := fun e he hf hm hne => by
        by_contra hnot
        exact (hbody e he).2 ⟨hf, hm, hne, hnot⟩ }

theorem loopsValid_of_valid (h : validateLoops graph = .ok ()) : LoopsValid graph := by
  rw [validateLoops, bind_ok, bind_ok, bind_ok, bind_ok] at h
  obtain ⟨hids, hends, hforward, hbatches, hrules⟩ := h
  rw [checkEndpoints, forM_ok] at hends
  rw [checkForward, forM_ok] at hforward
  rw [checkBatchNodes, forM_ok] at hbatches
  rw [forM_ok] at hrules
  simp only [forM_ok, throwIf_ok, not_not, List.forall_mem_cons] at hends
  simp only [throwIf_ok, not_not] at hbatches
  simp only [throwIf_ok, Bool.not_eq_true] at hforward
  exact
    { ids := (checkNodeIds_ok hids).1
      endpoints := fun e he => ⟨(hends e he).1, (hends e he).2.1⟩
      forward := hforward
      batches := fun b hb => by
        obtain ⟨loop, hl, he⟩ := List.mem_map.1 (hbatches b hb)
        exact ⟨loop, hl, he⟩
      loops := fun loop hl => validateLoop_ok (hrules loop hl) }

theorem executable_of_valid (h : validateExecutableGraph graph = .ok ()) : Executable graph := by
  rw [validateExecutableGraph] at h
  split at h
  · cases h
  · cases h
  · next trigger htrigger =>
    rw [bind_ok] at h
    obtain ⟨hloops, h⟩ := h
    rw [bind_ok, bind_ok, forM_ok, forM_ok] at h
    obtain ⟨hreach, -, hslots⟩ := h
    simp only [throwIf_ok] at hreach
    exact
      { loopsValid_of_valid hloops with
        trigger := ⟨trigger, htrigger⟩
        reachable := fun t ht e he hto => by
          have hfind : findTriggerNode graph = some trigger := by
            rw [findTriggerNode, ← List.head?_filter, htrigger]
            rfl
          cases hfind.symm.trans ht
          by_contra hnot
          exact hreach e he ⟨mem_reachableNodeIds.2 hto, fun hm => hnot (mem_reachableNodeIds.1 hm)⟩
        slots := (checkInputSlots_ok hslots).1 }

end N8n.Engine
