import N8n.PartialExecution.GraphSearch
import N8n.PartialExecution.SourceDataGroups
import N8n.Lib.Loop

namespace N8n.PartialExecution

open Lib Relation DirectedGraph

structure TaskData extends TaskRun where
  error : Option Json := none

abbrev TaskRunData := ObjectMap String (List TaskData)

def TaskRunData.outputs (runData : TaskRunData) : RunData := runData.mapValues fun runs => runs.map TaskData.toTaskRun

section Model

def hasAnError (runData : TaskRunData) (node : INode) : Except GraphError Bool :=
  match runData.get? node.name with
  | some runs => .ok (runs.any fun taskData => taskData.error.isSome)
  -- an inherited member has no `some`
  | none => if node.name ∈ inheritedNames then .error .typeError else .ok false

def isDirty (node : INode) (runData : TaskRunData) (pinData : PinData) : Except GraphError Bool :=
  match hasAnError runData node with
  | .error e => .error e
  | .ok true => .ok true
  | .ok false =>
    if hasMember pinData node.name then .ok false
    else if hasMember runData node.name then .ok false
    else .ok true

def isALoop (g : DirectedGraph INode) (node : INode) : Except GraphError Bool :=
  (g.getChildren node).map fun children => decide (node ∈ children)

/-- Whether the output to look at has no items on the last run: the `done` output at index 0, or, where the loop node
is not part of a loop, the output at index 1. -/
def lastRunEmpty (runData : TaskRunData) (node : INode) (isALoop : Bool) : Except GraphError Bool :=
  match getIncomingData runData.outputs node.name (-1) "main" (if isALoop then 0 else 1) with
  | .error e => .error e
  | .ok none => .ok true
  | .ok (some nodeRunData) => .ok (nodeRunData.length = 0)

variable (g : DirectedGraph INode) (destination : INode) (runData : TaskRunData) (pinData : PinData)

def isStartNode (current : INode) : Except GraphError Bool :=
  match isDirty current runData pinData with
  | .error e => .error e
  | .ok true => .ok true
  | .ok false =>
    if current = destination then .ok true
    else if current.type = "n8n-nodes-base.splitInBatches" then
      match isALoop g current with
      | .error e => .error e
      | .ok isALoop => lastRunEmpty runData current isALoop
    else .ok false

def isFollowed (outGoingConnection : GraphConnection INode) : Except GraphError Bool :=
  match getIncomingDataFromAnyRun runData.outputs outGoingConnection.fromNode.name outGoingConnection.type
    outGoingConnection.outputIndex with
  | .error e => .error e
  | .ok nodeRunData =>
    let hasNoRunData :=
      match nodeRunData with
      | none => true
      | some nodeRunData => nodeRunData.data.length = 0
    .ok (!(hasNoRunData && !hasMember pinData outGoingConnection.fromNode.name))

def findStartNodesRecursive (current : INode) (startNodes seen : OrderedSet INode) :
    Except GraphError (OrderedSet INode) :=
  match isStartNode g destination runData pinData current with
  | .error e => .error e
  | .ok true => .ok (startNodes.insert current)
  | .ok false =>
    if current ∈ seen then .ok startNodes
    else
      match _h : g.getDirectChildConnections current with
      | .error e => .error e
      | .ok outGoingConnections =>
        outGoingConnections.foldlM (fun acc outGoingConnection =>
          match isFollowed runData pinData outGoingConnection with
          | .error e => .error e
          | .ok true => findStartNodesRecursive outGoingConnection.toNode acc (seen.insert current)
          | .ok false => .ok acc) startNodes
termination_by (unseen g seen).length
decreasing_by
  refine unseen_lt ?_ ‹_›
  rw [getDirectChildConnections] at _h
  split at _h
  · cases _h
  · next hb => exact not_not.1 hb

def findStartNodes (trigger : INode) : Except GraphError (OrderedSet INode) :=
  findStartNodesRecursive g destination runData pinData trigger .empty .empty

end Model

section Walks

def HasItems (runData : RunData) (c : GraphConnection INode) : Prop :=
  ∃ runIndex data, outputItems runData c.fromNode.name runIndex c.type c.outputIndex = some data ∧ data ≠ []

/-- The output of the connection has items in some run, or its source is pinned. -/
def Carries (runData : TaskRunData) (pinData : PinData) (c : GraphConnection INode) : Prop :=
  HasItems runData.outputs c ∨ pinData.has c.fromNode.name = true

def Followed (g : DirectedGraph INode) (runData : TaskRunData) (pinData : PinData) (a b : INode) : Prop :=
  ∃ c ∈ g.getConnections, c.fromNode = a ∧ c.toNode = b ∧ Carries runData pinData c

def LastRunLacks (runData : RunData) (node : INode) (outputIndex : Nat) : Prop :=
  ∀ items, outputItems runData node.name (getRunIndexLength runData node.name - 1) "main" outputIndex = some items →
    items = []

/-- A run of the node has an error, or the node has neither pinned data nor run data. -/
def Dirty (runData : TaskRunData) (pinData : PinData) (node : INode) : Prop :=
  (∃ runs, runData.get? node.name = some runs ∧ ∃ taskData ∈ runs, taskData.error.isSome = true) ∨
    pinData.has node.name = false ∧ runData.has node.name = false

/-- A loop node without items on its done output in the last run, where each loop node has the given done outputs. -/
def UnfinishedLoop (runData : TaskRunData) (doneOutput : INode → Nat → Prop) (node : INode) : Prop :=
  node.type = "n8n-nodes-base.splitInBatches" ∧
    ∃ output, doneOutput node output ∧ LastRunLacks runData.outputs node output

def Stops (destination : INode) (runData : TaskRunData) (pinData : PinData) (unfinished : INode → Prop)
    (node : INode) : Prop :=
  Dirty runData pinData node ∨ node = destination ∨ unfinished node

/-- A walk leads from the trigger to the node, and the node is the first on it that has to run again. -/
def EarliestToRun (g : DirectedGraph INode) (trigger destination : INode) (runData : TaskRunData) (pinData : PinData)
    (unfinished : INode → Prop) (node : INode) : Prop :=
  ReflTransGen (fun a b => ¬ Stops destination runData pinData unfinished a ∧ Followed g runData pinData a b)
    trigger node ∧ Stops destination runData pinData unfinished node

/-- The output 0 of a loop node on a cycle, and the output 1 of one that is not on any. -/
def DoneOutput (g : DirectedGraph INode) (node : INode) (output : Nat) : Prop :=
  TransGen g.Child node node ∧ output = 0 ∨ ¬ TransGen g.Child node node ∧ output = 1

/-- Lookups of the node's name find what the run data and the pinned data hold under it, not an inherited member. -/
def ReadsOwn (runData : TaskRunData) (pinData : PinData) (node : INode) : Prop :=
  node.name ∈ inheritedNames → runData.has node.name = true ∧ pinData.has node.name = true

/-- What all names and types in a graph must be like for that. -/
structure ReadsGraph (g : DirectedGraph INode) (runData : TaskRunData) (pinData : PinData) : Prop where
  nodes : ∀ {node}, g.Bound node → ReadsOwn runData pinData node
  types : ∀ c ∈ g.getConnections, c.type ∉ inheritedNames

variable {g : DirectedGraph INode} {destination trigger current node : INode} {runData : TaskRunData}
  {pinData : PinData} {c : GraphConnection INode} {seen : OrderedSet INode}

theorem elementAt_last {α : Type} (as : List α) : elementAt as (-1) = as[as.length - 1]? := by
  cases as with
  | nil => rfl
  | cons a as =>
    rw [elementAt, if_neg (by omega), if_pos (by rw [List.length_cons]; omega)]
    congr 1
    rw [List.length_cons]
    omega

theorem getIncomingData_last (runData : RunData) (nodeName connectionType : String) (outputIndex : Nat) :
    getIncomingData runData nodeName (-1) connectionType outputIndex =
      getIncomingData runData nodeName (getRunIndexLength runData nodeName - 1 : Nat) connectionType outputIndex := by
  rw [getIncomingData, getIncomingData, getRunIndexLength]
  cases runData.get? nodeName with
  | none => rfl
  | some runs => simp only [elementAt_last, elementAt_natCast]

theorem outputs_has (runData : TaskRunData) (nodeName : String) : runData.outputs.has nodeName = runData.has nodeName := by
  rw [ObjectMap.has, TaskRunData.outputs, ObjectMap.get?_mapValues, Option.isSome_map]
  rfl

theorem ReadsOwn.hasMember_eq (h : ReadsOwn runData pinData node) :
    hasMember runData node.name = runData.has node.name ∧ hasMember pinData node.name = pinData.has node.name := by
  rw [hasMember, hasMember]
  by_cases hname : node.name ∈ inheritedNames
  · obtain ⟨hrun, hpin⟩ := h hname
    rw [hrun, hpin]
    exact ⟨rfl, rfl⟩
  · rw [decide_eq_false hname, Bool.or_false, Bool.or_false]
    exact ⟨rfl, rfl⟩

theorem ReadsOwn.run (h : ReadsOwn runData pinData node) :
    runData.outputs.has node.name = true ∨ node.name ∉ inheritedNames := by
  rw [outputs_has, or_comm]
  exact or_iff_not_imp_left.2 fun hname => (h (not_not.1 hname)).1

theorem isDirty_ok (h : ReadsOwn runData pinData node) :
    ∃ dirty, isDirty node runData pinData = .ok dirty ∧ (dirty = true ↔ Dirty runData pinData node) := by
  obtain ⟨hrun, hpin⟩ := h.hasMember_eq
  rw [isDirty, hasAnError, hrun, hpin, Dirty]
  cases hruns : runData.get? node.name with
  | none =>
    have hname : node.name ∉ inheritedNames := by
      intro hname
      have hhas := (h hname).1
      rw [ObjectMap.has, hruns] at hhas
      cases hhas
    have hno : runData.has node.name = false := by rw [ObjectMap.has, hruns]; rfl
    cases hp : pinData.has node.name with
    | true => exact ⟨false, by simp [hname], by simp⟩
    | false => exact ⟨true, by simp [hname, hno], by simp [hno]⟩
  | some runs =>
    have hhas : runData.has node.name = true := by rw [ObjectMap.has, hruns]; rfl
    cases herror : runs.any fun taskData => taskData.error.isSome with
    | true => exact ⟨true, by simp [herror], iff_of_true rfl (.inl ⟨runs, rfl, List.any_eq_true.1 herror⟩)⟩
    | false =>
      refine ⟨false, by simp [herror, hhas], ?_⟩
      simpa [hhas] using herror

theorem isFollowed_ok (h : ReadsOwn runData pinData c.fromNode) (htype : c.type ∉ inheritedNames) :
    ∃ followed, isFollowed runData pinData c = .ok followed ∧ (followed = true ↔ Carries runData pinData c) := by
  obtain ⟨found, hfound⟩ := getIncomingDataFromAnyRun_of_own h.run htype c.outputIndex
  rw [isFollowed, hfound, h.hasMember_eq.2, Carries]
  cases found with
  | none =>
    have hno : ¬ HasItems runData.outputs c := by
      rintro ⟨runIndex, data, hdata, hne⟩
      exact hne (getIncomingDataFromAnyRun_none hfound hdata)
    exact ⟨_, rfl, by simp [hno]⟩
  | some found =>
    obtain ⟨hdata, hne⟩ := getIncomingDataFromAnyRun_some hfound
    have hitems : HasItems runData.outputs c := ⟨found.runIndex, found.data, hdata, hne⟩
    exact ⟨_, rfl, by simp [hitems, hne]⟩

theorem lastRunEmpty_ok (h : ReadsOwn runData pinData node) (isALoop : Bool) :
    ∃ empty, lastRunEmpty runData node isALoop = .ok empty ∧
      (empty = true ↔ LastRunLacks runData.outputs node (if isALoop then 0 else 1)) := by
  have htype : "main" ∉ inheritedNames := by decide
  obtain ⟨found, hfound⟩ := getIncomingData_of_own h.run htype
    (getRunIndexLength runData.outputs node.name - 1 : Nat) (if isALoop then 0 else 1)
  rw [lastRunEmpty, getIncomingData_last, hfound, LastRunLacks, getIncomingData_ok hfound]
  cases found with
  | none => exact ⟨true, rfl, by simp⟩
  | some items => exact ⟨_, rfl, by simp⟩

theorem isStartNode_ok (destination : INode) (hg : g.Closed) (hb : g.Bound current)
    (h : ReadsOwn runData pinData current) :
    ∃ stops, isStartNode g destination runData pinData current = .ok stops ∧
      (stops = true ↔ Stops destination runData pinData (UnfinishedLoop runData (DoneOutput g)) current) := by
  obtain ⟨dirty, hdirty, hiff⟩ := isDirty_ok h
  rw [isStartNode, hdirty, Stops, UnfinishedLoop]
  cases dirty with
  | true => exact ⟨true, rfl, iff_of_true rfl (.inl (hiff.1 rfl))⟩
  | false =>
    have hclean : ¬ Dirty runData pinData current := fun hd => nomatch hiff.2 hd
    dsimp only
    split
    · next hd => exact ⟨true, rfl, by simp [hd]⟩
    · next hother =>
      split
      · next htype =>
        obtain ⟨children, hchildren, hmem⟩ := getChildren_ok hg hb
        obtain ⟨empty, hempty, hlacks⟩ := lastRunEmpty_ok h (decide (current ∈ children))
        refine ⟨empty, ?_, ?_⟩
        · rw [isALoop, hchildren]
          exact hempty
        · rw [hlacks, or_iff_right hclean, or_iff_right hother, and_iff_right htype]
          by_cases hloop : TransGen g.Child current current
          · simp [DoneOutput, hmem, hloop]
          · simp [DoneOutput, hmem, hloop]
      · next htype => exact ⟨false, rfl, by simp [hclean, hother, htype]⟩

theorem foldlM_adds {α β ε : Type} {f : OrderedSet β → α → Except ε (OrderedSet β)} {turn : α → β → Prop} {as : List α}
    (h : ∀ a ∈ as, ∀ before, ∃ after, f before a = .ok after ∧ ∀ b, b ∈ after ↔ b ∈ before ∨ turn a b)
    (before : OrderedSet β) :
    ∃ after, as.foldlM f before = .ok after ∧ ∀ b, b ∈ after ↔ b ∈ before ∨ ∃ a ∈ as, turn a b := by
  refine foldlM_rule (fun pre after => ∀ b, b ∈ after ↔ b ∈ before ∨ ∃ a ∈ pre, turn a b) (fun b => by simp) ?_
  intro pre a hp middle hpre
  obtain ⟨after, ha, hturn⟩ := h a (hp.subset List.mem_concat_self) middle
  refine ⟨after, ha, fun b => ?_⟩
  rw [hturn, hpre, or_assoc]
  simp [or_and_right, exists_or]

def GoesOn (g : DirectedGraph INode) (destination : INode) (runData : TaskRunData) (pinData : PinData)
    (unfinished : INode → Prop) (a b : INode) : Prop :=
  ¬ Stops destination runData pinData unfinished a ∧ Followed g runData pinData a b

def FoundFrom (g : DirectedGraph INode) (destination : INode) (runData : TaskRunData) (pinData : PinData)
    (unfinished : INode → Prop) (p : INode × OrderedSet INode) (node : INode) : Prop :=
  (∃ seen, ReflTransGen (Branches (GoesOn g destination runData pinData unfinished)) p (node, seen)) ∧
    Stops destination runData pinData unfinished node

variable {unfinished : INode → Prop} {p : INode × OrderedSet INode}

theorem foundFrom_last (h : Stops destination runData pinData unfinished p.1 ∨ p.1 ∈ p.2) :
    FoundFrom g destination runData pinData unfinished p node ↔
      node = p.1 ∧ Stops destination runData pinData unfinished node := by
  refine and_congr_left fun _ => ⟨?_, ?_⟩
  · rintro ⟨seen, hr⟩
    rcases ReflTransGen.cases_head hr with rfl | ⟨q, ⟨hnew, hgoes, -⟩, -⟩
    · rfl
    · exact (h.elim hgoes.1 hnew).elim
  · rintro rfl
    exact ⟨p.2, .refl⟩

theorem foundFrom_next (h : ¬ Stops destination runData pinData unfinished p.1) (hnew : ¬ p.1 ∈ p.2) :
    FoundFrom g destination runData pinData unfinished p node ↔
      ∃ b, Followed g runData pinData p.1 b ∧
        FoundFrom g destination runData pinData unfinished (b, p.2.insert p.1) node := by
  constructor
  · rintro ⟨⟨seen, hr⟩, hstops⟩
    rcases ReflTransGen.cases_head hr with rfl | ⟨⟨b, seen'⟩, ⟨-, hgoes, rfl⟩, hrest⟩
    · exact absurd hstops h
    · exact ⟨b, hgoes.2, ⟨seen, hrest⟩, hstops⟩
  · rintro ⟨b, hfollowed, ⟨seen, hrest⟩, hstops⟩
    exact ⟨⟨seen, .head ⟨hnew, ⟨h, hfollowed⟩, rfl⟩ hrest⟩, hstops⟩

theorem foundFrom_children (h : ¬ Stops destination runData pinData unfinished p.1) (hnew : ¬ p.1 ∈ p.2) :
    FoundFrom g destination runData pinData unfinished p node ↔
      ∃ c ∈ g.getConnections.filter (fun c => c.fromNode = p.1), Carries runData pinData c ∧
        FoundFrom g destination runData pinData unfinished (c.toNode, p.2.insert p.1) node := by
  rw [foundFrom_next h hnew]
  constructor
  · rintro ⟨_, ⟨c, hc, hfrom, rfl, hfollowed⟩, hfound⟩
    exact ⟨c, List.mem_filter.2 ⟨hc, decide_eq_true hfrom⟩, hfollowed, hfound⟩
  · rintro ⟨c, hc, hfollowed, hfound⟩
    obtain ⟨hc, hfrom⟩ := List.mem_filter.1 hc
    have hfrom : c.fromNode = p.1 := of_decide_eq_true hfrom
    exact ⟨c.toNode, ⟨c, hc, hfrom, rfl, hfollowed⟩, hfound⟩

theorem findStartNodesRecursive_adds (hg : g.Closed) (hread : ReadsGraph g runData pinData) (hb : g.Bound current)
    (startNodes seen : OrderedSet INode) :
    ∃ after, findStartNodesRecursive g destination runData pinData current startNodes seen = .ok after ∧
      ∀ n, n ∈ after ↔ n ∈ startNodes ∨
        FoundFrom g destination runData pinData (UnfinishedLoop runData (DoneOutput g)) (current, seen) n := by
  induction hn : (unseen g seen).length using Nat.strongRecOn generalizing current startNodes seen with
  | ind n ih =>
    obtain ⟨stops, hstart, hstops⟩ := isStartNode_ok destination hg hb (hread.nodes hb)
    rw [findStartNodesRecursive, hstart]
    cases stops with
    | true =>
      have hcurrent := hstops.1 rfl
      refine ⟨startNodes.insert current, rfl, fun n => ?_⟩
      rw [OrderedSet.mem_insert, foundFrom_last (.inl hcurrent), or_comm, and_iff_left_of_imp]
      rintro rfl
      exact hcurrent
    | false =>
      have hcurrent : ¬ Stops destination runData pinData (UnfinishedLoop runData (DoneOutput g)) current :=
        fun h => nomatch hstops.2 h
      by_cases hseen : current ∈ seen
      · refine ⟨startNodes, if_pos hseen, fun n => ?_⟩
        rw [foundFrom_last (.inr hseen), or_iff_left]
        rintro ⟨rfl, h⟩
        exact hcurrent h
      · have hturn : ∀ c ∈ g.getConnections.filter (fun c => c.fromNode = current), ∀ before, ∃ after,
            (match isFollowed runData pinData c with
            | .error e => .error e
            | .ok true =>
              findStartNodesRecursive g destination runData pinData c.toNode before (seen.insert current)
            | .ok false => .ok before : Except GraphError (OrderedSet INode)) = .ok after ∧
            ∀ n, n ∈ after ↔ n ∈ before ∨ Carries runData pinData c ∧
              FoundFrom g destination runData pinData (UnfinishedLoop runData (DoneOutput g))
                (c.toNode, seen.insert current) n := by
          intro c hc before
          have hc := (List.mem_filter.1 hc).1
          obtain ⟨followed, hf, hcarries⟩ := isFollowed_ok (hread.nodes (hg c hc).1) (hread.types c hc)
          rw [hf]
          cases followed with
          | true =>
            have hlt := unseen_lt hb hseen
            obtain ⟨after, ha, hmem⟩ := ih _ (hn ▸ hlt) (hg c hc).2 before (seen.insert current) rfl
            exact ⟨after, ha, fun n => by rw [hmem, and_iff_right (hcarries.1 rfl)]⟩
          | false => exact ⟨before, rfl, fun n => by simp [← hcarries]⟩
        obtain ⟨after, ha, hmem⟩ := foldlM_adds hturn startNodes
        refine ⟨after, ?_, fun n => ?_⟩
        · dsimp only
          rw [if_neg hseen]
          split
          · next e he => exact absurd (he.symm.trans (getDirectChildConnections_of_bound hb)) (by simp)
          · next cs hcs =>
            obtain rfl := Except.ok.inj (hcs.symm.trans (getDirectChildConnections_of_bound hb))
            exact ha
        · rw [hmem, foundFrom_children hcurrent hseen]

theorem findStartNodes_earliest (hg : g.Closed) (hread : ReadsGraph g runData pinData) (ht : g.Bound trigger) :
    ∃ startNodes, findStartNodes g destination runData pinData trigger = .ok startNodes ∧
      ∀ node, node ∈ startNodes ↔
        EarliestToRun g trigger destination runData pinData (UnfinishedLoop runData (DoneOutput g)) node := by
  obtain ⟨startNodes, hstart, hmem⟩ := findStartNodesRecursive_adds (g := g) hg hread ht .empty .empty
  refine ⟨startNodes, hstart, fun node => ?_⟩
  rw [hmem, or_iff_right OrderedSet.mem_empty, FoundFrom, exists_branch_iff]
  rfl

def loopNode : INode := { plainNode "Loop" with type := "n8n-nodes-base.splitInBatches" }

def openLoopGraph : DirectedGraph INode :=
  (DirectedGraph.empty.addNodes [plainNode "Trigger", loopNode, plainNode "Set"]).setConnections
    [⟨plainNode "Trigger", loopNode, "main", 0, 0⟩, ⟨loopNode, plainNode "Set", "main", 0, 0⟩]

/-- Both nodes have run once and have an item on their first output. -/
def openLoopRunData : TaskRunData :=
  (ObjectMap.empty.set "Trigger" [{ data := some (ObjectMap.empty.set "main" [.items [⟨[], none, none⟩]]) }]).set
    "Loop" [{ data := some (ObjectMap.empty.set "main" [.items [⟨[], none, none⟩]]) }]

theorem openLoopGraph_connections : openLoopGraph.Closed ∧ openLoopGraph.getConnections =
    [⟨plainNode "Trigger", loopNode, "main", 0, 0⟩, ⟨loopNode, plainNode "Set", "main", 0, 0⟩] := by decide +kernel

theorem openLoopGraph_closed : openLoopGraph.Closed := openLoopGraph_connections.1

theorem mem_openLoopGraph {c : GraphConnection INode} : c ∈ openLoopGraph.getConnections ↔
    c = ⟨plainNode "Trigger", loopNode, "main", 0, 0⟩ ∨ c = ⟨loopNode, plainNode "Set", "main", 0, 0⟩ := by
  simp [openLoopGraph_connections.2]

theorem openLoopGraph_reads : ReadsGraph openLoopGraph openLoopRunData .empty := by
  refine ⟨fun {node} hb hname => ?_, fun c hc => ?_⟩
  · have hall : ∀ e ∈ openLoopGraph.nodes.entries, e.1 ∉ inheritedNames := by decide +kernel
    exact absurd hname (hall (node.name, node) ((ObjectMap.mem_entries _).2 hb))
  · rcases mem_openLoopGraph.1 hc with rfl | rfl
    · decide
    · decide

theorem openLoopGraph_bound : openLoopGraph.Bound (plainNode "Trigger") :=
  (openLoopGraph_closed _ (mem_openLoopGraph.2 (.inl rfl))).1

theorem loopNode_off_cycle : ¬ TransGen openLoopGraph.Child loopNode loopNode := by
  intro h
  obtain ⟨b, ⟨c, hc, hf, rfl⟩, hr⟩ := TransGen.head'_iff.1 h
  rcases mem_openLoopGraph.1 hc with rfl | rfl
  · exact absurd hf (by decide)
  · rcases ReflTransGen.cases_head hr with he | ⟨d, ⟨e, he, hef, -⟩, -⟩
    · exact absurd he (by decide)
    · rcases mem_openLoopGraph.1 he with rfl | rfl
      · exact absurd hef (by decide)
      · exact absurd hef (by decide)

theorem loopNode_stops : Stops (plainNode "Set") openLoopRunData .empty
    (UnfinishedLoop openLoopRunData (DoneOutput openLoopGraph)) loopNode := by
  refine .inr (.inr ⟨rfl, 1, .inr ⟨loopNode_off_cycle, rfl⟩, fun items h => ?_⟩)
  cases h

theorem trigger_clean : ¬ Dirty openLoopRunData .empty (plainNode "Trigger") := by
  rintro (⟨runs, hruns, taskData, htask, herror⟩ | ⟨-, hno⟩)
  · cases hruns
    rw [List.mem_singleton.1 htask] at herror
    cases herror
  · cases hno

theorem loopNode_clean : ¬ Dirty openLoopRunData .empty loopNode := by
  rintro (⟨runs, hruns, taskData, htask, herror⟩ | ⟨-, hno⟩)
  · cases hruns
    rw [List.mem_singleton.1 htask] at herror
    cases herror
  · cases hno

theorem trigger_goes_on (unfinished : INode → Nat → Prop) :
    GoesOn openLoopGraph (plainNode "Set") openLoopRunData .empty (UnfinishedLoop openLoopRunData unfinished)
      (plainNode "Trigger") loopNode := by
  refine ⟨?_, _, mem_openLoopGraph.2 (.inl rfl), rfl, rfl, .inl ?_⟩
  · rintro (h | h | ⟨h, -⟩)
    · exact absurd h trigger_clean
    · exact absurd h (by decide)
    · exact absurd h (by decide)
  · exact ⟨0, [⟨[], none, none⟩], rfl, List.cons_ne_nil _ _⟩

/-- A loop node off any cycle, with items on its done output only, has to run again. -/
theorem open_loop_reruns :
    ¬ ∃ startNodes, findStartNodes openLoopGraph (plainNode "Set") openLoopRunData .empty (plainNode "Trigger") =
        .ok startNodes ∧
      ∀ node, node ∈ startNodes ↔ EarliestToRun openLoopGraph (plainNode "Trigger") (plainNode "Set") openLoopRunData
        .empty (UnfinishedLoop openLoopRunData fun _ output => output = 0) node := by
  rintro ⟨startNodes, hstart, h⟩
  obtain ⟨startNodes', hstart', hmem⟩ := findStartNodesRecursive_adds (g := openLoopGraph) openLoopGraph_closed
    openLoopGraph_reads openLoopGraph_bound .empty .empty
  obtain rfl := Except.ok.inj (hstart.symm.trans hstart')
  have hfound : loopNode ∈ startNodes := (hmem loopNode).2 (.inr ⟨⟨_, .single
    ⟨OrderedSet.mem_empty, trigger_goes_on _, rfl⟩⟩, loopNode_stops⟩)
  obtain ⟨-, hdirty | hdestination | ⟨-, output, rfl, hlacks⟩⟩ := (h loopNode).1 hfound
  · exact absurd hdirty loopNode_clean
  · exact absurd hdestination (by decide)
  · exact absurd (hlacks [⟨[], none, none⟩] rfl) (List.cons_ne_nil _ _)

theorem openLoop_earliest :
    ∃ startNodes, findStartNodes openLoopGraph (plainNode "Set") openLoopRunData .empty (plainNode "Trigger") =
        .ok startNodes ∧
      ∀ node, node ∈ startNodes ↔ EarliestToRun openLoopGraph (plainNode "Trigger") (plainNode "Set") openLoopRunData
        .empty (UnfinishedLoop openLoopRunData (DoneOutput openLoopGraph)) node :=
  findStartNodes_earliest openLoopGraph_closed openLoopGraph_reads openLoopGraph_bound

end Walks

end N8n.PartialExecution
