import N8n.Codegen.SemanticGraph
import N8n.Lib.BackEdgeSearch

namespace N8n.Codegen

open Lib Relation

def markCycleTarget (node : SemanticNode) : SemanticNode :=
  { node with annotations := { node.annotations with isCycleTarget := true } }

def markConvergencePoint (node : SemanticNode) : SemanticNode :=
  { node with annotations := { node.annotations with isConvergencePoint := true } }

def recordCycleEdge (nodeName target : String) (graph : SemanticGraph) : SemanticGraph :=
  { graph.modify target markCycleTarget with
    cycleEdges := graph.cycleEdges.set nodeName ((graph.cycleEdges.get? nodeName).getD [] ++ [target]) }

/-- The second loop asks for unvisited nodes only, as the search does itself. -/
def detectCycles (graph : SemanticGraph) : SemanticGraph :=
  (BranchSearch.searchAll graph.next recordCycleEdge (graph.names.length + 1) (graph.roots ++ graph.names)
    ⟨[], [], graph⟩).result

/-- The fuel bounds the depth, which the nodes of the graph do. -/
def collectReachable (graph : SemanticGraph) : Nat → List String → String → List String
  | 0, visited, _ => visited
  | fuel + 1, visited, startName =>
    if startName ∈ visited then visited
    else (graph.next startName).foldl (collectReachable graph fuel) (startName :: visited)

def convergenceOf (graph : SemanticGraph) (node : SemanticNode) : List String :=
  let branchOutputs := (node.outputs.entries.filter fun e => ¬ e.2.isEmpty).map fun e => e.2.map (·.target)
  if node.outputs.entries.length ≤ 1 ∨ branchOutputs.length < 2 then []
  else
    let branchReachable := branchOutputs.map fun branchTargets =>
      branchTargets.foldl (collectReachable graph (graph.names.length + 1)) []
    (OrderedSet.ofList branchReachable.flatten).items.filter fun nodeName =>
      2 ≤ (branchReachable.filter fun reachable => nodeName ∈ reachable).length

def findConvergenceNodes (graph : SemanticGraph) : SemanticGraph :=
  (graph.nodes.entries.flatMap fun e => convergenceOf graph e.2).foldl
    (fun graph nodeName => graph.modify nodeName markConvergencePoint) graph

def annotateGraph (graph : SemanticGraph) : SemanticGraph := findConvergenceNodes (detectCycles graph)

variable {graph : SemanticGraph} {a b : String}

namespace SemanticGraph

def Recorded (graph : SemanticGraph) (a b : String) : Prop := ∃ edges, graph.cycleEdges.get? a = some edges ∧ b ∈ edges

def IsCycleTarget (graph : SemanticGraph) (b : String) : Prop :=
  ∃ node, graph.nodes.get? b = some node ∧ node.annotations.isCycleTarget = true

structure CyclesCut (graph annotated : SemanticGraph) : Prop where
  cuts : ∀ a, ¬ TransGen (fun a b => b ∈ graph.next a ∧ ¬ (annotated.Recorded a b ∧ annotated.IsCycleTarget b)) a a
  closes : ∀ a b, annotated.Recorded a b → ReflTransGen (Step graph.next) b a

theorem recorded_recordCycleEdge {nodeName target : String} :
    (recordCycleEdge nodeName target graph).Recorded a b ↔ (a, b) = (nodeName, target) ∨ graph.Recorded a b := by
  simp only [Recorded, recordCycleEdge, ObjectMap.get?_set, Prod.mk.injEq]
  by_cases ha : a = nodeName
  · subst ha
    cases h : graph.cycleEdges.get? a with
    | none => simp
    | some edges => simp [or_comm]
  · simp [ha]

theorem modify_isCycleTarget {name : String} {f : SemanticNode → SemanticNode} :
    (graph.modify name f).IsCycleTarget b ↔
      ∃ node, graph.nodes.get? b = some node ∧ (if b = name then f node else node).annotations.isCycleTarget =
        true := by
  rw [IsCycleTarget, get?_modify]
  by_cases hb : b = name
  · simp [hb]
  · simp [hb]

end SemanticGraph

open SemanticGraph

/-- The graph after the recorded edges, of which the last one comes first. -/
def withCycleEdges (graph : SemanticGraph) (edges : List (String × String)) : SemanticGraph :=
  edges.foldr (fun e graph => recordCycleEdge e.1 e.2 graph) graph

theorem recorded_withCycleEdges {edges : List (String × String)} :
    (withCycleEdges graph edges).Recorded a b ↔ (a, b) ∈ edges ∨ graph.Recorded a b := by
  induction edges with
  | nil => simp [withCycleEdges]
  | cons e edges ih =>
    rw [show withCycleEdges graph (e :: edges) = recordCycleEdge e.1 e.2 (withCycleEdges graph edges) from rfl,
      recorded_recordCycleEdge, ih, List.mem_cons, or_assoc]

theorem isCycleTarget_recordCycleEdge {nodeName target : String} :
    (recordCycleEdge nodeName target graph).IsCycleTarget b ↔
      graph.IsCycleTarget b ∨ b = target ∧ (graph.nodes.get? b).isSome := by
  refine modify_isCycleTarget.trans ?_
  rw [IsCycleTarget]
  by_cases hb : b = target
  · cases h : graph.nodes.get? b with
    | none => simp
    | some node => simp [hb, markCycleTarget]
  · simp [hb]

theorem isSome_withCycleEdges (graph : SemanticGraph) (edges : List (String × String)) (b : String) :
    ((withCycleEdges graph edges).nodes.get? b).isSome = (graph.nodes.get? b).isSome := by
  induction edges with
  | nil => rfl
  | cons e edges ih =>
    rw [← ih]
    refine (congrArg Option.isSome (get?_modify _ e.2 b markCycleTarget)).trans ?_
    split
    · exact Option.isSome_map
    · rfl

theorem isCycleTarget_withCycleEdges {edges : List (String × String)}
    (hab : (a, b) ∈ edges) (hb : (graph.nodes.get? b).isSome) : (withCycleEdges graph edges).IsCycleTarget b := by
  induction edges with
  | nil => exact absurd hab List.not_mem_nil
  | cons e edges ih =>
    refine isCycleTarget_recordCycleEdge.2 ?_
    rcases List.mem_cons.1 hab with rfl | hab
    · exact .inr ⟨rfl, (isSome_withCycleEdges graph edges b).trans hb⟩
    · exact .inl (ih hab)

theorem foldl_markConvergence (names : List String) (graph : SemanticGraph) :
    let graph' := names.foldl (fun graph nodeName => graph.modify nodeName markConvergencePoint) graph
    graph'.cycleEdges = graph.cycleEdges ∧ ∀ b, graph'.IsCycleTarget b ↔ graph.IsCycleTarget b := by
  induction names generalizing graph with
  | nil => exact ⟨rfl, fun _ => Iff.rfl⟩
  | cons name names ih =>
    obtain ⟨hedges, htarget⟩ := ih (graph.modify name markConvergencePoint)
    refine ⟨hedges.trans ?_, fun b => (htarget b).trans (modify_isCycleTarget.trans ?_)⟩
    · rw [SemanticGraph.modify]
      cases graph.nodes.get? name <;> rfl
    · refine exists_congr fun node => and_congr_right fun _ => ?_
      split <;> rfl

def cycleEdgesOf (graph : SemanticGraph) : List (String × String) :=
  (BranchSearch.searchAll graph.next BranchSearch.listing (graph.names.length + 1) (graph.roots ++ graph.names)
    .fresh).result

theorem detectCycles_eq (graph : SemanticGraph) : detectCycles graph = withCycleEdges graph (cycleEdgesOf graph) :=
  congrArg BranchSearch.result (BranchSearch.searchAll_replay graph.next recordCycleEdge graph _ _ .fresh)

theorem cycleEdgesOf_spec (graph : SemanticGraph) :
    (∀ a, ¬ TransGen (BranchSearch.Uncut graph.next (cycleEdgesOf graph)) a a) ∧
      ∀ e ∈ cycleEdgesOf graph, e.2 ∈ graph.next e.1 ∧ e.2 ≠ e.1 ∧ ReflTransGen (Step graph.next) e.2 e.1 := by
  refine BranchSearch.searchAll_spec (fun b hb => next_of_not_mem fun hm => hb (List.mem_append_right _ hm))
    (fun b (hb : b ∉ graph.names) => next_of_not_mem hb) ?_
  exact Nat.lt_succ_of_le graph.names.toFinset_card_le

theorem recorded_annotateGraph (hnew : graph.cycleEdges = .empty) :
    (annotateGraph graph).Recorded a b ↔ (a, b) ∈ cycleEdgesOf graph := by
  have hnone : ¬ graph.Recorded a b := by
    rintro ⟨edges, h, -⟩
    rw [hnew] at h
    cases h
  rw [annotateGraph, findConvergenceNodes, Recorded, (foldl_markConvergence _ _).1, detectCycles_eq]
  exact recorded_withCycleEdges.trans (or_iff_left hnone)

theorem loop_uncut (hnew : graph.cycleEdges = .empty) (ha : a ∈ graph.next a) :
    ¬ CyclesCut graph (annotateGraph graph) := by
  intro h
  refine h.cuts a (.single ⟨ha, fun hcut => ?_⟩)
  exact ((cycleEdgesOf_spec graph).2 _ ((recorded_annotateGraph hnew).1 hcut.1)).2.1 rfl

theorem annotateGraph_cutsCycles {graph : SemanticGraph} (hnew : graph.cycleEdges = .empty) :
    CyclesCut graph (annotateGraph graph) ↔ ∀ a, a ∉ graph.next a := by
  obtain ⟨hacyclic, hsound⟩ := cycleEdgesOf_spec graph
  constructor
  · exact fun h a ha => loop_uncut hnew ha h
  · intro hloop
    refine ⟨fun a hcycle => hacyclic a (TransGen.mono (fun a b hab => ?_) a a hcycle), fun a b hab =>
      (hsound _ ((recorded_annotateGraph hnew).1 hab)).2.2⟩
    refine ⟨hab.1, fun he => hloop a (he ▸ hab.1), fun hm => hab.2 ⟨(recorded_annotateGraph hnew).2 hm, ?_⟩⟩
    -- the target leads back to the source, so it is a node
    obtain ⟨-, hne, hback⟩ := hsound _ hm
    have hb : b ∈ graph.names := by
      by_contra hb
      rcases ReflTransGen.cases_head hback with he | ⟨c, hbc, -⟩
      · exact hne he
      · rw [Step, next_of_not_mem hb] at hbc
        exact List.not_mem_nil hbc
    have hsome : (graph.nodes.get? b).isSome := by
      obtain ⟨⟨_, node⟩, hmem, rfl⟩ := List.mem_map.1 hb
      exact Option.isSome_iff_exists.2 ⟨node, graph.nodes.mem_entries.1 hmem⟩
    rw [annotateGraph, findConvergenceNodes, (foldl_markConvergence _ _).2, detectCycles_eq]
    exact isCycleTarget_withCycleEdges hm hsome

def plainGraph (nodes : List (String × List String)) : SemanticGraph where
  nodes := .ofList
    (nodes.map fun e => (e.1, { createSemanticNode ⟨e.1, some e.1, "n8n-nodes-base.set", none, none⟩ with
    outputs := .ofList [("output0", e.2.map fun target => ⟨target, "input0"⟩)] }))
  roots := []
  cycleEdges := .empty

theorem annotateGraph_cutsCycles_loop : CyclesCut (plainGraph [("Wait", ["Check"]), ("Check", ["Wait"])])
    (annotateGraph (plainGraph [("Wait", ["Check"]), ("Check", ["Wait"])])) := by
  refine (annotateGraph_cutsCycles rfl).2 fun a ha => ?_
  have hnames : a ∈ ["Check", "Wait"] := by
    by_contra hn
    rw [next_of_not_mem hn] at ha
    exact List.not_mem_nil ha
  simp only [List.mem_cons, List.not_mem_nil, or_false] at hnames
  rcases hnames with rfl | rfl
  · exact absurd ha (by decide)
  · exact absurd ha (by decide)

theorem self_connection_uncut : ¬ CyclesCut (plainGraph [("Wait", ["Wait"])])
    (annotateGraph (plainGraph [("Wait", ["Wait"])])) :=
  loop_uncut (a := "Wait") rfl (by decide)

end N8n.Codegen
