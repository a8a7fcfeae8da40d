import N8n.Engine.ExecutableGraph

namespace N8n.Engine

open Lib Relation

section

variable {graph : WorkflowGraph} {loop loop' : WorkflowLoop} {edge edge' : GraphEdge} {a b id : String}

theorem step_edgeTargets {edges : List GraphEdge} :
    Step (edgeTargets edges) a b ↔ ∃ edge ∈ edges, edge.fromId = a ∧ edge.toId = b := by
  rw [Step, edgeTargets, List.mem_map]
  constructor
  · rintro ⟨e, he, rfl⟩
    obtain ⟨he, hfrom⟩ := List.mem_filter.1 he
    exact ⟨e, he, of_decide_eq_true hfrom, rfl⟩
  · rintro ⟨e, he, hfrom, hto⟩
    exact ⟨e, List.mem_filter.2 ⟨he, decide_eq_true hfrom⟩, hto⟩

theorem scc_spec (graph : WorkflowGraph) (edges : List GraphEdge) :
    (∀ id ∈ graph.nodes.map (·.id), ((computeSccMembership graph edges).get? id).isSome = true) ∧
      ∀ id c, (computeSccMembership graph edges).get? id = some c →
        ∀ b, b ∈ c ↔ Connected (edgeTargets edges) id b := by
  refine components_spec (fun a _ b hb => ?_) fun id hid => List.mem_append_left _ hid
  obtain ⟨e, he, -, rfl⟩ := step_edgeTargets.1 hb
  exact List.mem_append_right _ (List.mem_map_of_mem he)

theorem mem_forwardEdges : edge ∈ forwardEdges graph ↔ edge ∈ graph.edges ∧ edge.isBackEdge = false := by
  rw [forwardEdges, List.mem_filter, decide_eq_true_iff]

theorem forward_iff : Forward graph a b ↔ Step (edgeTargets (forwardEdges graph)) a b := by
  rw [step_edgeTargets]
  constructor
  · rintro ⟨e, he, hf, hfrom, hto⟩
    exact ⟨e, mem_forwardEdges.2 ⟨he, hf⟩, hfrom, hto⟩
  · rintro ⟨e, he, hfrom, hto⟩
    obtain ⟨he, hf⟩ := mem_forwardEdges.1 he
    exact ⟨e, he, hf, hfrom, hto⟩

theorem connected_iff : Connected (edgeTargets graph.edges) a b ↔ graph.Leads a b ∧ graph.Leads b a := by
  have hstep : (Step (edgeTargets graph.edges)) = fun a b => ∃ edge ∈ graph.edges, edge.fromId = a ∧ edge.toId = b := by
    funext a b
    exact propext step_edgeTargets
  rw [Connected, hstep]
  rfl

theorem mem_deriveLoops (hl : loop ∈ deriveLoops graph) :
    loop.batchNodeId ∈ backEdgeTargets graph ∧
      loop = deriveLoop graph (computeSccMembership graph graph.edges) loop.batchNodeId := by
  obtain ⟨b, hb, rfl⟩ := List.mem_map.1 hl
  exact ⟨hb, rfl⟩

theorem mem_entryEdges (hl : loop ∈ deriveLoops graph) :
    edge ∈ loop.entryEdges ↔ edge ∈ graph.edges ∧ edge.isBackEdge = false ∧ edge.toId = loop.batchNodeId ∧
      edge.fromId ∉ loop.memberIds := by
  rw [(mem_deriveLoops hl).2, deriveLoop, List.mem_filter, decide_eq_true_iff]

theorem mem_backEdges (hl : loop ∈ deriveLoops graph) :
    edge ∈ loop.backEdges ↔ edge ∈ graph.edges ∧ edge.isBackEdge = true ∧ edge.toId = loop.batchNodeId := by
  rw [(mem_deriveLoops hl).2, deriveLoop, List.mem_filter, decide_eq_true_iff]

theorem mem_exitEdges (hl : loop ∈ deriveLoops graph) :
    edge ∈ loop.exitEdges ↔ edge ∈ graph.edges ∧ edge.isBackEdge = false ∧ edge.fromId ∈ loop.memberIds ∧
      edge.toId ∉ loop.memberIds := by
  rw [(mem_deriveLoops hl).2, deriveLoop, List.mem_filter, decide_eq_true_iff]

namespace LoopsValid

variable (hx : LoopsValid graph)

include hx

theorem acyclic (a : String) : ¬ TransGen (Forward graph) a a := by
  intro hcycle
  obtain ⟨b, hab, hba⟩ := TransGen.head'_iff.1 hcycle
  have hstep : Forward graph = Step (edgeTargets (forwardEdges graph)) := by
    funext a b
    exact propext forward_iff
  obtain ⟨e, he, hf, hfrom, hto⟩ := hab
  have hnode : a ∈ graph.nodes.map (·.id) := hfrom ▸ (hx.endpoints e he).1
  obtain ⟨hsome, hspec⟩ := scc_spec graph (forwardEdges graph)
  obtain ⟨c, hc⟩ := Option.isSome_iff_exists.1 (hsome a hnode)
  have hconnected : Connected (edgeTargets (forwardEdges graph)) a b := by
    rw [Connected, ← hstep]
    exact ⟨.single ⟨e, he, hf, hfrom, hto⟩, hba⟩
  have ha : a ∈ c := (hspec a c hc a).2 ⟨.refl, .refl⟩
  have hb : b ∈ c := (hspec a c hc b).2 hconnected
  have hcyclic := hx.forward c (List.mem_map.2 ⟨(a, c), (ObjectMap.mem_entries _).2 hc, rfl⟩)
  rw [isCyclic, Bool.or_eq_false_iff, decide_eq_false_iff_not, Nat.not_lt, OrderedSet.size_le_one] at hcyclic
  obtain ⟨hsize, hself⟩ := hcyclic
  have hab' := hsize a ha b hb
  rw [(OrderedSet.head?_of_unique hsize).2 ha, Option.any_some, List.any_eq_false] at hself
  exact hself e (mem_forwardEdges.2 ⟨he, hf⟩) (decide_eq_true ⟨hfrom, hto.trans hab'.symm⟩)

theorem mem_memberIds (hl : loop ∈ deriveLoops graph) :
    a ∈ loop.memberIds ↔ graph.Leads loop.batchNodeId a ∧ graph.Leads a loop.batchNodeId := by
  obtain ⟨hb, he⟩ := mem_deriveLoops hl
  obtain ⟨e, hback, hto⟩ := List.mem_map.1 ((OrderedSet.mem_ofList).1 hb)
  have hnode : loop.batchNodeId ∈ graph.nodes.map (·.id) := hto ▸ (hx.endpoints e (List.mem_filter.1 hback).1).2
  obtain ⟨hsome, hspec⟩ := scc_spec graph graph.edges
  obtain ⟨c, hc⟩ := Option.isSome_iff_exists.1 (hsome _ hnode)
  have hmembers : loop.memberIds = c := by
    rw [he, deriveLoop, hc, Option.getD_some]
  rw [hmembers, hspec _ c hc, connected_iff]

theorem batch_mem (hl : loop ∈ deriveLoops graph) : loop.batchNodeId ∈ loop.memberIds :=
  (hx.mem_memberIds hl).2 ⟨.refl, .refl⟩

theorem loop_unique (hl : loop ∈ deriveLoops graph) (hl' : loop' ∈ deriveLoops graph) (ha : a ∈ loop.memberIds)
    (ha' : a ∈ loop'.memberIds) : loop = loop' := by
  obtain ⟨h₁, h₂⟩ := (hx.mem_memberIds hl).1 ha
  obtain ⟨h₁', h₂'⟩ := (hx.mem_memberIds hl').1 ha'
  have hmem : loop'.batchNodeId ∈ loop.memberIds := (hx.mem_memberIds hl).2 ⟨h₁.trans h₂', h₁'.trans h₂⟩
  have hsame := (hx.loops loop hl).no_nested _ hmem (hx.loops loop' hl').batch
  rw [(mem_deriveLoops hl).2, (mem_deriveLoops hl').2, hsame]

theorem of_backEdge (he : edge ∈ graph.edges) (hback : edge.isBackEdge = true) :
    ∃ loop ∈ deriveLoops graph, edge.toId = loop.batchNodeId ∧ edge.fromId ∈ loop.memberIds ∧ edge ∈ loop.backEdges ∧
      edge.inputIndex = 0 := by
  have hmem : edge.toId ∈ backEdgeTargets graph :=
    OrderedSet.mem_ofList.2 (List.mem_map_of_mem (List.mem_filter.2 ⟨he, hback⟩))
  refine ⟨_, List.mem_map_of_mem hmem, rfl, ?_⟩
  have hreturn : edge ∈ (deriveLoop graph (computeSccMembership graph graph.edges) edge.toId).backEdges :=
    List.mem_filter.2 ⟨he, decide_eq_true ⟨hback, rfl⟩⟩
  obtain ⟨hslot, hfrom⟩ := (hx.loops _ (List.mem_map_of_mem hmem)).returns edge hreturn
  exact ⟨hfrom, hreturn, hslot⟩

theorem exists_backEdge (hl : loop ∈ deriveLoops graph) :
    ∃ edge ∈ graph.edges, edge.isBackEdge = true ∧ edge.toId = loop.batchNodeId ∧ edge.fromId ∈ loop.memberIds := by
  obtain ⟨e, hback, hto⟩ := List.mem_map.1 ((OrderedSet.mem_ofList).1 (mem_deriveLoops hl).1)
  obtain ⟨he, hback⟩ := List.mem_filter.1 hback
  obtain ⟨loop', hl', hto', hfrom, -⟩ := hx.of_backEdge he hback
  have hsame := hx.loop_unique hl hl' (hx.batch_mem hl) (by rw [← hto, hto']; exact hx.batch_mem hl')
  exact ⟨e, he, hback, hto, hsame ▸ hfrom⟩

theorem forward_member (hl : loop ∈ deriveLoops graph) (ha : a ∈ loop.memberIds) :
    ReflTransGen (Forward graph) loop.batchNodeId a := by
  obtain ⟨hto, hfrom⟩ := (hx.mem_memberIds hl).1 ha
  induction hto with
  | refl => exact .refl
  | @tail b c hb hstep ih =>
    obtain ⟨e, he, hbe, hce⟩ := hstep
    have hbc : graph.Leads b c := .single ⟨e, he, hbe, hce⟩
    have hbmem : b ∈ loop.memberIds := (hx.mem_memberIds hl).2 ⟨hb, hbc.trans hfrom⟩
    cases hback : e.isBackEdge with
    | false => exact (ih hbmem (hbc.trans hfrom)).tail ⟨e, he, hback, hbe, hce⟩
    | true =>
      obtain ⟨loop', hl', hto', hfrom', -⟩ := hx.of_backEdge he hback
      have hsame := hx.loop_unique hl hl' ha (by rw [← hce, hto']; exact hx.batch_mem hl')
      rw [← hce, hto', hsame]

theorem entry_of_forward (hl : loop ∈ deriveLoops graph) (he : edge ∈ graph.edges) (hf : edge.isBackEdge = false)
    (hto : edge.toId = loop.batchNodeId) : edge ∈ loop.entryEdges := by
  refine (mem_entryEdges hl).2 ⟨he, hf, hto, fun hfrom => ?_⟩
  exact hx.acyclic _ (TransGen.tail' (hx.forward_member hl hfrom) ⟨edge, he, hf, rfl, hto⟩)

theorem into_body (hl : loop ∈ deriveLoops graph) (he : edge ∈ graph.edges) (hto : edge.toId ∈ loop.memberIds)
    (hne : edge.toId ≠ loop.batchNodeId) : edge.isBackEdge = false ∧ edge.fromId ∈ loop.memberIds := by
  cases hback : edge.isBackEdge with
  | false => exact ⟨rfl, (hx.loops loop hl).way_in edge he hback hto hne⟩
  | true =>
    obtain ⟨loop', hl', hto', -⟩ := hx.of_backEdge he hback
    have hsame := hx.loop_unique hl hl' hto (by rw [hto']; exact hx.batch_mem hl')
    exact absurd (hto'.trans (congrArg _ hsame.symm)) hne

theorem out_of_loop (hl : loop ∈ deriveLoops graph) (he : edge ∈ graph.edges) (hfrom : edge.fromId ∈ loop.memberIds)
    (hto : edge.toId ∉ loop.memberIds) :
    edge.isBackEdge = false ∧ edge.fromId = loop.batchNodeId ∧ edge.outputIndex = 0 := by
  cases hback : edge.isBackEdge with
  | false => exact ⟨rfl, (hx.loops loop hl).exits edge ((mem_exitEdges hl).2 ⟨he, hback, hfrom, hto⟩)⟩
  | true =>
    obtain ⟨loop', hl', hto', hfrom', -⟩ := hx.of_backEdge he hback
    have hsame := hx.loop_unique hl hl' hfrom hfrom'
    exact absurd (by rw [hto', ← hsame]; exact hx.batch_mem hl) hto

theorem returns (hl : loop ∈ deriveLoops graph) (ha : a ∈ loop.memberIds) :
    ∃ edge ∈ loop.backEdges, ReflTransGen (Forward graph) a edge.fromId := by
  obtain ⟨hto, hfrom⟩ := (hx.mem_memberIds hl).1 ha
  induction hfrom using ReflTransGen.head_induction_on with
  | refl =>
    obtain ⟨e, he, hback, hte, hfe⟩ := hx.exists_backEdge hl
    exact ⟨e, (mem_backEdges hl).2 ⟨he, hback, hte⟩, hx.forward_member hl hfe⟩
  | @head a c hstep hc ih =>
    obtain ⟨e, he, rfl, rfl⟩ := hstep
    have hto' : graph.Leads loop.batchNodeId e.toId := hto.tail ⟨e, he, rfl, rfl⟩
    have hmem : e.toId ∈ loop.memberIds := (hx.mem_memberIds hl).2 ⟨hto', hc⟩
    cases hback : e.isBackEdge with
    | false =>
      obtain ⟨e', he', hpath⟩ := ih hmem hto'
      exact ⟨e', he', hpath.head ⟨e, he, hback, rfl, rfl⟩⟩
    | true =>
      obtain ⟨loop', hl', hte, -, hreturn, -⟩ := hx.of_backEdge he hback
      obtain rfl := hx.loop_unique hl hl' hmem (by rw [hte]; exact hx.batch_mem hl')
      exact ⟨e, hreturn, .refl⟩

end LoopsValid

/--
The components are the classes of nodes that reach each other. A graph that is accepted is acyclic without its back-edges,
and its loops are entered at their batch nodes and left through the done slots, with nothing in them off the way round.
-/
theorem validateLoops_sound (graph : WorkflowGraph) :
    (∀ (edges : List GraphEdge) (a : String), a ∈ graph.nodes.map (·.id) → ∃ members,
      (computeSccMembership graph edges).get? a = some members ∧
        ∀ b, b ∈ members ↔ Connected (edgeTargets edges) a b) ∧
    (validateLoops graph = .ok () →
      (∀ a, ¬ TransGen (Forward graph) a a) ∧ ∀ loop ∈ deriveLoops graph,
        (∀ edge ∈ graph.edges, edge.fromId ∉ loop.memberIds → edge.toId ∈ loop.memberIds →
          edge.toId = loop.batchNodeId) ∧
        (∀ edge ∈ graph.edges, edge.fromId ∈ loop.memberIds → edge.toId ∉ loop.memberIds →
          edge.fromId = loop.batchNodeId ∧ edge.outputIndex = 0) ∧
        ∀ a ∈ loop.memberIds, ∃ edge ∈ loop.backEdges,
          ReflTransGen (Forward graph) loop.batchNodeId a ∧ ReflTransGen (Forward graph) a edge.fromId) := by
  constructor
  · intro edges a ha
    obtain ⟨hsome, hspec⟩ := scc_spec graph edges
    obtain ⟨members, hmembers⟩ := Option.isSome_iff_exists.1 (hsome a ha)
    exact ⟨members, hmembers, hspec a members hmembers⟩
  · intro h
    have hx := loopsValid_of_valid h
    refine ⟨hx.acyclic, fun loop hl => ⟨?_, ?_, ?_⟩⟩
    · intro edge he hfrom hto
      by_contra hne
      exact hfrom (hx.into_body hl he hto hne).2
    · intro edge he hfrom hto
      exact (hx.out_of_loop hl he hfrom hto).2
    · intro a ha
      obtain ⟨edge, he, hpath⟩ := hx.returns hl ha
      exact ⟨edge, he, hx.forward_member hl ha, hpath⟩

def shortLoop : WorkflowGraph where
  nodes := [⟨"trigger", "Trigger", .trigger, none⟩, ⟨"batch", "Batch", .batch, some (.obj [("batchSize", .num 1)])⟩,
    ⟨"body", "Body", .v1Node, none⟩]
  edges := [⟨"trigger", "batch", 0, 0, false⟩, ⟨"batch", "body", 1, 0, false⟩, ⟨"body", "batch", 0, 0, true⟩]

theorem shortLoop_acyclic (a : String) : ¬ TransGen (Forward shortLoop) a a := by
  have hvalid : validateLoops shortLoop = .ok () := by decide +kernel
  exact ((validateLoops_sound shortLoop).2 hvalid).1 a

open Classical in
noncomputable def depth (graph : WorkflowGraph) (id : String) : Nat :=
  ((graph.nodes.map (·.id)).toFinset.filter fun a => TransGen (Forward graph) a id).card

theorem Executable.depth_lt (hx : Executable graph) (hf : Forward graph a b) : depth graph a < depth graph b := by
  classical
  obtain ⟨e, he, hback, hfrom, hto⟩ := hf
  refine Finset.card_lt_card ((Finset.ssubset_iff_of_subset fun c hc => ?_).2 ⟨a, ?_, ?_⟩)
  · obtain ⟨hnode, hpath⟩ := Finset.mem_filter.1 hc
    exact Finset.mem_filter.2 ⟨hnode, hpath.tail ⟨e, he, hback, hfrom, hto⟩⟩
  · refine Finset.mem_filter.2 ⟨List.mem_toFinset.2 (hfrom ▸ (hx.endpoints e he).1), ?_⟩
    exact .single ⟨e, he, hback, hfrom, hto⟩
  · exact fun hm => hx.acyclic a (Finset.mem_filter.1 hm).2

section Trigger

variable {trigger : GraphNode}

theorem Executable.findTrigger (hx : Executable graph) : ∃ trigger, findTriggerNode graph = some trigger := by
  obtain ⟨trigger, h⟩ := hx.trigger
  exact ⟨trigger, by rw [findTriggerNode, ← List.head?_filter, h]; rfl⟩

theorem mem_nodeIdsOfType {type : StepType} :
    id ∈ nodeIdsOfType graph type ↔ ∃ node ∈ graph.nodes, node.type = type ∧ node.id = id := by
  rw [nodeIdsOfType, List.mem_map]
  constructor
  · rintro ⟨node, hn, rfl⟩
    obtain ⟨hn, htype⟩ := List.mem_filter.1 hn
    exact ⟨node, hn, of_decide_eq_true htype, rfl⟩
  · rintro ⟨node, hn, htype, rfl⟩
    exact ⟨node, List.mem_filter.2 ⟨hn, decide_eq_true htype⟩, rfl⟩

theorem trigger_type (ht : findTriggerNode graph = some trigger) : trigger.id ∈ nodeIdsOfType graph .trigger := by
  rw [findTriggerNode] at ht
  have htype := List.find?_some ht
  exact mem_nodeIdsOfType.2 ⟨trigger, List.mem_of_find?_eq_some ht, of_decide_eq_true htype, rfl⟩

theorem Executable.into_trigger (hx : Executable graph) (ht : findTriggerNode graph = some trigger)
    (he : edge ∈ graph.edges) : edge.toId ≠ trigger.id := by
  intro hto
  have hreach := hx.reachable trigger ht edge he (hto ▸ .refl)
  have hback : ∀ a b, graph.Leads trigger.id a → graph.Leads b trigger.id → ∀ e ∈ graph.edges, e.fromId = a → e.toId = b →
      e.isBackEdge = false := by
    intro a b ha hb e he hfrom hto
    by_contra hnot
    rw [Bool.not_eq_false] at hnot
    obtain ⟨loop, hl, hbatch, -⟩ := hx.of_backEdge he hnot
    have hstep : graph.Leads a b := .single ⟨e, he, hfrom, hto⟩
    have hmem : trigger.id ∈ loop.memberIds := by
      rw [hx.mem_memberIds hl, ← hbatch, hto]
      exact ⟨hb, ha.trans hstep⟩
    exact (hx.loops loop hl).no_trigger _ hmem (trigger_type ht)
  have hforward : ∀ a, graph.Leads trigger.id a → graph.Leads a trigger.id →
      ReflTransGen (Forward graph) trigger.id a := by
    intro a ha
    induction ha with
    | refl => exact fun _ => .refl
    | @tail b c hb hstep ih =>
      intro hc
      obtain ⟨e, he, hfrom, hto⟩ := hstep
      have hbc : graph.Leads b c := .single ⟨e, he, hfrom, hto⟩
      exact (ih (hbc.trans hc)).tail ⟨e, he, hback b c hb hc e he hfrom hto, hfrom, hto⟩
  have hlast : graph.Leads edge.fromId trigger.id := .single ⟨edge, he, rfl, hto⟩
  exact hx.acyclic trigger.id (TransGen.tail' (hforward edge.fromId hreach hlast)
    ⟨edge, he, hback edge.fromId trigger.id hreach .refl edge he rfl hto, rfl, hto⟩)

end Trigger

end

structure StepKey where
  nodeId : String
  iteration : Nat
deriving DecidableEq

inductive EdgeClass where
  | plain
  | entry
  | intra
  | back
  | exit
deriving DecidableEq

/-- The source row an edge has at a target iteration: there may be none, or it may not exist yet. -/
inductive SourceRow where
  | row (key : StepKey)
  | none
  | pending
deriving DecidableEq

def loopOf (loops : List WorkflowLoop) (nodeId : String) : Option WorkflowLoop :=
  loops.find? fun loop => nodeId ∈ loop.memberIds

def classifyEdge (edge : GraphEdge) (loops : List WorkflowLoop) : EdgeClass :=
  if edge.isBackEdge then .back
  else
    match loopOf loops edge.fromId, loopOf loops edge.toId with
    | some sourceLoop, some targetLoop => if sourceLoop = targetLoop then .intra else .exit
    | some _, none => .exit
    | none, some _ => .entry
    | none, none => .plain

def targetKey (edge : GraphEdge) (edgeClass : EdgeClass) (source : StepKey) : StepKey :=
  match edgeClass with
  | .back => ⟨edge.toId, source.iteration + 1⟩
  | .exit => ⟨edge.toId, 0⟩
  | .entry => ⟨edge.toId, 0⟩
  | .plain => ⟨edge.toId, source.iteration⟩
  | .intra => ⟨edge.toId, source.iteration⟩

def sourceRow (edge : GraphEdge) (edgeClass : EdgeClass) (target : StepKey) (terminalIteration : Option Nat) : SourceRow :=
  match edgeClass with
  | .back => if target.iteration = 0 then .none else .row ⟨edge.fromId, target.iteration - 1⟩
  | .entry => if target.iteration > 0 then .none else .row ⟨edge.fromId, 0⟩
  | .exit =>
    if target.iteration > 0 then .none
    else
      match terminalIteration with
      | none => .pending
      | some iteration => .row ⟨edge.fromId, iteration⟩
  | .plain => .row ⟨edge.fromId, target.iteration⟩
  | .intra => .row ⟨edge.fromId, target.iteration⟩

section Classes

variable {graph : WorkflowGraph} {loop : WorkflowLoop} {edge edge' : GraphEdge} {id : String}

theorem loopOf_eq_none {loops : List WorkflowLoop} : loopOf loops id = none ↔ ∀ loop ∈ loops, id ∉ loop.memberIds := by
  rw [loopOf, List.find?_eq_none]
  simp only [decide_eq_true_iff]

theorem loopOf_mem {loops : List WorkflowLoop} (h : loopOf loops id = some loop) : loop ∈ loops ∧ id ∈ loop.memberIds := by
  rw [loopOf] at h
  have hmem := List.find?_some h
  exact ⟨List.mem_of_find?_eq_some h, of_decide_eq_true hmem⟩

theorem Executable.loopOf_eq (hx : Executable graph) (hl : loop ∈ deriveLoops graph) (hm : id ∈ loop.memberIds) :
    loopOf (deriveLoops graph) id = some loop := by
  cases h : loopOf (deriveLoops graph) id with
  | none => exact absurd hm (loopOf_eq_none.1 h loop hl)
  | some loop' =>
    obtain ⟨hl', hm'⟩ := loopOf_mem h
    rw [hx.loop_unique hl' hl hm' hm]

inductive Classified (graph : WorkflowGraph) (edge : GraphEdge) : EdgeClass → Prop
  | plain (hf : edge.isBackEdge = false) (hfrom : loopOf (deriveLoops graph) edge.fromId = none)
      (hto : loopOf (deriveLoops graph) edge.toId = none) : Classified graph edge .plain
  | entry (loop : WorkflowLoop) (hl : loop ∈ deriveLoops graph) (hf : edge.isBackEdge = false)
      (hfrom : loopOf (deriveLoops graph) edge.fromId = none) (hto : edge.toId = loop.batchNodeId) :
      Classified graph edge .entry
  | intra (loop : WorkflowLoop) (hl : loop ∈ deriveLoops graph) (hf : edge.isBackEdge = false)
      (hfrom : edge.fromId ∈ loop.memberIds) (hto : edge.toId ∈ loop.memberIds) (hne : edge.toId ≠ loop.batchNodeId) :
      Classified graph edge .intra
  | back (loop : WorkflowLoop) (hl : loop ∈ deriveLoops graph) (hb : edge.isBackEdge = true)
      (hfrom : edge.fromId ∈ loop.memberIds) (hto : edge.toId = loop.batchNodeId) : Classified graph edge .back
  | exit (loop : WorkflowLoop) (hl : loop ∈ deriveLoops graph) (hf : edge.isBackEdge = false)
      (hfrom : edge.fromId = loop.batchNodeId) (hslot : edge.outputIndex = 0) (hto : edge.toId ∉ loop.memberIds)
      (hhead : ∀ loop' ∈ deriveLoops graph, edge.toId ∈ loop'.memberIds → edge.toId = loop'.batchNodeId) :
      Classified graph edge .exit

theorem Executable.classified (hx : Executable graph) (he : edge ∈ graph.edges) :
    Classified graph edge (classifyEdge edge (deriveLoops graph)) := by
  rw [classifyEdge]
  split
  · next hb =>
    obtain ⟨loop, hl, hto, hfrom, -⟩ := hx.of_backEdge he hb
    exact .back loop hl hb hfrom hto
  · next hf =>
    rw [Bool.not_eq_true] at hf
    -- From outside a loop, an edge can only lead to its batch node.
    have hhead : ∀ loop ∈ deriveLoops graph, edge.toId ∈ loop.memberIds → edge.fromId ∉ loop.memberIds →
        edge.toId = loop.batchNodeId := by
      intro loop hl hto hfrom
      by_contra hne
      exact hfrom (hx.into_body hl he hto hne).2
    have hexit : ∀ loop, loopOf (deriveLoops graph) edge.fromId = some loop →
        loopOf (deriveLoops graph) edge.toId ≠ some loop → Classified graph edge .exit := by
      intro loop hsource htarget
      obtain ⟨hl, hfrom⟩ := loopOf_mem hsource
      have hto : edge.toId ∉ loop.memberIds := fun hm => htarget (hx.loopOf_eq hl hm)
      obtain ⟨-, hbatch, hslot⟩ := hx.out_of_loop hl he hfrom hto
      refine .exit loop hl hf hbatch hslot hto fun loop' hl' hto' => hhead loop' hl' hto' fun hfrom' => ?_
      exact hto (hx.loop_unique hl' hl hfrom' hfrom ▸ hto')
    split
    · next sourceLoop targetLoop hsource htarget =>
      split
      · next hsame =>
        obtain ⟨hl, hfrom⟩ := loopOf_mem hsource
        obtain ⟨-, hto⟩ := loopOf_mem htarget
        rw [← hsame] at hto
        refine .intra sourceLoop hl hf hfrom hto fun hne => ?_
        exact ((mem_entryEdges hl).1 (hx.entry_of_forward hl he hf hne)).2.2.2 hfrom
      · next hdiff => exact hexit sourceLoop hsource fun h => hdiff (Option.some.inj (h.symm.trans htarget))
    · next sourceLoop hsource htarget =>
      exact hexit sourceLoop hsource fun h => nomatch htarget.symm.trans h
    · next targetLoop hsource htarget =>
      obtain ⟨hl, hto⟩ := loopOf_mem htarget
      exact .entry targetLoop hl hf hsource (hhead targetLoop hl hto (loopOf_eq_none.1 hsource targetLoop hl))
    · next hsource htarget => exact .plain hf hsource htarget

end Classes

end N8n.Engine
