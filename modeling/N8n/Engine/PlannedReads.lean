import N8n.Engine.HandlerInvariant

namespace N8n.Engine

open Lib TransitionSystem

structure ReadsAsPlanned (u : Setup) (planned run : Rows) (settled step : StepKey)
    (terminalIterations : String → Option Nat) (reads : List (GraphEdge × StepKey)) (inputs : StepSlots) : Prop where
  sources : ∀ edge source, (edge, source) ∈ reads ↔ edge ∈ u.graph.incoming step.nodeId ∧
    sourceRow edge (classifyEdge edge u.loops) step (terminalIterations edge.fromId) = .row source
  rows : ∀ read ∈ reads, ∃ row, u.summaries planned settled terminalIterations read.2 = some row.summary ∧
    isSettledStatus row.status = true ∧ planned.get? read.2 = some row ∧ run.get? read.2 = some row
  slots : (reads.map (·.1.inputIndex)).Nodup
  length : inputs.length = (reads.map (·.1.inputIndex)).foldl max 0 + 1
  values : ∀ read ∈ reads, ∀ row, planned.get? read.2 = some row →
    inputs[read.1.inputIndex]? = some (edgeValue read.1 row)
  nulls : ∀ i value, inputs[i]? = some value → (isNull value = true ↔ ∀ read ∈ reads, read.1.inputIndex = i →
    ∀ row, planned.get? read.2 = some row → isLive row.summary read.1 = false)

section Planned

variable {u : Setup} {s s₁ s₂ : State} {rows rows' : Rows} {settled step : StepKey} {edge : GraphEdge}
  {terminalIterations terminalIterations' : String → Option Nat}

theorem le_foldl_max {ns : List Nat} {n : Nat} (hn : n ∈ ns) (m : Nat) : n ≤ ns.foldl max m := by
  induction ns generalizing m with
  | nil => cases hn
  | cons k ns ih =>
    rw [List.foldl_cons]
    rcases List.mem_cons.1 hn with rfl | hn
    · have hle : ∀ (ns : List Nat) (m : Nat), m ≤ ns.foldl max m := by
        intro ns
        induction ns with
        | nil => exact Nat.le_refl
        | cons k ns ih => exact fun m => (Nat.le_max_left m k).trans (ih _)
      exact (Nat.le_max_right m n).trans (hle ns _)
    · exact ih hn _

theorem weighs_of_planned {runs : Bool} (hq : step ∈ (u.plan rows settled terminalIterations).of runs)
    (he : edge ∈ u.graph.incoming step.nodeId) :
    Weighs u.loops step (u.summaries rows settled terminalIterations) terminalIterations edge := by
  obtain ⟨-, -, hfate, -⟩ := mem_decideTargets.1 hq
  rw [decideNodeFate] at hfate
  split at hfate
  · cases runs <;> cases hfate
  · exact (weighEdges_iff.1 hfate).1 edge he

theorem RowInvariant.readOf_eq (hi : RowInvariant u rows') (hx : Executable u.graph) (hg : rows.Grows rows')
    (hended : Ended rows terminalIterations) (hended' : Ended rows' terminalIterations') (he : edge ∈ u.graph.edges)
    (hp : candidateRow u.loops step terminalIterations edge ≠ .pending)
    (hp' : candidateRow u.loops step terminalIterations' edge ≠ .pending) :
    readOf u.loops step terminalIterations edge = readOf u.loops step terminalIterations' edge := by
  have hrow : candidateRow u.loops step terminalIterations edge = candidateRow u.loops step terminalIterations' edge := by
    cases hc : candidateRow u.loops step terminalIterations edge with
    | none => exact (sourceRow_eq_none.1 hc).symm
    | pending => exact absurd hc hp
    | row source => exact (hi.candidateRow_eq hx he hended' ((readsRow_of_candidate hended hc).grows hg) hp').symm
  rw [readOf, readOf, hrow]

theorem RowInvariant.reads_eq (hi : RowInvariant u rows') (hx : Executable u.graph) (hg : rows.Grows rows')
    (hended : Ended rows terminalIterations) (hended' : Ended rows' terminalIterations')
    (hp : ∀ edge ∈ u.graph.incoming step.nodeId, candidateRow u.loops step terminalIterations edge ≠ .pending)
    (hp' : ∀ edge ∈ u.graph.incoming step.nodeId, candidateRow u.loops step terminalIterations' edge ≠ .pending) :
    (u.graph.incoming step.nodeId).filterMap (readOf u.loops step terminalIterations) =
      (u.graph.incoming step.nodeId).filterMap (readOf u.loops step terminalIterations') :=
  List.filterMap_congr fun edge he =>
    hi.readOf_eq hx hg hended hended' (mem_incoming.1 he).1 (hp edge he) (hp' edge he)

/-- What the planner queues, the reader can read, from the same rows, whenever the step is run. -/
theorem planned_reads (hvalid : validateExecutableGraph u.graph = .ok ()) (hs : u.system.Reachable Any s)
    (hd : .deciding settled terminalIterations ∈ s.handlers)
    (hq : step ∈ (u.plan s.rows settled terminalIterations).toQueue)
    (h₁ : u.system.Leads Any s s₁) (h₂ : u.system.Leads Any s₁ s₂) :
    ∃ reads inputs, u.readsAt s₁.rows step = .ok reads ∧ Setup.inputsAt s₂.rows step reads = .ok inputs ∧
      ReadsAsPlanned u s.rows s₂.rows settled step terminalIterations reads inputs := by
  have hx := executable_of_valid hvalid
  have hS := u.sound_of_reachable hx hs
  have hi₁ := (u.sound_of_reachable hx (hs.leads h₁)).rows
  obtain ⟨hpassed, hended⟩ := hS.work _ (mem_work.2 (.inl hd))
  obtain ⟨row, hrow, hsettled⟩ := hpassed.settled
  have hq : step ∈ (u.plan s.rows settled terminalIterations).of true := hq
  obtain ⟨-, hjustified⟩ := hS.rows.plan_sound hx hended hrow hsettled hq
  have hg₁ := u.leads_grows h₁
  have hg₂ := hg₁.trans (u.leads_grows h₂)
  have hknows : Knows u s₁.rows (loadTerminalIterations s₁.rows (u.exitSources [step.nodeId])) step :=
    hi₁.knows_load hx (List.mem_singleton_self _)
  have hready := hjustified.toReady.grows hg₁
  have hweighs : ∀ edge ∈ u.graph.incoming step.nodeId, _ := fun edge he => weighs_of_planned hq he
  have hsame := hi₁.reads_eq hx hg₁ hended (ended_load _ _) (fun edge he => (hweighs edge he).1)
    fun edge he => hready.not_pending hknows he
  have hreads := hready.gatherReads_ok hx hknows
  rw [← hsame] at hreads
  generalize hlist : (u.graph.incoming step.nodeId).filterMap (readOf u.loops step terminalIterations) = reads at hreads
  have hmem : ∀ edge source, (edge, source) ∈ reads ↔ edge ∈ u.graph.incoming step.nodeId ∧
      sourceRow edge (classifyEdge edge u.loops) step (terminalIterations edge.fromId) = .row source := by
    intro edge source
    rw [← hlist, List.mem_filterMap]
    constructor
    · rintro ⟨edge', he, hr⟩
      obtain ⟨rfl, hc⟩ := readOf_eq_some.1 hr
      exact ⟨he, hc⟩
    · rintro ⟨he, hc⟩
      exact ⟨edge, he, readOf_eq_some.2 ⟨rfl, hc⟩⟩
  have hrows : ∀ read ∈ reads, ∃ row, u.summaries s.rows settled terminalIterations read.2 = some row.summary ∧
      isSettledStatus row.status = true ∧ s.rows.get? read.2 = some row ∧ s₂.rows.get? read.2 = some row := by
    rintro ⟨edge, source⟩ hm
    obtain ⟨he, hc⟩ := (hmem edge source).1 hm
    obtain ⟨summary, hsummary, hs⟩ := (hweighs edge he).2 source hc
    obtain ⟨row, hr, rfl⟩ := summary_row hsummary
    exact ⟨row, hsummary, hs, hr, hg₂.settled hr hs⟩
  have hslots : (reads.map (·.1.inputIndex)).Nodup := hlist ▸ hx.slots_nodup step terminalIterations
  have hloaded : ∀ read ∈ reads, ∀ row, s.rows.get? read.2 = some row →
      s₂.rows.loadStepsByKeys (reads.map (·.2)) read.2 = some row ∧ isSettledStatus row.status = true := by
    intro read hm row hr
    obtain ⟨row', -, hs, hr', hr₂⟩ := hrows read hm
    cases hr.symm.trans hr'
    exact ⟨(loadStepsByKeys_mem (List.mem_map_of_mem hm)).trans hr₂, hs⟩
  obtain ⟨inputs, hfill, hlength, hvalues, hrest⟩ := @fillInputs_ok step reads
    (List.replicate ((reads.map (·.1.inputIndex)).foldl max 0 + 1) .null) (s₂.rows.loadStepsByKeys (reads.map (·.2)))
    (fun read hm => by
      obtain ⟨row, -, -, hr, -⟩ := hrows read hm
      exact ⟨row, hloaded read hm row hr⟩) hslots
  rw [List.length_replicate] at hlength
  have hvalue : ∀ read ∈ reads, ∀ row, s.rows.get? read.2 = some row →
      inputs[read.1.inputIndex]? = some (edgeValue read.1 row) := by
    intro read hm row hr
    have hindex : read.1.inputIndex ∈ reads.map (·.1.inputIndex) := List.mem_map_of_mem hm
    refine hvalues read hm row (hloaded read hm row hr).1 ?_
    rw [List.length_replicate]
    exact Nat.lt_succ_of_le (le_foldl_max hindex 0)
  refine ⟨reads, inputs, hreads, hfill, hmem, hrows, hslots, hlength, hvalue, fun i value hi => ?_⟩
  constructor
  · rintro hnull read hm rfl row hr
    cases (hvalue read hm row hr).symm.trans hi
    rw [isNull_edgeValue, Bool.not_eq_true'] at hnull
    exact hnull
  · intro hdead
    by_cases hslot : i ∈ reads.map (·.1.inputIndex)
    · obtain ⟨read, hm, rfl⟩ := List.mem_map.1 hslot
      obtain ⟨row, -, -, hr, -⟩ := hrows read hm
      cases (hvalue read hm row hr).symm.trans hi
      rw [isNull_edgeValue, hdead read hm rfl row hr]
      rfl
    · rw [hrest i hslot] at hi
      rw [List.eq_of_mem_replicate (List.mem_of_getElem? hi)]
      rfl

end Planned

section Loop

def loopGraph : WorkflowGraph where
  nodes := [⟨"trigger", "Trigger", .trigger, none⟩, ⟨"batch", "Batch", .batch, some (.obj [("batchSize", .num 1)])⟩,
    ⟨"body", "Body", .v1Node, none⟩, ⟨"after", "After", .v1Node, none⟩]
  edges := [⟨"trigger", "batch", 0, 0, false⟩, ⟨"batch", "body", 1, 0, false⟩, ⟨"body", "batch", 0, 0, true⟩,
    ⟨"batch", "after", 0, 0, false⟩]

def loopSetup : Setup := ⟨loopGraph, some [.arr [.num 1, .num 2]], true⟩

def handleNext (operations : Nat) : List Label := .deliver 0 :: List.replicate operations (.resume 0)

/-- The first pass of the batch node has run, and its successors are about to be decided. -/
def firstPass : Option State :=
  loopSetup.system.run (fun _ _ => true) .start (handleNext 4 ++ handleNext 9 ++ handleNext 10 ++ handleNext 5)

def queuedBy (u : Setup) (s : State) : Handler → List StepKey
  | .deciding step terminalIterations => (u.plan s.rows step terminalIterations).toQueue
  | _ => []

theorem planned_reads_body : ∃ s settled terminalIterations reads inputs, loopSetup.system.Reachable Any s ∧
    .deciding settled terminalIterations ∈ s.handlers ∧ loopSetup.readsAt s.rows ⟨"body", 0⟩ = .ok reads ∧
    Setup.inputsAt s.rows ⟨"body", 0⟩ reads = .ok inputs ∧
    ReadsAsPlanned loopSetup s.rows s.rows settled ⟨"body", 0⟩ terminalIterations reads inputs := by
  have hvalid : validateExecutableGraph loopSetup.graph = .ok () := by decide +kernel
  have hrun : (firstPass.any fun s => s.handlers.any fun h => (queuedBy loopSetup s h).contains ⟨"body", 0⟩) = true := by
    decide +kernel
  obtain ⟨s, hs, hany⟩ := (Option.any_eq_true _ _).1 hrun
  obtain ⟨h, hh, hqueued⟩ := List.any_eq_true.1 hany
  have hreachable : loopSetup.system.Reachable Any s := ⟨.start, rfl, (run_leads hs).mono fun _ _ _ => trivial⟩
  cases h with
  | deciding settled terminalIterations =>
    obtain ⟨reads, inputs, hreads, hinputs, h⟩ :=
      planned_reads hvalid hreachable hh (List.contains_iff_mem.1 hqueued) .refl .refl
    exact ⟨s, settled, terminalIterations, reads, inputs, hreachable, hh, hreads, hinputs, h⟩
  | _ => cases hqueued

end Loop

section Restricted

variable {graph : WorkflowGraph} {loops : List WorkflowLoop} {settled candidate : StepKey}
  {steps steps' : StepKey → Option StepSummary} {terminalIterations : String → Option Nat}

def restrictTo (keys : List StepKey) (steps : StepKey → Option StepSummary) (key : StepKey) : Option StepSummary :=
  if key ∈ keys then steps key else none

theorem isPastLoopEnd_congr
    (h : ∀ key ∈ targetKeys graph loops terminalIterations candidate, steps key = steps' key) :
    isPastLoopEnd loops candidate steps = isPastLoopEnd loops candidate steps' := by
  rw [isPastLoopEnd, isPastLoopEnd]
  cases hloop : loopOf loops candidate.nodeId with
  | none => rfl
  | some loop =>
    have hkey : ⟨loop.batchNodeId, candidate.iteration⟩ ∈ targetKeys graph loops terminalIterations candidate := by
      simp [targetKeys, hloop]
    simp only [h _ hkey]

theorem weighEdges_congr {edges : List GraphEdge} {applicable : Nat} {live : Bool}
    (h : ∀ edge ∈ edges, ∀ key, candidateRow loops candidate terminalIterations edge = .row key → steps key = steps' key) :
    weighEdges loops candidate steps terminalIterations edges applicable live =
      weighEdges loops candidate steps' terminalIterations edges applicable live := by
  induction edges generalizing applicable live with
  | nil => rfl
  | cons edge edges ih =>
    rw [List.forall_mem_cons] at h
    rw [weighEdges, weighEdges]
    split
    · exact ih h.2
    · rfl
    · next key hrow =>
      rw [h.1 key hrow]
      split
      · rfl
      · split
        · exact ih h.2
        · rfl

theorem decideNodeFate_congr
    (h : ∀ key ∈ targetKeys graph loops terminalIterations candidate, steps key = steps' key) :
    decideNodeFate graph loops candidate steps terminalIterations =
      decideNodeFate graph loops candidate steps' terminalIterations := by
  rw [decideNodeFate, decideNodeFate, isPastLoopEnd_congr h]
  split
  · rfl
  · apply weighEdges_congr
    intro edge he key hrow
    apply h
    rw [targetKeys]
    apply List.mem_cons_of_mem
    apply List.mem_append_left
    rw [candidateRow] at hrow
    exact List.mem_filterMap.2 ⟨edge, he, by rw [hrow]⟩

theorem decideTargets_congr {batchStep : Option StepSummary} {edges : List GraphEdge} {decided : List StepKey}
    (h : ∀ edge ∈ edges, ∀ key ∈ targetKeys graph loops terminalIterations (targetKey edge (classifyEdge edge loops) settled),
      steps key = steps' key) :
    decideTargets graph loops settled batchStep steps terminalIterations edges decided =
      decideTargets graph loops settled batchStep steps' terminalIterations edges decided := by
  induction edges generalizing decided with
  | nil => rfl
  | cons edge edges ih =>
    rw [List.forall_mem_cons] at h
    rw [decideTargets, decideTargets]
    simp only [h.1 _ List.mem_cons_self, decideNodeFate_congr h.1, ih h.2]

/-- On the rows that `decisionKeys` names the planner decides as on all rows. -/
theorem decideSuccessors_restricted (graph : WorkflowGraph) (loops : List WorkflowLoop) (settled : StepKey)
    (steps : StepKey → Option StepSummary) (terminalIterations : String → Option Nat) :
    decideSuccessors graph loops settled (restrictTo (decisionKeys graph loops settled terminalIterations) steps)
        terminalIterations =
      decideSuccessors graph loops settled steps terminalIterations := by
  have hread : ∀ key ∈ decisionKeys graph loops settled terminalIterations,
      restrictTo (decisionKeys graph loops settled terminalIterations) steps key = steps key := fun key hk => if_pos hk
  rw [decideSuccessors, decideSuccessors, hread settled (OrderedSet.mem_ofList.2 List.mem_cons_self)]
  apply decideTargets_congr
  intro edge he key hk
  exact hread key (OrderedSet.mem_ofList.2 (List.mem_cons_of_mem _ (List.mem_flatMap.2 ⟨edge, he, hk⟩)))

end Restricted

end N8n.Engine
