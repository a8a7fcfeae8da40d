import N8n.EngineCompatibility.V1RunData
import N8n.Engine.PlannedReads

namespace N8n.EngineCompatibility

open Lib Engine TransitionSystem

section Statements

variable (graph : WorkflowGraph) (steps : List StepDetail) (runData : ObjectMap String (List TaskData))

def rowsOf (steps : List StepDetail) : Rows :=
  steps.foldl (fun rows step => rows.set ⟨step.nodeId, step.iteration⟩ ⟨step.status, step.outputs⟩) .empty

/-- The reported nodes have names that tell them apart, and no name finds a member of the prototype of `runData`. -/
structure ProperNames : Prop where
  distinct : ∀ step ∈ reported (nodeNamesById graph) steps, ∀ other ∈ reported (nodeNamesById graph) steps,
    (nodeNamesById graph).get? step.nodeId = (nodeNamesById graph).get? other.nodeId → step.nodeId = other.nodeId
  own : ∀ step ∈ reported (nodeNamesById graph) steps, ∀ name ∈ (nodeNamesById graph).get? step.nodeId,
    name ∉ inheritedNames

def entryOf (step : StepDetail) : Option TaskData :=
  (((nodeNamesById graph).get? step.nodeId).bind runData.get?).bind (·[step.iteration]?)

/-- The reported steps have their entries, numbered in their order, with empty runs between them. -/
structure ReadsBack : Prop where
  entries : ∀ i step, (reported (nodeNamesById graph) steps)[i]? = some step → ∃ status,
    taskStatus step.status = some status ∧
      entryOf graph runData step = some (toTaskData step status i (toSources (toLineage graph steps) step))
  gaps : ∀ step ∈ reported (nodeNamesById graph) steps, ∀ tasks,
    ((nodeNamesById graph).get? step.nodeId).bind runData.get? = some tasks → ∀ k, k < tasks.length →
      (∀ other ∈ reported (nodeNamesById graph) steps, other.nodeId = step.nodeId → other.iteration ≠ k) →
        tasks[k]? = some (emptyRun k [])
  last : ∀ step ∈ reported (nodeNamesById graph) steps, ∀ tasks,
    ((nodeNamesById graph).get? step.nodeId).bind runData.get? = some tasks →
      ∃ other ∈ reported (nodeNamesById graph) steps, other.nodeId = step.nodeId ∧ other.iteration + 1 = tasks.length

def HasRun (source : ISourceData) : Prop :=
  ∃ tasks, runData.get? source.previousNode = some tasks ∧ (source.previousNodeRun.getD 0).toNat < tasks.length

def Delivers (step : StepDetail) (edge : GraphEdge) : Prop :=
  ∃ row, Settles graph (rowsOf steps) ⟨step.nodeId, step.iteration⟩ edge row ∧ isLive row.summary edge = true

def Delivered (step : StepDetail) (slot : Nat) : Prop :=
  ∃ edge ∈ graph.incoming step.nodeId, edge.inputIndex = slot ∧ Delivers graph steps step edge

/-- The edge that the source stands for delivered an input on the slot: the first forward edge into it. -/
def DeliveredFirst (step : StepDetail) (slot : Nat) : Prop :=
  ∃ edge, edgeInto (nodeNamesById graph) (forwardInto graph step.nodeId) slot = some edge ∧
    Delivers graph steps step edge

def SourcesRan (delivered : StepDetail → Nat → Prop) : Prop :=
  ∀ step ∈ reported (nodeNamesById graph) steps, ∀ task, entryOf graph runData step = some task → ∀ slot source,
    task.source[slot]? = some (some source) → delivered step slot → HasRun runData source

end Statements

section Rows

variable {steps : List StepDetail} {key : StepKey} {row : StepRecord}

theorem get?_foldl_rows {rows : Rows}
    (h : (steps.foldl (fun rows step => rows.set ⟨step.nodeId, step.iteration⟩ ⟨step.status, step.outputs⟩) rows).get?
      key = some row) :
    rows.get? key = some row ∨ ∃ step ∈ steps, key = ⟨step.nodeId, step.iteration⟩ ∧
      row = ⟨step.status, step.outputs⟩ := by
  induction steps generalizing rows with
  | nil => exact .inl h
  | cons step steps ih =>
    rcases ih h with h | ⟨other, hmem, h⟩
    · rw [ObjectMap.get?_set] at h
      split at h
      · next hk => exact .inr ⟨step, List.mem_cons_self, hk, (Option.some.inj h).symm⟩
      · exact .inl h
    · exact .inr ⟨other, List.mem_cons_of_mem _ hmem, h⟩

theorem get?_rowsOf (h : (rowsOf steps).get? key = some row) :
    ∃ step ∈ steps, key = ⟨step.nodeId, step.iteration⟩ ∧ row = ⟨step.status, step.outputs⟩ := by
  rcases get?_foldl_rows h with h | h
  · cases h
  · exact h

theorem isSome_foldl_rows {rows : Rows}
    (h : (rows.get? key).isSome = true ∨ ∃ step ∈ steps, key = ⟨step.nodeId, step.iteration⟩) :
    ((steps.foldl (fun rows step => rows.set ⟨step.nodeId, step.iteration⟩ ⟨step.status, step.outputs⟩) rows).get?
      key).isSome = true := by
  induction steps generalizing rows with
  | nil => exact h.resolve_right fun ⟨_, hmem, _⟩ => nomatch hmem
  | cons step steps ih =>
    refine ih ?_
    rw [ObjectMap.get?_set]
    split
    · exact .inl rfl
    · next hne =>
      rcases h with h | ⟨other, hmem, hk⟩
      · exact .inl h
      · rcases List.mem_cons.1 hmem with rfl | hmem
        · exact absurd hk hne
        · exact .inr ⟨other, hmem, hk⟩

theorem isSome_rowsOf {step : StepDetail} (h : step ∈ steps) :
    ((rowsOf steps).get? ⟨step.nodeId, step.iteration⟩).isSome = true :=
  isSome_foldl_rows (.inr ⟨step, h, rfl⟩)

theorem taskStatus_of_live {edge : GraphEdge} (h : isLive row.summary edge = true) :
    taskStatus row.status = some .success := by
  rw [isLive, Bool.and_eq_true, decide_eq_true_iff] at h
  rw [show row.status = .completed from h.1]
  rfl

end Rows

section Written

variable {graph : WorkflowGraph} {steps : List StepDetail} {runData : ObjectMap String (List TaskData)}

theorem mem_toStepRuns {run : StepRun} (hr : run ∈ toStepRuns graph steps) :
    run.step ∈ reported (nodeNamesById graph) steps ∧
      (nodeNamesById graph).get? run.step.nodeId = some run.nodeName := by
  obtain ⟨hsteps, hat⟩ := toStepRuns_spec graph steps
  obtain ⟨i, hi⟩ := List.mem_iff_getElem?.1 hr
  exact ⟨hsteps ▸ List.mem_map_of_mem hr, (hat i run hi).name⟩

theorem runs_distinct (hkeys : (steps.map fun step => (step.nodeId, step.iteration)).Nodup)
    (hnames : ProperNames graph steps) :
    ((toStepRuns graph steps).map fun run => (run.nodeName, run.step.iteration)).Nodup := by
  have hreported : ((toStepRuns graph steps).map fun run => (run.step.nodeId, run.step.iteration)).Nodup := by
    have h := hkeys.sublist (List.Sublist.map (fun step => (step.nodeId, step.iteration))
      (List.filter_sublist (p := fun step => (taskStatus step.status).isSome &&
        ((nodeNamesById graph).get? step.nodeId).isSome) (l := steps)))
    rwa [show steps.filter _ = _ from (toStepRuns_spec graph steps).1.symm, List.map_map] at h
  rw [List.Nodup, List.pairwise_map] at hreported ⊢
  refine hreported.imp_of_mem fun {run other} hr ho hne he => hne ?_
  obtain ⟨hmem, hname⟩ := mem_toStepRuns hr
  obtain ⟨hmem', hname'⟩ := mem_toStepRuns ho
  rw [Prod.mk.injEq] at he ⊢
  refine ⟨hnames.distinct _ hmem _ hmem' ?_, he.2⟩
  rw [hname, hname', he.1]

theorem readsBack (hkeys : (steps.map fun step => (step.nodeId, step.iteration)).Nodup)
    (hnames : ProperNames graph steps) :
    ∃ runData, toRunData (toStepRuns graph steps) = .ok runData ∧ ReadsBack graph steps runData := by
  obtain ⟨hsteps, hat⟩ := toStepRuns_spec graph steps
  have hown : ∀ run ∈ toStepRuns graph steps, run.nodeName ∉ inheritedNames := by
    intro run hr
    obtain ⟨hmem, hname⟩ := mem_toStepRuns hr
    exact hnames.own run.step hmem _ hname
  obtain ⟨acc, hfold, hrecorded⟩ := foldlM_addRun recorded_nil hown (by
    rw [List.nil_append]
    exact runs_distinct hkeys hnames)
  rw [List.nil_append] at hrecorded
  refine ⟨acc.runData, by rw [toRunData, hfold]; rfl, ?_⟩
  -- A task of a name is that of a step of the node.
  have hwritten : ∀ step ∈ reported (nodeNamesById graph) steps, ∀ tasks,
      ((nodeNamesById graph).get? step.nodeId).bind acc.runData.get? = some tasks → ∃ written,
        Padded (fun i => emptyRun i []) written tasks ∧ (written step.iteration).isSome = true ∧
          ∀ k, (written k).isSome = true → ∃ other ∈ reported (nodeNamesById graph) steps,
            other.nodeId = step.nodeId ∧ other.iteration = k := by
    intro step hs tasks htasks
    obtain ⟨run, hr, rfl⟩ := List.mem_map.1 (hsteps ▸ hs)
    obtain ⟨-, hname⟩ := mem_toStepRuns hr
    rw [hname, Option.bind_some] at htasks
    obtain ⟨written, hpadded, hwritten⟩ := hrecorded.records run.nodeName
    rw [htasks, Option.getD_some] at hpadded
    refine ⟨written, hpadded, ?_, fun k hk => ?_⟩
    · rw [(hwritten run.step.iteration run.taskData).2 ⟨run, hr, rfl, rfl, rfl⟩]
      rfl
    · obtain ⟨task, hk⟩ := Option.isSome_iff_exists.1 hk
      obtain ⟨other, ho, hsame, hiteration, -⟩ := (hwritten k task).1 hk
      obtain ⟨hmem, hname'⟩ := mem_toStepRuns ho
      refine ⟨other.step, hmem, hnames.distinct _ hmem _ hs ?_, hiteration⟩
      rw [hname, hname', hsame]
  refine ⟨fun i step hi => ?_, fun step hs tasks htasks k hk hgap => ?_, fun step hs tasks htasks => ?_⟩
  · rw [← hsteps, List.getElem?_map] at hi
    obtain ⟨run, hr, rfl⟩ := Option.map_eq_some_iff.1 hi
    obtain ⟨hname, status, hstatus, htask⟩ := hat i run hr
    refine ⟨status, hstatus, ?_⟩
    obtain ⟨written, hpadded, hwritten⟩ := hrecorded.records run.nodeName
    have hentry := hpadded.entries run.step.iteration run.taskData
      ((hwritten _ _).2 ⟨run, List.mem_of_getElem? hr, rfl, rfl, rfl⟩)
    rw [entryOf, show (nodeNamesById graph).get? run.step.nodeId = some run.nodeName from hname, Option.bind_some,
      ← htask]
    cases htasks : acc.runData.get? run.nodeName with
    | none =>
      rw [htasks] at hentry
      cases hentry
    | some tasks =>
      rw [htasks] at hentry
      exact hentry
  · obtain ⟨written, hpadded, -, hback⟩ := hwritten step hs tasks htasks
    refine hpadded.gaps k hk ?_
    by_contra hne
    obtain ⟨other, ho, hid, hiteration⟩ := hback k (Option.isSome_iff_ne_none.2 hne)
    exact hgap other ho hid hiteration
  · obtain ⟨written, hpadded, hsome, hback⟩ := hwritten step hs tasks htasks
    obtain ⟨task, htask⟩ := Option.isSome_iff_exists.1 hsome
    obtain ⟨n, hn⟩ := Nat.exists_eq_add_one_of_ne_zero (Nat.ne_of_gt (Nat.zero_lt_of_lt (hpadded.lt_length htask)))
    obtain ⟨other, ho, hid, hiteration⟩ := hback n (hpadded.last n hn)
    exact ⟨other, ho, hid, by rw [hiteration, hn]⟩

end Written

section Sources

variable {graph : WorkflowGraph} {steps : List StepDetail} {runData : ObjectMap String (List TaskData)}
  {step : StepDetail} {edge : GraphEdge}

theorem lastIteration_ran {id : String} {n : Nat} {last : ObjectMap String Nat}
    (h : (steps.foldl seeIteration last).get? id = some n) : last.get? id = some n ∨
      ∃ step ∈ steps, (taskStatus step.status).isSome = true ∧ step.nodeId = id ∧ step.iteration = n := by
  induction steps generalizing last with
  | nil => exact .inl h
  | cons step steps ih =>
    rcases ih h with h | ⟨other, hmem, h⟩
    · by_cases hran : (taskStatus step.status).isNone = true
      · rw [seeIteration, if_pos hran] at h
        exact .inl h
      · have hset : (last.set step.nodeId step.iteration).get? id = some n → last.get? id = some n ∨
            ∃ other ∈ step :: steps, (taskStatus other.status).isSome = true ∧ other.nodeId = id ∧
              other.iteration = n := by
          intro h
          rw [ObjectMap.get?_set] at h
          split at h
          · next hid =>
            rw [Bool.not_eq_true, ← Option.not_isSome, Bool.not_eq_false'] at hran
            exact .inr ⟨step, List.mem_cons_self, hran, hid.symm, Option.some.inj h⟩
          · exact .inl h
        rw [seeIteration, if_neg hran] at h
        split at h
        · exact hset h
        · split at h
          · exact hset h
          · exact .inl h
    · exact .inr ⟨other, List.mem_cons_of_mem _ hmem, h⟩

theorem previousNodeRun_ran {other : StepDetail} (ho : other ∈ steps) (hran : (taskStatus other.status).isSome = true)
    (hid : other.nodeId = edge.fromId) {iteration : Nat}
    (hpass : ∀ loop, loopOf (deriveLoops graph) edge.fromId = some loop → edge.toId ∈ loop.memberIds →
      iteration ≤ other.iteration) :
    ∃ ran ∈ steps, (taskStatus ran.status).isSome = true ∧ ran.nodeId = edge.fromId ∧
      toPreviousNodeRun (toLineage graph steps) iteration edge ≤ ran.iteration := by
  rw [toPreviousNodeRun, toLineage]
  cases hloop : loopOf (deriveLoops graph) edge.fromId with
  | none => exact ⟨other, ho, hran, hid, Nat.zero_le _⟩
  | some loop =>
    by_cases hto : edge.toId ∈ loop.memberIds
    · exact ⟨other, ho, hran, hid, by simpa only [hto, if_true] using hpass loop hloop hto⟩
    · simp only [hto, if_false]
      cases hlast : (steps.foldl seeIteration .empty).get? edge.fromId with
      | none => exact ⟨other, ho, hran, hid, Nat.zero_le _⟩
      | some n =>
        rcases lastIteration_ran hlast with h | ⟨last, hmem, hran', hid', hn⟩
        · cases h
        · exact ⟨last, hmem, hran', hid', Nat.le_of_eq hn.symm⟩

theorem ReadsBack.hasRun (h : ReadsBack graph steps runData) {previousNode : String} {previousNodeRun :
    GraphEdge → Nat}
    (hname : (nodeNamesById graph).get? edge.fromId = some previousNode)
    (hran : ∃ ran ∈ steps, (taskStatus ran.status).isSome = true ∧ ran.nodeId = edge.fromId ∧
      previousNodeRun edge ≤ ran.iteration) :
    HasRun runData (toSource previousNodeRun edge previousNode) := by
  obtain ⟨ran, hmem, hstatus, hid, hle⟩ := hran
  have hreported : ran ∈ reported (nodeNamesById graph) steps :=
    mem_reported.2 ⟨hmem, hstatus, by rw [hid, hname]; rfl⟩
  obtain ⟨i, hi⟩ := List.mem_iff_getElem?.1 hreported
  obtain ⟨status, -, hentry⟩ := h.entries i ran hi
  rw [entryOf, hid, hname, Option.bind_some] at hentry
  obtain ⟨tasks, htasks, htask⟩ := Option.bind_eq_some_iff.1 hentry
  refine ⟨tasks, htasks, Nat.lt_of_le_of_lt ?_ (List.getElem?_eq_some_iff.1 htask).1⟩
  rw [toSource]
  split
  · exact Nat.zero_le _
  · exact hle

theorem ReadsBack.source_edge (h : ReadsBack graph steps runData) (hs : step ∈ reported (nodeNamesById graph) steps)
    {task : TaskData} (htask : entryOf graph runData step = some task) {slot : Nat} {source : ISourceData}
    (hsource : task.source[slot]? = some (some source)) :
    ∃ edge previousNode, edgeInto (nodeNamesById graph) (forwardInto graph step.nodeId) slot = some edge ∧
      (nodeNamesById graph).get? edge.fromId = some previousNode ∧
      source = toSource (toPreviousNodeRun (toLineage graph steps) step.iteration) edge previousNode := by
  obtain ⟨i, hi⟩ := List.mem_iff_getElem?.1 hs
  obtain ⟨status, -, hentry⟩ := h.entries i step hi
  cases htask.symm.trans hentry
  have hslot : ((toSources (toLineage graph steps) step)[slot]?).join = some source := by
    rw [show (toSources (toLineage graph steps) step)[slot]? = _ from hsource]
    rfl
  rw [toSources, toSourceSlots_slot] at hslot
  obtain ⟨edge, hedge, hof⟩ := Option.bind_eq_some_iff.1 hslot
  obtain ⟨previousNode, hname, hsource⟩ := Option.map_eq_some_iff.1 hof
  rw [show ((toLineage graph steps).edgesByTarget.get? step.nodeId).getD [] = _ from
    get?_forwardEdgesByTarget graph step.nodeId] at hedge
  exact ⟨edge, previousNode, hedge, hname, hsource.symm⟩

theorem edgeInto_spec {namesById : ObjectMap String String} {slot : Nat}
    (h : edgeInto namesById (forwardInto graph step.nodeId) slot = some edge) :
    edge ∈ graph.edges ∧ edge.toId = step.nodeId ∧ edge.isBackEdge = false ∧ edge.inputIndex = slot := by
  obtain ⟨⟨he, hto⟩, hf⟩ := mem_forwardInto.1 (List.mem_of_find?_eq_some h)
  have hslot := List.find?_some h
  rw [decide_eq_true_iff] at hslot
  exact ⟨he, hto, hf, hslot.1⟩

theorem delivers_ran (h : Delivers graph steps step edge) : ∃ source other, other ∈ steps ∧
    (taskStatus other.status).isSome = true ∧ source = ⟨other.nodeId, other.iteration⟩ ∧
    ReadsRow graph (rowsOf steps) ⟨step.nodeId, step.iteration⟩ edge source := by
  obtain ⟨row, ⟨source, hreads, hrow, -⟩, hlive⟩ := h
  obtain ⟨other, ho, hsource, rfl⟩ := get?_rowsOf hrow
  have hstatus : taskStatus other.status = some .success := taskStatus_of_live hlive
  exact ⟨source, other, ho, by rw [hstatus]; rfl, hsource, hreads⟩

theorem sourceRow_pass {loops : List WorkflowLoop} {loop : WorkflowLoop} {key source : StepKey} {t : Option Nat}
    (hf : edge.isBackEdge = false) (hloop : loopOf loops edge.fromId = some loop)
    (h : sourceRow edge (classifyEdge edge loops) key t = .row source) : key.iteration ≤ source.iteration := by
  have hexit : sourceRow edge .exit key t = .row source → key.iteration ≤ source.iteration := by
    intro h
    simp only [sourceRow] at h
    split at h
    · cases h
    · omega
  rw [classifyEdge, hf, if_neg Bool.false_ne_true, hloop] at h
  cases hto : loopOf loops edge.toId with
  | none =>
    rw [hto] at h
    exact hexit h
  | some loop' =>
    rw [hto] at h
    dsimp only at h
    split at h
    · cases h
      exact Nat.le_refl _
    · exact hexit h

theorem ReadsBack.sourcesRan (h : ReadsBack graph steps runData) :
    SourcesRan graph steps runData (DeliveredFirst graph steps) := by
  intro step hs task htask slot source hsource hdelivered
  obtain ⟨edge, hedge, hdelivers⟩ := hdelivered
  obtain ⟨first, previousNode, hfirst, hname, rfl⟩ := h.source_edge hs htask hsource
  cases hedge.symm.trans hfirst
  obtain ⟨-, -, hf, -⟩ := edgeInto_spec hedge
  obtain ⟨source, other, ho, hran, rfl, t, hrow, -⟩ := delivers_ran hdelivers
  have hid : other.nodeId = edge.fromId := sourceRow_nodeId hrow
  exact h.hasRun hname (previousNodeRun_ran ho hran hid fun loop hloop _ => sourceRow_pass hf hloop hrow)

end Sources

section Executions

variable {u : Setup} {s : State} {steps : List StepDetail} {runData : ObjectMap String (List TaskData)}
  {step : StepDetail} {edge : GraphEdge}

theorem forward_unique (hx : Executable u.graph) {edge' : GraphEdge} (he : edge ∈ u.graph.edges)
    (he' : edge' ∈ u.graph.edges) (hf : edge.isBackEdge = false) (hf' : edge'.isBackEdge = false)
    (hto : edge.toId = edge'.toId) (hslot : edge.inputIndex = edge'.inputIndex) : edge = edge' := by
  by_contra hne
  have : Std.Symm fun e e' : GraphEdge => e.isBackEdge = false → e'.isBackEdge = false →
      e.toId = e'.toId → e.inputIndex ≠ e'.inputIndex := ⟨fun _ _ h hb hb' hto => (h hb' hb hto.symm).symm⟩
  exact hx.slots.forall he he' hne hf hf' hto hslot

theorem entry_delivered (hx : Executable u.graph) (hi : RowInvariant u s.rows) {loop : WorkflowLoop}
    (hl : loop ∈ deriveLoops u.graph) (hcontinues : Continues s.rows loop.batchNodeId 0) (he : edge ∈ u.graph.edges)
    (hf : edge.isBackEdge = false) (hto : edge.toId = loop.batchNodeId) :
    ∃ row source, ReadsRow u.graph s.rows ⟨loop.batchNodeId, 0⟩ edge source ∧ s.rows.get? source = some row ∧
      isLive row.summary edge = true := by
  obtain ⟨row, hrow, -, hfilled⟩ := hcontinues
  have hcompleted : row.status = .completed := by
    by_contra hne
    rw [StepRecord.summary, hi.outputs _ row hrow hne] at hfilled
    cases hfilled
  rcases hi.origin _ row hrow with ⟨htrigger, -⟩ | ⟨-, hjustified⟩
  · exact absurd (hx.batch_mem hl) (trigger_not_member hx htrigger hl)
  · obtain ⟨other, hother, row', ⟨source, hreads, hget, -⟩, hlive⟩ := hjustified.live (by rw [hcompleted]; decide)
    obtain ⟨ho, hto'⟩ := mem_incoming.1 hother
    have hf' : other.isBackEdge = false := by
      by_contra hback
      rw [Bool.not_eq_false] at hback
      obtain ⟨t, hrow', -⟩ := hreads
      rw [classifyEdge, hback, if_pos rfl] at hrow'
      cases hrow'
    have hrules := hx.loops loop hl
    cases forward_unique hx ho he hf' hf (hto'.trans hto.symm)
      ((hrules.slot_in other ho hto' hf').trans (hrules.slot_in edge he hto hf).symm)
    exact ⟨row', source, hreads, hget, hlive⟩

theorem ReadsBack.sourcesRan_execution (h : ReadsBack u.graph steps runData) (hx : Executable u.graph)
    (hi : RowInvariant u s.rows) (hrows : ∀ key, (rowsOf steps).get? key = s.rows.get? key) :
    SourcesRan u.graph steps runData (Delivered u.graph steps) := by
  intro step hs task htask slot source hsource ⟨edge, hedge, hslot, hdelivers⟩
  obtain ⟨first, previousNode, hfirst, hname, rfl⟩ := h.source_edge hs htask hsource
  obtain ⟨hfe, hfto, hff, hfslot⟩ := edgeInto_spec hfirst
  obtain ⟨he, hto⟩ := mem_incoming.1 hedge
  cases hback : edge.isBackEdge with
  | false =>
    cases forward_unique hx he hfe hback hff (hto.trans hfto.symm) (hslot.trans hfslot.symm)
    exact h.sourcesRan step hs task htask slot _ hsource ⟨edge, hfirst, hdelivers⟩
  | true =>
    -- A later pass of a batch node: its source is that of the first pass.
    obtain ⟨loop, hl, hbatch, -⟩ := hx.of_backEdge he hback
    have hnode : step.nodeId = loop.batchNodeId := hto.symm.trans hbatch
    obtain ⟨row, ⟨source, ⟨t, hrow, -⟩, -⟩, -⟩ := hdelivers
    have hpass : 0 < step.iteration := by
      by_contra hzero
      rw [classifyEdge, hback, if_pos rfl] at hrow
      simp only [sourceRow, Nat.eq_zero_of_not_pos hzero, if_true] at hrow
      cases hrow
    have hstep := isSome_rowsOf (mem_reported.1 hs).1
    rw [hrows, hnode] at hstep
    obtain ⟨row₀, source₀, ⟨t₀, hrow₀, -⟩, hget, hlive⟩ :=
      entry_delivered hx hi hl (hi.pass_before hx hl hstep hpass) hfe hff (hfto.trans hnode)
    rw [← hrows] at hget
    obtain ⟨other, ho, rfl, rfl⟩ := get?_rowsOf hget
    have hstatus : taskStatus other.status = some .success := taskStatus_of_live hlive
    refine h.hasRun hname (previousNodeRun_ran ho (by rw [hstatus]; rfl) (sourceRow_nodeId hrow₀) ?_)
    intro loop' hloop' hmem
    obtain ⟨hl', hfrom'⟩ := loopOf_mem hloop'
    rw [hfto, hnode] at hmem
    cases hx.loop_unique hl' hl hmem (hx.batch_mem hl)
    exact absurd hfrom' ((mem_entryEdges hl).1 (hx.entry_of_forward hl hfe hff (hfto.trans hnode))).2.2.2

end Executions

section Main

variable {graph : WorkflowGraph} {steps : List StepDetail}

/-- Run data that has been read back is well formed; in an execution, what a delivered input names has run. -/
theorem read_back (hkeys : (steps.map fun step => (step.nodeId, step.iteration)).Nodup)
    (hnames : ProperNames graph steps) :
    ∃ data, toV1RunExecutionData graph steps = .ok data ∧ ReadsBack graph steps data.runData ∧
      SourcesRan graph steps data.runData (DeliveredFirst graph steps) ∧
      ∀ (u : Setup) (s : State), u.graph = graph → validateExecutableGraph graph = .ok () → u.system.Reachable Any s →
        (∀ key, (rowsOf steps).get? key = s.rows.get? key) →
          SourcesRan graph steps data.runData (Delivered graph steps) := by
  obtain ⟨runData, hrun, hread⟩ := readsBack hkeys hnames
  refine ⟨_, by rw [toV1RunExecutionData, hrun]; rfl, hread, hread.sourcesRan, fun u s hu hvalid hs hrows => ?_⟩
  subst hu
  have hx := executable_of_valid hvalid
  exact ReadsBack.sourcesRan_execution hread hx (u.sound_of_reachable hx hs).rows hrows

theorem get?_nodeNamesById {id name : String} (h : (nodeNamesById graph).get? id = some name) :
    ∃ node ∈ graph.nodes, node.id = id ∧ node.name = name := by
  have hfold : ∀ (nodes : List GraphNode) (namesById : ObjectMap String String),
      (nodes.foldl (fun namesById node => namesById.set node.id node.name) namesById).get? id = some name →
        namesById.get? id = some name ∨ ∃ node ∈ nodes, node.id = id ∧ node.name = name := by
    intro nodes
    induction nodes with
    | nil => exact fun _ h => .inl h
    | cons node nodes ih =>
      intro namesById h
      rcases ih _ h with h | ⟨other, hmem, h⟩
      · rw [ObjectMap.get?_set] at h
        split at h
        · next hid => exact .inr ⟨node, List.mem_cons_self, hid.symm, Option.some.inj h⟩
        · exact .inl h
      · exact .inr ⟨other, List.mem_cons_of_mem _ hmem, h⟩
  exact (hfold graph.nodes .empty h).resolve_left (by simp)

theorem properNames (hdistinct : (graph.nodes.map (·.name)).Nodup)
    (hown : ∀ node ∈ graph.nodes, node.name ∉ inheritedNames) (steps : List StepDetail) :
    ProperNames graph steps where
  distinct step hs other ho hsame := by
    obtain ⟨name, hname⟩ := Option.isSome_iff_exists.1 (mem_reported.1 hs).2.2
    obtain ⟨node, hn, hid, hnode⟩ := get?_nodeNamesById hname
    obtain ⟨node', hn', hid', hnode'⟩ := get?_nodeNamesById (hsame ▸ hname)
    rw [← hid, ← hid', List.inj_on_of_nodup_map hdistinct hn hn' (hnode.trans hnode'.symm)]
  own step hs name hname := by
    obtain ⟨node, hn, -, rfl⟩ := get?_nodeNamesById hname
    exact hown node hn

end Main

section Listing

def listSteps (rows : Rows) : List StepDetail :=
  rows.entries.map fun e => ⟨toString e.1.iteration, e.1.nodeId, e.1.iteration, e.2.status, e.2.outputs, none, 0, 0⟩

theorem listSteps_keys (rows : Rows) : ((listSteps rows).map fun step => (step.nodeId, step.iteration)).Nodup := by
  have h : ((rows.entries.map Prod.fst).map fun key : StepKey => (key.nodeId, key.iteration)).Nodup := by
    refine rows.nodup.map fun key key' he => ?_
    cases key
    cases key'
    cases he
    rfl
  rw [List.map_map] at h
  rwa [listSteps, List.map_map]

theorem rowsOf_listSteps (rows : Rows) (key : StepKey) : (rowsOf (listSteps rows)).get? key = rows.get? key := by
  have hof : ∀ row, (rowsOf (listSteps rows)).get? key = some row → rows.get? key = some row := by
    intro row h
    obtain ⟨step, hmem, rfl, rfl⟩ := get?_rowsOf h
    obtain ⟨e, he, rfl⟩ := List.mem_map.1 hmem
    exact (rows.mem_entries).1 he
  cases hrow : rows.get? key with
  | some row =>
    have hsome := isSome_rowsOf (List.mem_map_of_mem (f := _) (rows.mem_entries.2 hrow) : _ ∈ listSteps rows)
    obtain ⟨row', h⟩ := Option.isSome_iff_exists.1 hsome
    exact h.trans ((hof row' h).symm.trans hrow)
  | none =>
    cases h : (rowsOf (listSteps rows)).get? key with
    | none => rfl
    | some row => exact nomatch (hof row h).symm.trans hrow

theorem loop_read_back : ∃ s data, loopSetup.system.Reachable Any s ∧
    toV1RunExecutionData loopGraph (listSteps s.rows) = .ok data ∧ ReadsBack loopGraph (listSteps s.rows) data.runData
      ∧
    SourcesRan loopGraph (listSteps s.rows) data.runData (Delivered loopGraph (listSteps s.rows)) := by
  obtain ⟨s, hs⟩ := Option.isSome_iff_exists.1 (show firstPass.isSome = true by decide +kernel)
  have hreachable : loopSetup.system.Reachable Any s := ⟨.start, rfl, (run_leads hs).mono fun _ _ _ => trivial⟩
  have hvalid : validateExecutableGraph loopGraph = .ok () := by decide +kernel
  have hnames : ProperNames loopGraph (listSteps s.rows) := properNames (by decide) (by decide) _
  obtain ⟨data, hdata, hread, -, hran⟩ := read_back (listSteps_keys s.rows) hnames
  exact ⟨s, data, hreachable, hdata, hread, hran loopSetup s rfl hvalid hreachable (rowsOf_listSteps s.rows)⟩

end Listing

section Merge

/-- Two branches into one slot: the first is skipped. -/
def mergeGraph : WorkflowGraph where
  nodes := [⟨"t", "Trigger", .trigger, none⟩, ⟨"a", "A", .v1Node, none⟩, ⟨"b", "B", .v1Node, none⟩,
    ⟨"m", "Merge", .v1Node, none⟩]
  edges := [⟨"t", "a", 0, 0, false⟩, ⟨"t", "b", 1, 0, false⟩, ⟨"a", "m", 0, 0, false⟩, ⟨"b", "m", 0, 0, false⟩]

def completed (nodeId : String) (outputs : StepSlots) : StepDetail :=
  ⟨nodeId, nodeId, 0, .completed, some outputs, none, 0, 0⟩

def mergeSteps : List StepDetail :=
  [completed "t" [.null, .arr [.obj []]], ⟨"a", "a", 0, .skipped, none, none, 0, 0⟩, completed "b" [.arr [.obj []]],
    completed "m" [.arr [.obj []]]]

theorem skipped_branch_named : ¬ ∀ graph steps,
    (steps.map fun step : StepDetail => (step.nodeId, step.iteration)).Nodup → ∃ data,
      toV1RunExecutionData graph steps = .ok data ∧ ReadsBack graph steps data.runData ∧
        SourcesRan graph steps data.runData (Delivered graph steps) := by
  intro h
  obtain ⟨data, hdata, hread, hran⟩ := h mergeGraph mergeSteps (by decide)
  obtain ⟨status, -, hentry⟩ := hread.entries 2 (completed "m" [.arr [.obj []]]) rfl
  have hdelivered : Delivered mergeGraph mergeSteps (completed "m" [.arr [.obj []]]) 0 := by
    refine ⟨⟨"b", "m", 0, 0, false⟩, by decide, rfl, ⟨.completed, some [.arr [.obj []]]⟩,
      ⟨⟨"b", 0⟩, ⟨none, ?_, by simp⟩, rfl, rfl⟩, rfl⟩
    decide +kernel
  have hsource : (toSources (toLineage mergeGraph mergeSteps) (completed "m" [.arr [.obj []]]))[0]? =
      some (some ⟨"A", some 0, none⟩) := by
    decide +kernel
  obtain ⟨tasks, htasks, -⟩ := hran (completed "m" [.arr [.obj []]]) (List.mem_of_getElem? (i := 2) rfl) _ hentry 0 _
    hsource hdelivered
  have habsent : ((toV1RunExecutionData mergeGraph mergeSteps).toOption.bind (·.runData.get? "A")).isNone = true := by
    decide +kernel
  rw [hdata] at habsent
  rw [show (Except.ok data : Except JsError V1ExecutionData).toOption.bind (·.runData.get? "A") =
    data.runData.get? "A" from rfl, htasks] at habsent
  cases habsent

end Merge

end N8n.EngineCompatibility
