import N8n.Engine.LoopShape

namespace N8n.Engine

open Lib

inductive StepStatus where
  | queued
  | running
  | completed
  | failed
  | skipped
  | cancelled
deriving DecidableEq

def isSettledStatus : StepStatus → Bool
  | .completed => true
  | .failed => true
  | .skipped => true
  | .cancelled => true
  | .queued => false
  | .running => false

/-- The contents of each slot; null marks a slot without data. -/
abbrev StepSlots := List Json

def isNull : Json → Bool
  | .null => true
  | _ => false

structure StepRecord where
  status : StepStatus
  outputs : Option StepSlots

structure StepSummary where
  status : StepStatus
  filledOutputSlots : List Bool
deriving DecidableEq

def StepRecord.summary (step : StepRecord) : StepSummary :=
  ⟨step.status, (step.outputs.getD []).map fun slot => !isNull slot⟩

inductive NewStepRecord where
  | queued
  | skipped
  | completed (outputs : StepSlots)

def NewStepRecord.record : NewStepRecord → StepRecord
  | .queued => ⟨.queued, none⟩
  | .skipped => ⟨.skipped, none⟩
  | .completed outputs => ⟨.completed, some outputs⟩

abbrev Rows := ObjectMap StepKey StepRecord

namespace Rows

def hasFailedSteps (rows : Rows) : Bool := rows.entries.any fun e => e.2.status = .failed

def countSettledSteps (rows : Rows) : Nat := rows.entries.countP fun e => isSettledStatus e.2.status

def insertNew : Rows → List (StepKey × NewStepRecord) → Rows × List StepKey
  | rows, [] => (rows, [])
  | rows, (key, new) :: records =>
    if rows.has key then insertNew rows records
    else
      let r := insertNew (rows.set key new.record) records
      (r.1, key :: r.2)

def createSteps (rows : Rows) (records : List (StepKey × NewStepRecord)) : Rows × List StepKey :=
  if rows.hasFailedSteps then (rows, []) else insertNew rows records

def transition (rows : Rows) (key : StepKey) (source : StepStatus) (target : StepRecord) : Option Rows :=
  match rows.get? key with
  | some step => if step.status = source then some (rows.set key target) else none
  | none => none

/-- Nothing is claimed once a step has failed. -/
def claimStep (rows : Rows) (key : StepKey) : Option Rows :=
  if rows.hasFailedSteps then none else rows.transition key .queued ⟨.running, none⟩

def completeStep (rows : Rows) (key : StepKey) (outputs : StepSlots) : Option Rows :=
  rows.transition key .running ⟨.completed, some outputs⟩

def failStep (rows : Rows) (key : StepKey) : Option Rows := rows.transition key .running ⟨.failed, none⟩

def cancelQueuedSteps (rows : Rows) : Rows :=
  rows.mapValues fun step => if step.status = .queued then { step with status := .cancelled } else step

def loadStepsByKeys (rows : Rows) (keys : List StepKey) (key : StepKey) : Option StepRecord :=
  if key ∈ keys then rows.get? key else none

def loadStepSummariesByKeys (rows : Rows) (keys : List StepKey) (key : StepKey) : Option StepSummary :=
  if key ∈ keys then (rows.get? key).map StepRecord.summary else none

def laterPass (best : Option (Nat × StepRecord)) (e : StepKey × StepRecord) : Option (Nat × StepRecord) :=
  match best with
  | some b => if b.1 < e.1.iteration then some (e.1.iteration, e.2) else best
  | none => some (e.1.iteration, e.2)

def latestStep (rows : Rows) (nodeId : String) : Option (Nat × StepRecord) :=
  (rows.entries.filter (·.1.nodeId = nodeId)).foldl laterPass none

end Rows

def StepRecord.Advances (step step' : StepRecord) : Prop := isSettledStatus step.status = true → step' = step

/-- Rows only become more, and settled rows stay as they are. -/
def Rows.Grows (rows rows' : Rows) : Prop :=
  ∀ key step, rows.get? key = some step → ∃ step', rows'.get? key = some step' ∧ step.Advances step'

section Operations

variable {rows rows' rows'' : Rows} {key key' : StepKey} {step step' : StepRecord}

theorem Rows.Grows.refl (rows : Rows) : rows.Grows rows := fun _ step h => ⟨step, h, fun _ => rfl⟩

theorem Rows.Grows.trans (h : rows.Grows rows') (h' : rows'.Grows rows'') : rows.Grows rows'' := by
  intro key step hk
  obtain ⟨step', hk', ha⟩ := h key step hk
  obtain ⟨step'', hk'', ha'⟩ := h' key step' hk'
  refine ⟨step'', hk'', fun hs => ?_⟩
  cases ha hs
  exact ha' hs

theorem Rows.Grows.settled (h : rows.Grows rows') (hk : rows.get? key = some step)
    (hs : isSettledStatus step.status = true) : rows'.get? key = some step := by
  obtain ⟨step', hk', ha⟩ := h key step hk
  rw [hk', ha hs]

theorem Rows.Grows.isSome (h : rows.Grows rows') (hk : (rows.get? key).isSome = true) : (rows'.get? key).isSome = true := by
  obtain ⟨step, hk⟩ := Option.isSome_iff_exists.1 hk
  obtain ⟨step', hk', -⟩ := h key step hk
  exact Option.isSome_iff_exists.2 ⟨step', hk'⟩

theorem hasFailed_iff : rows.hasFailedSteps = true ↔ ∃ key step, rows.get? key = some step ∧ step.status = .failed := by
  rw [Rows.hasFailedSteps, List.any_eq_true]
  constructor
  · rintro ⟨⟨key, step⟩, hm, hs⟩
    exact ⟨key, step, (ObjectMap.mem_entries _).1 hm, of_decide_eq_true hs⟩
  · rintro ⟨key, step, hk, hs⟩
    exact ⟨(key, step), (ObjectMap.mem_entries _).2 hk, decide_eq_true hs⟩

theorem insertNew_spec (rows : Rows) (records : List (StepKey × NewStepRecord)) :
    (∀ key, (rows.get? key).isSome = true → (rows.insertNew records).1.get? key = rows.get? key) ∧
      (∀ key, key ∈ (rows.insertNew records).2 ↔ rows.get? key = none ∧ key ∈ records.map (·.1)) ∧
      (∀ key, key ∈ (rows.insertNew records).2 →
        ∃ new, (key, new) ∈ records ∧ (rows.insertNew records).1.get? key = some new.record) ∧
      (∀ key, rows.get? key = none → key ∉ records.map (·.1) → (rows.insertNew records).1.get? key = none) ∧
      (rows.insertNew records).2.Nodup := by
  induction records generalizing rows with
  | nil => exact ⟨fun _ _ => rfl, fun key => ⟨(fun h => nomatch h), fun h => nomatch h.2⟩, (fun _ h => nomatch h),
    fun _ h _ => h, .nil⟩
  | cons record records ih =>
    obtain ⟨k, new⟩ := record
    rw [Rows.insertNew]
    split
    · next hhas =>
      obtain ⟨hold, hmem, hnew, hnone, hnodup⟩ := ih rows
      refine ⟨hold, fun key => ?_, fun key hk => ?_, fun key hk hn => ?_, hnodup⟩
      · rw [hmem, List.map_cons, List.mem_cons]
        refine and_congr_right fun hk => ⟨.inr, fun h => h.resolve_left fun he => ?_⟩
        rw [he] at hk
        rw [ObjectMap.has, hk] at hhas
        cases hhas
      · obtain ⟨n, hn, hg⟩ := hnew key hk
        exact ⟨n, List.mem_cons_of_mem _ hn, hg⟩
      · exact hnone key hk fun h => hn (List.mem_cons_of_mem _ h)
    · next hhas =>
      have hfree : rows.get? k = none := by
        rw [ObjectMap.has, Bool.not_eq_true, Option.isSome_eq_false_iff, Option.isNone_iff_eq_none] at hhas
        exact hhas
      obtain ⟨hold, hmem, hnew, hnone, hnodup⟩ := ih (rows.set k new.record)
      refine ⟨fun key hk => ?_, fun key => ?_, fun key hk => ?_, fun key hk hn => ?_, ?_⟩
      · have hne : key ≠ k := by
          rintro rfl
          rw [hfree] at hk
          cases hk
        rw [hold key (by rwa [ObjectMap.get?_set_ne _ hne]), ObjectMap.get?_set_ne _ hne]
      · rw [List.mem_cons, hmem, List.map_cons, List.mem_cons, ObjectMap.get?_set]
        by_cases he : key = k
        · simp [he, hfree]
        · simp [he]
      · rcases List.mem_cons.1 hk with rfl | hk
        · exact ⟨new, List.mem_cons_self, by rw [hold key (by rw [ObjectMap.get?_set_self]; rfl), ObjectMap.get?_set_self]⟩
        · obtain ⟨n, hn, hg⟩ := hnew key hk
          exact ⟨n, List.mem_cons_of_mem _ hn, hg⟩
      · have hne : key ≠ k := fun he => hn (he ▸ List.mem_cons_self)
        exact hnone key (by rwa [ObjectMap.get?_set_ne _ hne]) fun h => hn (List.mem_cons_of_mem _ h)
      · rw [List.nodup_cons]
        refine ⟨fun h => ?_, hnodup⟩
        have hn := ((hmem k).1 h).1
        rw [ObjectMap.get?_set_self] at hn
        cases hn

theorem insertNew_grows (rows : Rows) (records : List (StepKey × NewStepRecord)) :
    rows.Grows (rows.insertNew records).1 := by
  intro key step hk
  have hold := (insertNew_spec rows records).1 key (Option.isSome_iff_exists.2 ⟨step, hk⟩)
  exact ⟨step, hold.trans hk, fun _ => rfl⟩

theorem createSteps_grows (rows : Rows) (records : List (StepKey × NewStepRecord)) :
    rows.Grows (rows.createSteps records).1 := by
  rw [Rows.createSteps]
  split
  · exact .refl rows
  · exact insertNew_grows rows records

theorem transition_eq {source : StepStatus} {target : StepRecord} (h : rows.transition key source target = some rows') :
    ∃ step, rows.get? key = some step ∧ step.status = source ∧ rows' = rows.set key target := by
  rw [Rows.transition] at h
  split at h
  · next step hk =>
    split at h
    · next hs => exact ⟨step, hk, hs, (Option.some.inj h).symm⟩
    · cases h
  · cases h

theorem transition_grows {source : StepStatus} {target : StepRecord} (hsource : isSettledStatus source = false)
    (h : rows.transition key source target = some rows') : rows.Grows rows' := by
  obtain ⟨step, hk, hs, rfl⟩ := transition_eq h
  intro k r hr
  rw [ObjectMap.get?_set]
  split
  · next he =>
    rw [he, hk] at hr
    cases hr
    refine ⟨target, rfl, fun hsettled => ?_⟩
    rw [hs, hsource] at hsettled
    cases hsettled
  · exact ⟨r, hr, fun _ => rfl⟩

theorem get?_cancelQueuedSteps (rows : Rows) (key : StepKey) :
    rows.cancelQueuedSteps.get? key =
      (rows.get? key).map fun step => if step.status = .queued then { step with status := .cancelled } else step :=
  ObjectMap.get?_mapValues _ _ _

theorem cancelQueuedSteps_grows (rows : Rows) : rows.Grows rows.cancelQueuedSteps := by
  intro key step hk
  rw [get?_cancelQueuedSteps, hk]
  refine ⟨_, rfl, fun hs => if_neg fun hq => ?_⟩
  rw [hq] at hs
  cases hs

theorem laterPass_fold (es : List (StepKey × StepRecord)) (best : Option (Nat × StepRecord)) :
    ((es.foldl Rows.laterPass best = none) ↔ es = [] ∧ best = none) ∧
      ∀ pass, es.foldl Rows.laterPass best = some pass →
        (best = some pass ∨ ∃ e ∈ es, pass = (e.1.iteration, e.2)) ∧
          (∀ b, best = some b → b.1 ≤ pass.1) ∧ ∀ e ∈ es, e.1.iteration ≤ pass.1 := by
  induction es generalizing best with
  | nil =>
    refine ⟨by simp, fun pass h => ⟨.inl h, fun b hb => ?_, fun _ h => nomatch h⟩⟩
    cases h.symm.trans hb
    exact Nat.le_refl _
  | cons e es ih =>
    obtain ⟨hnone, hsome⟩ := ih (Rows.laterPass best e)
    have hstep : ∃ b, Rows.laterPass best e = some b ∧ (best = some b ∨ b = (e.1.iteration, e.2)) ∧
        (∀ b', best = some b' → b'.1 ≤ b.1) ∧ e.1.iteration ≤ b.1 := by
      rw [Rows.laterPass.eq_def]
      cases best with
      | none => exact ⟨_, rfl, .inr rfl, (fun _ h => nomatch h), Nat.le_refl _⟩
      | some b =>
        dsimp only
        split
        · next hlt => exact ⟨_, rfl, .inr rfl, fun b' hb' => by cases hb'; exact hlt.le, Nat.le_refl _⟩
        · next hge => exact ⟨b, rfl, .inl rfl, fun b' hb' => by cases hb'; exact Nat.le_refl _, Nat.not_lt.1 hge⟩
    obtain ⟨b, hb, horigin, hbest, hle⟩ := hstep
    rw [List.foldl_cons]
    refine ⟨?_, fun pass h => ?_⟩
    · rw [hnone, hb]
      simp
    · obtain ⟨hfrom, hold, hall⟩ := hsome pass h
      have hb' := hold b hb
      refine ⟨?_, fun b' hb'' => (hbest b' hb'').trans hb', fun e' he' => ?_⟩
      · rcases hfrom with hfrom | ⟨e', he', hp⟩
        · cases hb.symm.trans hfrom
          exact horigin.imp id fun h => ⟨e, List.mem_cons_self, h⟩
        · exact .inr ⟨e', List.mem_cons_of_mem _ he', hp⟩
      · rcases List.mem_cons.1 he' with rfl | he'
        · exact hle.trans hb'
        · exact hall e' he'

theorem latestStep_spec {nodeId : String} :
    (rows.latestStep nodeId = none → ∀ i, rows.get? ⟨nodeId, i⟩ = none) ∧
      ∀ pass, rows.latestStep nodeId = some pass → rows.get? ⟨nodeId, pass.1⟩ = some pass.2 ∧
        ∀ i, (rows.get? ⟨nodeId, i⟩).isSome = true → i ≤ pass.1 := by
  have hmem : ∀ i r, rows.get? ⟨nodeId, i⟩ = some r →
      (⟨nodeId, i⟩, r) ∈ rows.entries.filter (·.1.nodeId = nodeId) := fun i r h =>
    List.mem_filter.2 ⟨(ObjectMap.mem_entries _).2 h, decide_eq_true rfl⟩
  obtain ⟨hnone, hsome⟩ := laterPass_fold (rows.entries.filter (·.1.nodeId = nodeId)) none
  refine ⟨fun h i => ?_, fun pass h => ?_⟩
  · by_contra hne
    obtain ⟨r, hr⟩ := Option.ne_none_iff_exists'.1 hne
    have hm := hmem i r hr
    rw [(hnone.1 h).1] at hm
    exact nomatch hm
  · obtain ⟨hfrom, -, hall⟩ := hsome pass h
    obtain ⟨⟨k, r⟩, he, rfl⟩ := hfrom.resolve_left fun h => nomatch h
    obtain ⟨he, hnode⟩ := List.mem_filter.1 he
    refine ⟨?_, fun i hi => ?_⟩
    · rw [← of_decide_eq_true hnode]
      exact (ObjectMap.mem_entries _).1 he
    · obtain ⟨r', hr'⟩ := Option.isSome_iff_exists.1 hi
      exact hall _ (hmem i r' hr')

end Operations

def loopSlot : Nat := 1

def slotFilled (slots : List Bool) (i : Nat) : Bool := slots[i]?.getD false

def isTerminalStep (step : StepSummary) : Bool := isSettledStatus step.status && !slotFilled step.filledOutputSlots loopSlot

/-- The loops whose last pass the edges into the targets read. -/
def exitSourcesInto (graph : WorkflowGraph) (loops : List WorkflowLoop) (targetNodeIds : List String) : List String :=
  (OrderedSet.ofList ((graph.edges.filter fun e => e.toId ∈ targetNodeIds ∧ classifyEdge e loops = .exit).map
    (·.fromId))).items

/-- The last pass of each loop asked about, without the loops that have not ended. -/
def loadTerminalIterations (rows : Rows) (batchNodeIds : List String) (batchNodeId : String) : Option Nat :=
  if batchNodeId ∈ batchNodeIds then
    (rows.latestStep batchNodeId).bind fun pass => if isTerminalStep pass.2.summary then some pass.1 else none
  else none

inductive Fate where
  | queued
  | skipped
  | undecidable
  | outside
deriving DecidableEq

structure SuccessorDecisions where
  toQueue : List StepKey
  toSkip : List StepKey
deriving DecidableEq

def SuccessorDecisions.add (decisions : SuccessorDecisions) (target : StepKey) : Fate → SuccessorDecisions
  | .queued => ⟨target :: decisions.toQueue, decisions.toSkip⟩
  | .skipped => ⟨decisions.toQueue, target :: decisions.toSkip⟩
  | .undecidable => decisions
  | .outside => decisions

def isLive (source : StepSummary) (edge : GraphEdge) : Bool :=
  source.status = .completed && slotFilled source.filledOutputSlots edge.outputIndex

def batchStepDecides (edgeClass : EdgeClass) (batchStep : StepSummary) : Bool :=
  if isTerminalStep batchStep then edgeClass = .exit else edgeClass ≠ .exit

section Decisions

variable (graph : WorkflowGraph) (loops : List WorkflowLoop)

def isPastLoopEnd (candidate : StepKey) (steps : StepKey → Option StepSummary) : Bool :=
  match loopOf loops candidate.nodeId with
  | none => false
  | some loop =>
    if candidate.nodeId = loop.batchNodeId then false
    else (steps ⟨loop.batchNodeId, candidate.iteration⟩).any isTerminalStep

def weighEdges (candidate : StepKey) (steps : StepKey → Option StepSummary) (terminalIterations : String → Option Nat) :
    List GraphEdge → Nat → Bool → Fate
  | [], applicable, live => if applicable = 0 then .outside else if live then .queued else .skipped
  | edge :: edges, applicable, live =>
    match sourceRow edge (classifyEdge edge loops) candidate (terminalIterations edge.fromId) with
    | .none => weighEdges candidate steps terminalIterations edges applicable live
    | .pending => .undecidable
    | .row key =>
      match steps key with
      | none => .undecidable
      | some step =>
        if isSettledStatus step.status then
          weighEdges candidate steps terminalIterations edges (applicable + 1) (live || isLive step edge)
        else .undecidable

def decideNodeFate (candidate : StepKey) (steps : StepKey → Option StepSummary)
    (terminalIterations : String → Option Nat) : Fate :=
  if isPastLoopEnd loops candidate steps then .outside
  else weighEdges loops candidate steps terminalIterations (graph.incoming candidate.nodeId) 0 false

def decideTargets (settled : StepKey) (batchStep : Option StepSummary) (steps : StepKey → Option StepSummary)
    (terminalIterations : String → Option Nat) : List GraphEdge → List StepKey → SuccessorDecisions
  | [], _ => ⟨[], []⟩
  | edge :: edges, decided =>
    let edgeClass := classifyEdge edge loops
    let target := targetKey edge edgeClass settled
    if batchStep.any (fun batchStep => !batchStepDecides edgeClass batchStep) || (steps target).isSome ||
        target ∈ decided then
      decideTargets settled batchStep steps terminalIterations edges decided
    else
      let rest := decideTargets settled batchStep steps terminalIterations edges (target :: decided)
      rest.add target (decideNodeFate graph loops target steps terminalIterations)

def decideSuccessors (settled : StepKey) (steps : StepKey → Option StepSummary)
    (terminalIterations : String → Option Nat) : SuccessorDecisions :=
  let batchStep := if settled.nodeId ∈ loops.map (·.batchNodeId) then steps settled else none
  decideTargets graph loops settled batchStep steps terminalIterations (graph.outgoing settled.nodeId) []

def targetKeys (terminalIterations : String → Option Nat) (target : StepKey) : List StepKey :=
  let sources := (graph.incoming target.nodeId).filterMap fun edge =>
    match sourceRow edge (classifyEdge edge loops) target (terminalIterations edge.fromId) with
    | .row key => some key
    | .none => none
    | .pending => none
  target :: sources ++
    match loopOf loops target.nodeId with
    | some loop => [⟨loop.batchNodeId, target.iteration⟩]
    | none => []

/-- The steps that `decideSuccessors` reads. -/
def decisionKeys (settled : StepKey) (terminalIterations : String → Option Nat) : List StepKey :=
  (OrderedSet.ofList (settled :: (graph.outgoing settled.nodeId).flatMap fun edge =>
    targetKeys graph loops terminalIterations (targetKey edge (classifyEdge edge loops) settled))).items

end Decisions

/-- How many settled steps a finished execution owes, unless a loop the trigger reaches is still running. -/
def countLoops (terminalIterations : String → Option Nat) : List WorkflowLoop → Option Nat
  | [] => some 0
  | loop :: loops =>
    match terminalIterations loop.batchNodeId with
    | none => none
    | some terminal =>
      (countLoops terminalIterations loops).map fun n => terminal + 1 + terminal * (loop.memberIds.size - 1) + n

def countExpectedSettledSteps (loops : List WorkflowLoop) (reachable : OrderedSet String)
    (terminalIterations : String → Option Nat) : Option Nat :=
  let entered := loops.filter fun loop => loop.batchNodeId ∈ reachable
  (countLoops terminalIterations entered).map fun expected =>
    expected + (reachable.items.filter fun nodeId => ∀ loop ∈ entered, nodeId ∉ loop.memberIds).length

end N8n.Engine
