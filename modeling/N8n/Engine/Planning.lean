import N8n.Engine.Handlers

namespace N8n.Engine

open Lib

section Reads

variable (graph : WorkflowGraph) (rows : Rows) (key : StepKey) (edge : GraphEdge)

def Terminal (batchNodeId : String) (iteration : Nat) : Prop :=
  ∃ step, rows.get? ⟨batchNodeId, iteration⟩ = some step ∧ isTerminalStep step.summary = true

def Continues (batchNodeId : String) (iteration : Nat) : Prop :=
  ∃ step, rows.get? ⟨batchNodeId, iteration⟩ = some step ∧ isSettledStatus step.status = true ∧
    slotFilled step.summary.filledOutputSlots loopSlot = true

def Applies : Prop := sourceRow edge (classifyEdge edge (deriveLoops graph)) key none ≠ .none

/-- The row that the edge reads for the step, over the last pass of a loop that has ended. -/
def ReadsRow (source : StepKey) : Prop :=
  ∃ terminalIteration, sourceRow edge (classifyEdge edge (deriveLoops graph)) key terminalIteration = .row source ∧
    ∀ t, terminalIteration = some t → classifyEdge edge (deriveLoops graph) = .exit → Terminal rows edge.fromId t

def Settles (step : StepRecord) : Prop :=
  ∃ source, ReadsRow graph rows key edge source ∧ rows.get? source = some step ∧ isSettledStatus step.status = true

structure Ready : Prop where
  reached : ∃ edge ∈ graph.incoming key.nodeId, Applies graph key edge
  settled : ∀ edge ∈ graph.incoming key.nodeId, Applies graph key edge → ∃ step, Settles graph rows key edge step

structure Justified (runs : Bool) : Prop extends Ready graph rows key where
  live : runs = true → ∃ edge ∈ graph.incoming key.nodeId, ∃ step, Settles graph rows key edge step ∧
    isLive step.summary edge = true
  dead : runs = false → ∀ edge ∈ graph.incoming key.nodeId, Applies graph key edge → ∃ step,
    Settles graph rows key edge step ∧ isLive step.summary edge = false

structure Placed : Prop where
  plain : loopOf (deriveLoops graph) key.nodeId = none → key.iteration = 0
  body : ∀ loop ∈ deriveLoops graph, key.nodeId ∈ loop.memberIds → key.nodeId ≠ loop.batchNodeId →
    Continues rows loop.batchNodeId key.iteration
  head : ∀ loop ∈ deriveLoops graph, key.nodeId = loop.batchNodeId → ∀ i, key.iteration = i + 1 →
    Continues rows loop.batchNodeId i

end Reads

def Setup.triggerRow (u : Setup) : StepRecord := ⟨.completed, some (u.triggerOutputs.getD [])⟩

def Setup.IsTrigger (u : Setup) (key : StepKey) : Prop :=
  ∃ trigger, findTriggerNode u.graph = some trigger ∧ key = ⟨trigger.id, 0⟩

structure RowInvariant (u : Setup) (rows : Rows) : Prop where
  origin : ∀ key step, rows.get? key = some step → u.IsTrigger key ∧ step = u.triggerRow ∨
    Placed u.graph rows key ∧ Justified u.graph rows key (step.status ≠ .skipped)
  outputs : ∀ key step, rows.get? key = some step → step.status ≠ .completed → step.outputs = none
  started : ∀ key step, rows.get? key = some step → ∀ trigger, findTriggerNode u.graph = some trigger →
    (rows.get? ⟨trigger.id, 0⟩).isSome = true ∧ u.graph.Leads trigger.id key.nodeId

section Stability

variable {graph : WorkflowGraph} {rows rows' : Rows} {key source : StepKey} {edge : GraphEdge} {step : StepRecord}
  {batchNodeId : String} {i t : Nat} {runs : Bool}

theorem Terminal.grows (h : Terminal rows batchNodeId t) (hg : rows.Grows rows') : Terminal rows' batchNodeId t := by
  obtain ⟨step, hk, ht⟩ := h
  rw [isTerminalStep, Bool.and_eq_true] at ht
  exact ⟨step, hg.settled hk ht.1, by rw [isTerminalStep, Bool.and_eq_true]; exact ht⟩

theorem Continues.grows (h : Continues rows batchNodeId i) (hg : rows.Grows rows') : Continues rows' batchNodeId i := by
  obtain ⟨step, hk, hs, hf⟩ := h
  exact ⟨step, hg.settled hk hs, hs, hf⟩

theorem ReadsRow.grows (h : ReadsRow graph rows key edge source) (hg : rows.Grows rows') :
    ReadsRow graph rows' key edge source := by
  obtain ⟨terminalIteration, hs, ht⟩ := h
  exact ⟨terminalIteration, hs, fun t he hexit => (ht t he hexit).grows hg⟩

theorem Settles.grows (h : Settles graph rows key edge step) (hg : rows.Grows rows') :
    Settles graph rows' key edge step := by
  obtain ⟨source, hr, hk, hs⟩ := h
  exact ⟨source, hr.grows hg, hg.settled hk hs, hs⟩

theorem Ready.grows (h : Ready graph rows key) (hg : rows.Grows rows') : Ready graph rows' key where
  reached := h.reached
  settled edge he ha := by
    obtain ⟨step, hs⟩ := h.settled edge he ha
    exact ⟨step, hs.grows hg⟩

theorem Justified.grows (h : Justified graph rows key runs) (hg : rows.Grows rows') : Justified graph rows' key runs where
  toReady := h.toReady.grows hg
  live hl := by
    obtain ⟨edge, he, step, hs, hlive⟩ := h.live hl
    exact ⟨edge, he, step, hs.grows hg, hlive⟩
  dead hl edge he ha := by
    obtain ⟨step, hs, hdead⟩ := h.dead hl edge he ha
    exact ⟨step, hs.grows hg, hdead⟩

theorem Placed.grows (h : Placed graph rows key) (hg : rows.Grows rows') : Placed graph rows' key where
  plain := h.plain
  body loop hl hm hne := (h.body loop hl hm hne).grows hg
  head loop hl he i hi := (h.head loop hl he i hi).grows hg

theorem Terminal.not_continues (h : Terminal rows batchNodeId i) : ¬ Continues rows batchNodeId i := by
  rintro ⟨step, hk, -, hf⟩
  obtain ⟨step', hk', ht⟩ := h
  cases hk.symm.trans hk'
  rw [isTerminalStep, hf] at ht
  simp at ht

end Stability

section Passes

variable {u : Setup} {rows : Rows} {loop : WorkflowLoop} {batchNodeId : String} {i j t : Nat}

theorem trigger_not_member (hx : Executable u.graph) {key : StepKey} (hk : u.IsTrigger key)
    (hl : loop ∈ deriveLoops u.graph) : key.nodeId ∉ loop.memberIds := by
  obtain ⟨trigger, ht, rfl⟩ := hk
  exact fun hm => (hx.loops loop hl).no_trigger _ hm (trigger_type ht)

theorem RowInvariant.pass_before (hi : RowInvariant u rows) (hx : Executable u.graph) (hl : loop ∈ deriveLoops u.graph)
    (hj : (rows.get? ⟨loop.batchNodeId, j⟩).isSome = true) (hij : i < j) : Continues rows loop.batchNodeId i := by
  induction j with
  | zero => exact absurd hij (Nat.not_lt_zero i)
  | succ j ih =>
    obtain ⟨step, hstep⟩ := Option.isSome_iff_exists.1 hj
    have hlast : Continues rows loop.batchNodeId j := by
      rcases hi.origin _ step hstep with ⟨htrigger, -⟩ | ⟨hplaced, -⟩
      · exact absurd (hx.batch_mem hl) (trigger_not_member hx htrigger hl)
      · exact hplaced.head loop hl rfl j rfl
    rcases Nat.lt_or_eq_of_le (Nat.le_of_lt_succ hij) with hlt | rfl
    · obtain ⟨step', hstep', -⟩ := hlast
      exact ih (Option.isSome_iff_exists.2 ⟨step', hstep'⟩) hlt
    · exact hlast

theorem RowInvariant.le_terminal (hi : RowInvariant u rows) (hx : Executable u.graph) (hl : loop ∈ deriveLoops u.graph)
    (ht : Terminal rows loop.batchNodeId t) (hj : (rows.get? ⟨loop.batchNodeId, j⟩).isSome = true) : j ≤ t := by
  by_contra hlt
  exact ht.not_continues (hi.pass_before hx hl hj (Nat.lt_of_not_le hlt))

theorem RowInvariant.terminal_unique (hi : RowInvariant u rows) (hx : Executable u.graph)
    (hl : loop ∈ deriveLoops u.graph) (ht : Terminal rows loop.batchNodeId t) (hj : Terminal rows loop.batchNodeId j) :
    j = t := by
  have hsome : ∀ i, Terminal rows loop.batchNodeId i → (rows.get? ⟨loop.batchNodeId, i⟩).isSome = true := by
    rintro i ⟨step, hk, -⟩
    exact Option.isSome_iff_exists.2 ⟨step, hk⟩
  exact Nat.le_antisymm (hi.le_terminal hx hl ht (hsome j hj)) (hi.le_terminal hx hl hj (hsome t ht))

theorem RowInvariant.loadTerminal_iff (hi : RowInvariant u rows) (hx : Executable u.graph)
    (hl : loop ∈ deriveLoops u.graph) {ids : List String} :
    loadTerminalIterations rows ids loop.batchNodeId = some t ↔
      loop.batchNodeId ∈ ids ∧ Terminal rows loop.batchNodeId t := by
  rw [loadTerminalIterations]
  obtain ⟨hnone, hsome⟩ := @latestStep_spec rows loop.batchNodeId
  split
  · next hmem =>
    rw [and_iff_right hmem, Option.bind_eq_some_iff]
    constructor
    · rintro ⟨pass, hp, he⟩
      split at he
      · next hterminal =>
        cases he
        exact ⟨pass.2, (hsome pass hp).1, hterminal⟩
      · cases he
    · rintro ⟨step, hk, hterminal⟩
      cases hp : rows.latestStep loop.batchNodeId with
      | none => exact nomatch (hnone hp t).symm.trans hk
      | some pass =>
        obtain ⟨hpass, hlast⟩ := hsome pass hp
        have hle := hlast t (Option.isSome_iff_exists.2 ⟨step, hk⟩)
        have hge := hi.le_terminal hx hl ⟨step, hk, hterminal⟩ (Option.isSome_iff_exists.2 ⟨pass.2, hpass⟩)
        cases Nat.le_antisymm hle hge
        cases hk.symm.trans hpass
        exact ⟨pass, rfl, by rw [if_pos hterminal]⟩
  · next hmem => exact ⟨(fun h => nomatch h), fun h => absurd h.1 hmem⟩

end Passes

def Fate.of (runs : Bool) : Fate := if runs then .queued else .skipped

def SuccessorDecisions.of (decisions : SuccessorDecisions) (runs : Bool) : List StepKey :=
  if runs then decisions.toQueue else decisions.toSkip

theorem mem_add {decisions : SuccessorDecisions} {target key : StepKey} {fate : Fate} {runs : Bool} :
    key ∈ (decisions.add target fate).of runs ↔ (fate = .of runs ∧ key = target) ∨ key ∈ decisions.of runs := by
  cases fate <;> cases runs <;> simp [SuccessorDecisions.add, SuccessorDecisions.of, Fate.of]

section Weigh

variable {loops : List WorkflowLoop} {candidate : StepKey} {steps : StepKey → Option StepSummary}
  {terminalIterations : String → Option Nat} {edge : GraphEdge} {edges : List GraphEdge}

def candidateRow (loops : List WorkflowLoop) (candidate : StepKey) (terminalIterations : String → Option Nat)
    (edge : GraphEdge) : SourceRow :=
  sourceRow edge (classifyEdge edge loops) candidate (terminalIterations edge.fromId)

def Weighs (loops : List WorkflowLoop) (candidate : StepKey) (steps : StepKey → Option StepSummary)
    (terminalIterations : String → Option Nat) (edge : GraphEdge) : Prop :=
  candidateRow loops candidate terminalIterations edge ≠ .pending ∧
    ∀ key, candidateRow loops candidate terminalIterations edge = .row key →
      ∃ step, steps key = some step ∧ isSettledStatus step.status = true

def LiveInto (loops : List WorkflowLoop) (candidate : StepKey) (steps : StepKey → Option StepSummary)
    (terminalIterations : String → Option Nat) (edge : GraphEdge) : Prop :=
  ∃ key step, candidateRow loops candidate terminalIterations edge = .row key ∧ steps key = some step ∧
    isLive step edge = true

theorem weighEdges_iff {applicable : Nat} {live runs : Bool} :
    weighEdges loops candidate steps terminalIterations edges applicable live = .of runs ↔
      (∀ edge ∈ edges, Weighs loops candidate steps terminalIterations edge) ∧
        (applicable ≠ 0 ∨ ∃ edge ∈ edges, candidateRow loops candidate terminalIterations edge ≠ .none) ∧
        ((live = true ∨ ∃ edge ∈ edges, LiveInto loops candidate steps terminalIterations edge) ↔ runs = true) := by
  induction edges generalizing applicable live with
  | nil =>
    have hnone : ∀ p : GraphEdge → Prop, ¬ ∃ edge ∈ ([] : List GraphEdge), p edge := fun _ ⟨_, he, _⟩ => nomatch he
    rw [weighEdges, or_iff_left (hnone _), or_iff_left (hnone _), and_iff_right (fun _ he => nomatch he)]
    by_cases ha : applicable = 0
    · cases runs <;> simp [ha, Fate.of]
    · cases runs <;> cases live <;> simp [ha, Fate.of]
  | cons edge edges ih =>
    rw [weighEdges, List.forall_mem_cons, List.exists_mem_cons_iff, List.exists_mem_cons_iff]
    have hrow : candidateRow loops candidate terminalIterations edge =
      sourceRow edge (classifyEdge edge loops) candidate (terminalIterations edge.fromId) := rfl
    have hundecided : ¬ Weighs loops candidate steps terminalIterations edge → ∀ p q : Prop,
        (Fate.undecidable = .of runs ↔ (Weighs loops candidate steps terminalIterations edge ∧ p) ∧ q) := by
      intro hw p q
      refine ⟨fun h => ?_, fun h => absurd h.1.1 hw⟩
      cases runs <;> cases h
    split
    · next hs =>
      rw [hs] at hrow
      have hw : Weighs loops candidate steps terminalIterations edge := by
        simp [Weighs, hrow]
      have hl : ¬ LiveInto loops candidate steps terminalIterations edge := by
        simp [LiveInto, hrow]
      rw [ih, and_iff_right hw, or_iff_right hl, or_iff_right (not_not.2 hrow)]
    · next hs =>
      rw [hs] at hrow
      exact hundecided (fun h => h.1 hrow) _ _
    · next key hs =>
      rw [hs] at hrow
      split
      · next hk =>
        refine hundecided (fun h => ?_) _ _
        obtain ⟨step, hstep, -⟩ := h.2 key hrow
        exact nomatch hk.symm.trans hstep
      · next step hk =>
        split
        · next hsettled =>
          have hw : Weighs loops candidate steps terminalIterations edge := by
            refine ⟨by rw [hrow]; exact SourceRow.noConfusion, fun key' hkey' => ?_⟩
            cases hrow.symm.trans hkey'
            exact ⟨step, hk, hsettled⟩
          have hl : LiveInto loops candidate steps terminalIterations edge ↔ isLive step edge = true := by
            simp [LiveInto, hrow, hk]
          have hr : candidateRow loops candidate terminalIterations edge ≠ .none := by
            rw [hrow]
            exact SourceRow.noConfusion
          rw [ih, and_iff_right hw, hl, Bool.or_eq_true, or_assoc]
          simp only [ne_eq, Nat.succ_ne_zero, not_false_eq_true, true_or, true_and, hr, or_true]
        · next hunsettled =>
          refine hundecided (fun h => ?_) _ _
          obtain ⟨step', hstep', hs'⟩ := h.2 key hrow
          cases hk.symm.trans hstep'
          exact hunsettled hs'

variable {graph : WorkflowGraph} {settled key : StepKey} {batchStep : Option StepSummary} {decided : List StepKey}

theorem mem_decideTargets {runs : Bool} :
    key ∈ (decideTargets graph loops settled batchStep steps terminalIterations edges decided).of runs ↔
      key ∉ decided ∧ steps key = none ∧ decideNodeFate graph loops key steps terminalIterations = .of runs ∧
        ∃ edge ∈ edges, targetKey edge (classifyEdge edge loops) settled = key ∧
          batchStep.any (fun batchStep => !batchStepDecides (classifyEdge edge loops) batchStep) = false := by
  induction edges generalizing decided with
  | nil => cases runs <;> simp [decideTargets, SuccessorDecisions.of]
  | cons edge edges ih =>
    rw [decideTargets, List.exists_mem_cons_iff]
    dsimp only
    split
    · next hskip =>
      rw [ih]
      refine and_congr_right fun hd => and_congr_right fun hs => and_congr_right fun _ => ?_
      refine (or_iff_right ?_).symm
      rintro ⟨rfl, hb⟩
      rw [hb, hs] at hskip
      simp only [Option.isSome_none, Bool.false_or, decide_eq_true_eq] at hskip
      exact hd hskip
    · next hskip =>
      simp only [Bool.or_eq_true, decide_eq_true_eq, not_or, Bool.not_eq_true, Option.isSome_eq_false_iff,
        Option.isNone_iff_eq_none] at hskip
      obtain ⟨⟨hbatch, hstep⟩, hdecided⟩ := hskip
      rw [mem_add, ih, List.mem_cons, not_or]
      by_cases he : key = targetKey edge (classifyEdge edge loops) settled
      · simp [he, hstep, hdecided, hbatch]
      · simp [he, Ne.symm he]

end Weigh

theorem targetKey_nodeId (edge : GraphEdge) (edgeClass : EdgeClass) (source : StepKey) :
    (targetKey edge edgeClass source).nodeId = edge.toId := by
  cases edgeClass <;> rfl

theorem sourceRow_eq_none {edge : GraphEdge} {edgeClass : EdgeClass} {target : StepKey} {t t' : Option Nat} :
    sourceRow edge edgeClass target t = .none ↔ sourceRow edge edgeClass target t' = .none := by
  cases edgeClass with
  | exit =>
    by_cases hi : target.iteration > 0
    · simp [sourceRow, hi]
    · cases t <;> cases t' <;> simp [sourceRow, hi]
  | _ => exact Iff.rfl

section Plan

variable {u : Setup} {rows : Rows} {settled key : StepKey} {row : StepRecord} {edge : GraphEdge}
  {terminalIterations : String → Option Nat} {runs : Bool}

/-- The passes given are the last ones of their loops. -/
def Ended (rows : Rows) (terminalIterations : String → Option Nat) : Prop :=
  ∀ batchNodeId t, terminalIterations batchNodeId = some t → Terminal rows batchNodeId t

theorem summary_row {step : StepSummary} (h : u.summaries rows settled terminalIterations key = some step) :
    ∃ row, rows.get? key = some row ∧ row.summary = step := by
  rw [Setup.summaries, Rows.loadStepSummariesByKeys] at h
  split at h
  · exact Option.map_eq_some_iff.1 h
  · cases h

theorem summary_of_mem (hm : key ∈ decisionKeys u.graph u.loops settled terminalIterations) :
    u.summaries rows settled terminalIterations key = (rows.get? key).map StepRecord.summary := by
  rw [Setup.summaries, Rows.loadStepSummariesByKeys, if_pos hm]

theorem settled_mem_decisionKeys : settled ∈ decisionKeys u.graph u.loops settled terminalIterations :=
  OrderedSet.mem_ofList.2 List.mem_cons_self

theorem mem_decisionKeys (he : edge ∈ u.graph.outgoing settled.nodeId)
    (hk : key ∈ targetKeys u.graph u.loops terminalIterations (targetKey edge (classifyEdge edge u.loops) settled)) :
    key ∈ decisionKeys u.graph u.loops settled terminalIterations :=
  OrderedSet.mem_ofList.2 (List.mem_cons_of_mem _ (List.mem_flatMap.2 ⟨edge, he, hk⟩))

theorem readsRow_of_candidate (hended : Ended rows terminalIterations)
    (h : candidateRow u.loops key terminalIterations edge = .row settled) : ReadsRow u.graph rows key edge settled :=
  ⟨terminalIterations edge.fromId, h, fun t ht _ => hended _ t ht⟩

theorem applies_iff (terminalIterations : String → Option Nat) :
    Applies u.graph key edge ↔ candidateRow u.loops key terminalIterations edge ≠ .none :=
  not_congr sourceRow_eq_none

theorem justified_of_weighed (hended : Ended rows terminalIterations) {steps : StepKey → Option StepSummary}
    (hsteps : ∀ key step, steps key = some step → ∃ row, rows.get? key = some row ∧ row.summary = step)
    (h : weighEdges u.loops key steps terminalIterations (u.graph.incoming key.nodeId) 0 false = .of runs) :
    Justified u.graph rows key runs := by
  obtain ⟨hweighs, hreached, hlive⟩ := weighEdges_iff.1 h
  rw [ne_self_iff_false, false_or] at hreached
  rw [Bool.false_eq_true, false_or] at hlive
  have hsettles : ∀ edge ∈ u.graph.incoming key.nodeId, Applies u.graph key edge → ∃ source step row,
      candidateRow u.loops key terminalIterations edge = .row source ∧ steps source = some step ∧ row.summary = step ∧
        Settles u.graph rows key edge row := by
    intro edge he ha
    rw [applies_iff terminalIterations] at ha
    obtain ⟨hpending, hrow⟩ := hweighs edge he
    cases hc : candidateRow u.loops key terminalIterations edge with
    | none => exact absurd hc ha
    | pending => exact absurd hc hpending
    | row source =>
      obtain ⟨step, hstep, hs⟩ := hrow source hc
      obtain ⟨row, hget, rfl⟩ := hsteps source step hstep
      exact ⟨source, _, row, rfl, hstep, rfl, source, readsRow_of_candidate hended hc, hget, hs⟩
  refine ⟨⟨?_, fun edge he ha => ?_⟩, fun hr => ?_, fun hr edge he ha => ?_⟩
  · obtain ⟨edge, he, ha⟩ := hreached
    exact ⟨edge, he, (applies_iff terminalIterations).2 ha⟩
  · obtain ⟨-, -, row, -, -, -, hs⟩ := hsettles edge he ha
    exact ⟨row, hs⟩
  · obtain ⟨edge, he, source, step, hc, hstep, hl⟩ := hlive.2 hr
    have ha : Applies u.graph key edge := (applies_iff terminalIterations).2 (by rw [hc]; exact SourceRow.noConfusion)
    obtain ⟨source', step', row, hc', hstep', rfl, hs⟩ := hsettles edge he ha
    cases hc.symm.trans hc'
    cases hstep.symm.trans hstep'
    exact ⟨edge, he, row, hs, hl⟩
  · obtain ⟨source, step, row, hc, hstep, rfl, hs⟩ := hsettles edge he ha
    refine ⟨row, hs, Bool.eq_false_iff.2 fun hl => ?_⟩
    exact Bool.false_ne_true (hr.symm.trans (hlive.1 ⟨edge, he, source, _, hc, hstep, hl⟩))

theorem batch_side {loop : WorkflowLoop} {edgeClass : EdgeClass} {batchStep : Option StepSummary}
    (hrow : rows.get? settled = some row) (hl : loop ∈ u.loops) (hn : settled.nodeId = loop.batchNodeId)
    (hbatch : batchStep = if settled.nodeId ∈ u.loops.map (·.batchNodeId) then
      u.summaries rows settled terminalIterations settled else none)
    (h : batchStep.any (fun batchStep => !batchStepDecides edgeClass batchStep) = false) :
    batchStepDecides edgeClass row.summary = true := by
  have hmem : settled.nodeId ∈ u.loops.map (·.batchNodeId) := by
    rw [hn]
    exact List.mem_map_of_mem hl
  rw [if_pos hmem, summary_of_mem settled_mem_decisionKeys, hrow, Option.map_some] at hbatch
  rw [hbatch, Option.any_some, Bool.not_eq_false'] at h
  exact h

theorem RowInvariant.placed_target (hi : RowInvariant u rows) (hx : Executable u.graph)
    (hrow : rows.get? settled = some row) (hs : isSettledStatus row.status = true) (he : edge ∈ u.graph.edges)
    (hfrom : edge.fromId = settled.nodeId)
    (hside : ∀ loop ∈ u.loops, settled.nodeId = loop.batchNodeId →
      batchStepDecides (classifyEdge edge u.loops) row.summary = true) :
    Placed u.graph rows (targetKey edge (classifyEdge edge u.loops) settled) := by
  have hnode := targetKey_nodeId edge (classifyEdge edge u.loops) settled
  -- A pass of a loop that leads on to its own members goes on.
  have hcontinues : ∀ loop ∈ u.loops, settled.nodeId ∈ loop.memberIds → classifyEdge edge u.loops ≠ .exit →
      Continues rows loop.batchNodeId settled.iteration := by
    intro loop hl hm hne
    by_cases hb : settled.nodeId = loop.batchNodeId
    · have hdecides := hside loop hl hb
      rw [batchStepDecides] at hdecides
      split at hdecides
      · exact absurd (of_decide_eq_true hdecides) hne
      · next hterminal =>
        rw [isTerminalStep, Bool.and_eq_true, not_and, Bool.not_eq_true, Bool.not_eq_false'] at hterminal
        refine ⟨row, ?_, hs, hterminal hs⟩
        rw [← hb]
        exact hrow
    · rcases hi.origin settled row hrow with ⟨htrigger, -⟩ | ⟨hplaced, -⟩
      · exact absurd hm (trigger_not_member hx htrigger hl)
      · exact hplaced.body loop hl hm hb
  have hc := hx.classified he
  generalize hclass : classifyEdge edge u.loops = edgeClass at *
  rw [show deriveLoops u.graph = u.loops from rfl, hclass] at hc
  cases hc with
  | plain hf hsource htarget =>
    have hzero : settled.iteration = 0 := by
      rcases hi.origin settled row hrow with ⟨⟨trigger, -, rfl⟩, -⟩ | ⟨hplaced, -⟩
      · rfl
      · exact hplaced.plain (by rw [← hfrom]; exact hsource)
    have hout : ∀ loop ∈ deriveLoops u.graph, edge.toId ∉ loop.memberIds := loopOf_eq_none.1 htarget
    refine ⟨fun _ => hzero, fun loop hl hm _ => absurd hm ?_, fun loop hl hb => absurd (hx.batch_mem hl) ?_⟩
    · rw [hnode]
      exact hout loop hl
    · rw [← hb, hnode]
      exact hout loop hl
  | entry loop hl hf hsource htarget =>
    refine ⟨fun _ => rfl, fun loop' hl' hm hne => absurd ?_ hne, fun loop' hl' hb i hi => nomatch hi⟩
    rw [hnode, htarget] at hm ⊢
    rw [hx.loop_unique hl hl' (hx.batch_mem hl) hm]
  | intra loop hl hf hsource htarget hne =>
    have hcont := hcontinues loop hl (hfrom ▸ hsource) EdgeClass.noConfusion
    have hsame : ∀ loop' ∈ deriveLoops u.graph, edge.toId ∈ loop'.memberIds → loop' = loop := fun loop' hl' hm =>
      hx.loop_unique hl' hl hm htarget
    refine ⟨fun hnone => ?_, fun loop' hl' hm _ => ?_, fun loop' hl' hb => ?_⟩
    · exact absurd htarget (loopOf_eq_none.1 (hnode ▸ hnone) loop hl)
    · rw [hsame loop' hl' (hnode ▸ hm)]
      exact hcont
    · rw [hnode] at hb
      rw [hsame loop' hl' (hb ▸ hx.batch_mem hl')] at hb
      exact absurd hb hne
  | back loop hl hb hsource htarget =>
    have hcont := hcontinues loop hl (hfrom ▸ hsource) EdgeClass.noConfusion
    refine ⟨fun hnone => ?_, fun loop' hl' hm hne => absurd ?_ hne, fun loop' hl' hbatch i hi => ?_⟩
    · exact absurd (hx.batch_mem hl) (loopOf_eq_none.1 (htarget ▸ hnode ▸ hnone) loop hl)
    · rw [hnode, htarget] at hm ⊢
      rw [hx.loop_unique hl hl' (hx.batch_mem hl) hm]
    · rw [hnode, htarget] at hbatch
      cases hi
      rw [← hbatch]
      exact hcont
  | exit loop hl hf hsource hslot htarget hhead =>
    refine ⟨fun _ => rfl, fun loop' hl' hm hne => absurd ?_ hne, fun loop' hl' hb i hi => nomatch hi⟩
    rw [hnode] at hm ⊢
    exact hhead loop' hl' hm

theorem RowInvariant.plan_sound (hi : RowInvariant u rows) (hx : Executable u.graph) (hended : Ended rows terminalIterations)
    (hrow : rows.get? settled = some row) (hs : isSettledStatus row.status = true)
    (hk : key ∈ (u.plan rows settled terminalIterations).of runs) :
    Placed u.graph rows key ∧ Justified u.graph rows key runs := by
  obtain ⟨-, -, hfate, edge, he, rfl, hany⟩ := mem_decideTargets.1 hk
  obtain ⟨he, hfrom⟩ := mem_outgoing.1 he
  refine ⟨hi.placed_target hx hrow hs he hfrom fun loop hl hb => batch_side hrow hl hb rfl hany, ?_⟩
  rw [decideNodeFate] at hfate
  split at hfate
  · cases runs <;> cases hfate
  · exact justified_of_weighed hended (fun key step => summary_row) hfate

end Plan

end N8n.Engine
