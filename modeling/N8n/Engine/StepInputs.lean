import N8n.Engine.Planning

namespace N8n.Engine

open Lib

section Terminals

variable {u : Setup} {rows rows' : Rows} {key source source' : StepKey} {edge : GraphEdge}
  {terminalIterations terminalIterations' : String → Option Nat}

theorem ended_load (rows : Rows) (ids : List String) : Ended rows (loadTerminalIterations rows ids) := by
  intro b t h
  rw [loadTerminalIterations] at h
  split at h
  · obtain ⟨pass, hp, he⟩ := Option.bind_eq_some_iff.1 h
    split at he
    · next hterminal =>
      cases he
      exact ⟨pass.2, (latestStep_spec.2 pass hp).1, hterminal⟩
    · cases he
  · cases h

theorem Ended.grows (h : Ended rows terminalIterations) (hg : rows.Grows rows') : Ended rows' terminalIterations :=
  fun b t ht => (h b t ht).grows hg

def Knows (u : Setup) (rows : Rows) (terminalIterations : String → Option Nat) (key : StepKey) : Prop :=
  ∀ edge ∈ u.graph.incoming key.nodeId, classifyEdge edge u.loops = .exit → ∀ t, Terminal rows edge.fromId t →
    terminalIterations edge.fromId = some t

theorem mem_exitSources {ids : List String} (he : edge ∈ u.graph.edges) (hm : edge.toId ∈ ids)
    (hc : classifyEdge edge u.loops = .exit) : edge.fromId ∈ u.exitSources ids :=
  OrderedSet.mem_ofList.2 (List.mem_map_of_mem (List.mem_filter.2 ⟨he, decide_eq_true ⟨hm, hc⟩⟩))

theorem exit_source (hx : Executable u.graph) (he : edge ∈ u.graph.edges) (hc : classifyEdge edge u.loops = .exit) :
    ∃ loop ∈ u.loops, edge.fromId = loop.batchNodeId := by
  have hclassified := hx.classified he
  rw [show classifyEdge edge (deriveLoops u.graph) = .exit from hc] at hclassified
  cases hclassified with
  | exit loop hl hf hfrom => exact ⟨loop, hl, hfrom⟩

theorem RowInvariant.knows_load (hi : RowInvariant u rows) (hx : Executable u.graph) {ids : List String}
    (hm : key.nodeId ∈ ids) : Knows u rows (loadTerminalIterations rows (u.exitSources ids)) key := by
  intro edge he hc t ht
  obtain ⟨he, hto⟩ := mem_incoming.1 he
  obtain ⟨loop, hl, hfrom⟩ := exit_source hx he hc
  have hmem := mem_exitSources he (hto ▸ hm) hc
  rw [hfrom] at ht hmem ⊢
  exact (hi.loadTerminal_iff hx hl).2 ⟨hmem, ht⟩

theorem RowInvariant.readsRow_unique (hi : RowInvariant u rows) (hx : Executable u.graph) (he : edge ∈ u.graph.edges)
    (hr : ReadsRow u.graph rows key edge source) (hr' : ReadsRow u.graph rows key edge source') : source = source' := by
  obtain ⟨t, hs, ht⟩ := hr
  obtain ⟨t', hs', ht'⟩ := hr'
  rw [show deriveLoops u.graph = u.loops from rfl] at hs ht hs' ht'
  cases hc : classifyEdge edge u.loops with
  | exit =>
    rw [hc] at hs ht hs' ht'
    by_cases hzero : key.iteration > 0
    · simp [sourceRow, hzero] at hs
    · cases t with
      | none => simp [sourceRow, hzero] at hs
      | some t =>
        cases t' with
        | none => simp [sourceRow, hzero] at hs'
        | some t' =>
          obtain ⟨loop, hl, hfrom⟩ := exit_source hx he hc
          have hend := ht t rfl rfl
          have hend' := ht' t' rfl rfl
          rw [hfrom] at hend hend'
          rw [hi.terminal_unique hx hl hend hend'] at hs'
          exact SourceRow.row.inj (hs.symm.trans hs')
  | _ =>
    rw [hc] at hs hs'
    exact SourceRow.row.inj (hs.symm.trans hs')

theorem sourceRow_nodeId {edgeClass : EdgeClass} {t : Option Nat} (h : sourceRow edge edgeClass key t = .row source) :
    source.nodeId = edge.fromId := by
  cases edgeClass with
  | back =>
    simp only [sourceRow] at h
    split at h <;> cases h
    rfl
  | entry =>
    simp only [sourceRow] at h
    split at h <;> cases h
    rfl
  | exit =>
    simp only [sourceRow] at h
    split at h
    · cases h
    · cases t <;> cases h
      rfl
  | plain =>
    cases h
    rfl
  | intra =>
    cases h
    rfl

theorem ReadsRow.nodeId (hr : ReadsRow u.graph rows key edge source) : source.nodeId = edge.fromId := by
  obtain ⟨t, hs, -⟩ := hr
  exact sourceRow_nodeId hs

theorem ReadsRow.applies (hr : ReadsRow u.graph rows key edge source) : Applies u.graph key edge := by
  obtain ⟨t, hs, -⟩ := hr
  rw [applies_iff fun _ => t, candidateRow]
  intro hnone
  cases hs.symm.trans hnone

theorem RowInvariant.candidateRow_eq (hi : RowInvariant u rows) (hx : Executable u.graph) (he : edge ∈ u.graph.edges)
    (hended : Ended rows terminalIterations) (hr : ReadsRow u.graph rows key edge source)
    (hp : candidateRow u.loops key terminalIterations edge ≠ .pending) :
    candidateRow u.loops key terminalIterations edge = .row source := by
  have ha := (applies_iff terminalIterations).1 hr.applies
  cases hc : candidateRow u.loops key terminalIterations edge with
  | none => exact absurd hc ha
  | pending => exact absurd hc hp
  | row source' => rw [hi.readsRow_unique hx he (readsRow_of_candidate hended hc) hr]

theorem Ready.not_pending (h : Ready u.graph rows key) (hk : Knows u rows terminalIterations key)
    (he : edge ∈ u.graph.incoming key.nodeId) : candidateRow u.loops key terminalIterations edge ≠ .pending := by
  intro hp
  have ha : Applies u.graph key edge := (applies_iff terminalIterations).2 (by rw [hp]; exact SourceRow.noConfusion)
  obtain ⟨-, source, ⟨t, hs, ht⟩, -⟩ := h.settled edge he ha
  rw [candidateRow] at hp
  rw [show deriveLoops u.graph = u.loops from rfl] at hs ht
  cases hc : classifyEdge edge u.loops with
  | exit =>
    rw [hc] at hs hp ht
    by_cases hzero : key.iteration > 0
    · simp [sourceRow, hzero] at hs
    · cases t with
      | none => simp [sourceRow, hzero] at hs
      | some t =>
        rw [hk edge he hc t (ht t rfl rfl)] at hp
        simp [sourceRow, hzero] at hp
  | back =>
    rw [hc] at hp
    simp only [sourceRow] at hp
    split at hp <;> cases hp
  | entry =>
    rw [hc] at hp
    simp only [sourceRow] at hp
    split at hp <;> cases hp
  | _ =>
    rw [hc] at hp
    cases hp

end Terminals

section Reads

variable {u : Setup} {rows rows' : Rows} {key source : StepKey} {edge : GraphEdge}
  {terminalIterations terminalIterations' : String → Option Nat} {reads reads' : List (GraphEdge × StepKey)}
  {edges : List GraphEdge}

def readOf (loops : List WorkflowLoop) (key : StepKey) (terminalIterations : String → Option Nat) (edge : GraphEdge) :
    Option (GraphEdge × StepKey) :=
  match candidateRow loops key terminalIterations edge with
  | .row source => some (edge, source)
  | .none => none
  | .pending => none

theorem readOf_eq_some {loops : List WorkflowLoop} {read : GraphEdge × StepKey} :
    readOf loops key terminalIterations edge = some read ↔
      read.1 = edge ∧ candidateRow loops key terminalIterations edge = .row read.2 := by
  rw [readOf]
  obtain ⟨edge', source⟩ := read
  cases candidateRow loops key terminalIterations edge with
  | row source' =>
    rw [Option.some.injEq, Prod.mk.injEq, SourceRow.row.injEq]
    exact and_congr_left fun _ => eq_comm
  | none => exact ⟨(fun h => nomatch h), fun h => nomatch h.2⟩
  | pending => exact ⟨(fun h => nomatch h), fun h => nomatch h.2⟩

theorem resolveSources_ok {loops : List WorkflowLoop} :
    resolveSources loops key terminalIterations edges = .ok reads ↔
      (∀ edge ∈ edges, candidateRow loops key terminalIterations edge ≠ .pending) ∧
        reads = edges.filterMap (readOf loops key terminalIterations) := by
  induction edges generalizing reads with
  | nil =>
    rw [resolveSources, Except.ok.injEq, List.filterMap_nil, and_iff_right (fun _ he => nomatch he)]
    exact eq_comm
  | cons edge edges ih =>
    rw [resolveSources, List.forall_mem_cons, List.filterMap_cons, readOf]
    change (match candidateRow loops key terminalIterations edge with
      | .row source => (resolveSources loops key terminalIterations edges).map fun reads => (edge, source) :: reads
      | .none => resolveSources loops key terminalIterations edges
      | .pending => .error _) = _ ↔ _
    cases candidateRow loops key terminalIterations edge with
    | row source =>
      rw [and_iff_right (show SourceRow.row source ≠ .pending from SourceRow.noConfusion)]
      cases hrest : resolveSources loops key terminalIterations edges with
      | ok rest =>
        obtain ⟨hp, rfl⟩ := ih.1 hrest
        rw [and_iff_right hp]
        constructor
        · rintro ⟨⟩
          rfl
        · rintro rfl
          rfl
      | error e =>
        refine ⟨(fun h => nomatch h), fun h => ?_⟩
        cases hrest.symm.trans (ih.2 ⟨h.1, rfl⟩)
    | none =>
      rw [and_iff_right (show SourceRow.none ≠ .pending from SourceRow.noConfusion)]
      exact ih
    | pending => exact ⟨(fun h => nomatch h), fun h => absurd rfl h.1.1⟩

theorem checkFilledSlots_ok {filledSlots : List Nat} (hn : (reads.map (·.1.inputIndex)).Nodup)
    (hd : ∀ read ∈ reads, read.1.inputIndex ∉ filledSlots) : checkFilledSlots key filledSlots reads = .ok () := by
  induction reads generalizing filledSlots with
  | nil => rfl
  | cons read reads ih =>
    rw [List.map_cons, List.nodup_cons] at hn
    rw [checkFilledSlots, if_neg (hd read List.mem_cons_self)]
    refine ih hn.2 fun read' hm hslot => ?_
    rcases List.mem_cons.1 hslot with he | hslot
    · exact hn.1 (he ▸ List.mem_map_of_mem hm)
    · exact hd read' (List.mem_cons_of_mem _ hm) hslot

theorem map_fst_reads {loops : List WorkflowLoop} :
    (edges.filterMap (readOf loops key terminalIterations)).map (·.1) =
      edges.filter fun edge => (readOf loops key terminalIterations edge).isSome := by
  induction edges with
  | nil => rfl
  | cons edge edges ih =>
    rw [List.filterMap_cons, List.filter_cons]
    cases hr : readOf loops key terminalIterations edge with
    | none => exact ih
    | some read => rw [List.map_cons, ih, (readOf_eq_some.1 hr).1, Option.isSome_some, if_pos rfl]

theorem Executable.slots_nodup (hx : Executable u.graph) (key : StepKey) (terminalIterations : String → Option Nat) :
    (((u.graph.incoming key.nodeId).filterMap (readOf u.loops key terminalIterations)).map (·.1.inputIndex)).Nodup := by
  have hmap : ∀ reads : List (GraphEdge × StepKey), reads.map (·.1.inputIndex) = (reads.map (·.1)).map (·.inputIndex) :=
    fun reads => List.map_map.symm
  rw [hmap, map_fst_reads, WorkflowGraph.incoming, List.filter_filter]
  generalize hp : (fun edge : GraphEdge => (readOf u.loops key terminalIterations edge).isSome &&
    decide (edge.toId = key.nodeId)) = p
  have hread : ∀ edge, p edge = true → edge.toId = key.nodeId ∧
      candidateRow u.loops key terminalIterations edge ≠ .none := by
    intro edge he
    rw [← hp, Bool.and_eq_true, decide_eq_true_iff, Option.isSome_iff_exists] at he
    obtain ⟨⟨read, hr⟩, hto⟩ := he
    exact ⟨hto, by rw [(readOf_eq_some.1 hr).2]; exact SourceRow.noConfusion⟩
  by_cases hback : ∃ edge ∈ u.graph.edges.filter p, edge.isBackEdge = true
  · -- The step is a later pass of a loop, and reads the one return of the loop.
    obtain ⟨edge, he, hb⟩ := hback
    obtain ⟨he, hpe⟩ := List.mem_filter.1 he
    obtain ⟨loop, hl, hto, -⟩ := hx.of_backEdge he hb
    have hlater : key.iteration ≠ 0 := by
      intro hzero
      refine (hread edge hpe).2 ?_
      simp [candidateRow, classifyEdge, hb, sourceRow, hzero]
    have hall : ∀ edge' ∈ u.graph.edges, p edge' = true → edge'.isBackEdge = true := by
      intro edge' he' hp'
      by_contra hf
      rw [Bool.not_eq_true] at hf
      have hto' : edge'.toId = loop.batchNodeId := (hread edge' hp').1.trans ((hread edge hpe).1.symm.trans hto)
      refine (hread edge' hp').2 ?_
      have hc := hx.classified he'
      rw [candidateRow, show u.loops = deriveLoops u.graph from rfl]
      have hlt : key.iteration > 0 := Nat.pos_of_ne_zero hlater
      have hout := ((mem_entryEdges hl).1 (hx.entry_of_forward hl he' hf hto')).2.2.2
      revert hc
      generalize classifyEdge edge' (deriveLoops u.graph) = edgeClass
      intro hc
      cases hc with
      | plain _ _ hn => exact absurd (hto' ▸ hx.batch_mem hl) (loopOf_eq_none.1 hn loop hl)
      | entry => simp [sourceRow, hlt]
      | intra loop' hl' _ hfrom hm hne =>
        have hsame := hx.loop_unique hl' hl hm (hto' ▸ hx.batch_mem hl)
        exact absurd (hsame ▸ hto') hne
      | back _ _ hb' => exact absurd (hf.symm.trans hb') Bool.false_ne_true
      | exit => simp [sourceRow, hlt]
    have hle : (u.graph.edges.filter p).length ≤ 1 := by
      refine le_trans ?_ (hx.loops loop hl).one_return
      rw [(mem_deriveLoops hl).2, deriveLoop, ← List.countP_eq_length_filter, ← List.countP_eq_length_filter]
      refine List.countP_mono_left fun edge' he' hp' => decide_eq_true ⟨hall edge' he' hp', ?_⟩
      exact (hread edge' hp').1.trans ((hread edge hpe).1.symm.trans hto)
    rcases hlist : u.graph.edges.filter p with - | ⟨edge', - | ⟨edge'', rest⟩⟩
    · exact List.nodup_nil
    · exact List.nodup_singleton _
    · exact absurd (hlist ▸ hle) (by simp)
  · rw [List.Nodup, List.pairwise_map]
    refine List.Pairwise.imp_of_mem (fun he he' h => ?_) (hx.slots.filter p)
    have hf : ∀ e ∈ u.graph.edges.filter p, e.isBackEdge = false := fun e he =>
      (Bool.not_eq_true _).mp fun hb => hback ⟨e, he, hb⟩
    refine h (hf _ he) (hf _ he') ?_
    exact (hread _ (List.mem_filter.1 he).2).1.trans (hread _ (List.mem_filter.1 he').2).1.symm

theorem Ready.gatherReads_ok (h : Ready u.graph rows key) (hx : Executable u.graph)
    (hk : Knows u rows terminalIterations key) :
    gatherReads u.loops key terminalIterations u.graph =
      .ok ((u.graph.incoming key.nodeId).filterMap (readOf u.loops key terminalIterations)) := by
  obtain ⟨edge, he, ha⟩ := h.reached
  have hsources : resolveSources u.loops key terminalIterations (u.graph.incoming key.nodeId) = .ok _ :=
    resolveSources_ok.2 ⟨fun edge he => h.not_pending hk he, rfl⟩
  have hreads : (u.graph.incoming key.nodeId).filterMap (readOf u.loops key terminalIterations) ≠ [] := by
    rw [applies_iff terminalIterations] at ha
    cases hc : candidateRow u.loops key terminalIterations edge with
    | none => exact absurd hc ha
    | pending => exact absurd hc (h.not_pending hk he)
    | row source =>
      have hread : readOf u.loops key terminalIterations edge = some (edge, source) := readOf_eq_some.2 ⟨rfl, hc⟩
      exact List.ne_nil_of_mem (List.mem_filterMap.2 ⟨edge, he, hread⟩)
  have hslots : checkFilledSlots key [] _ = .ok () :=
    checkFilledSlots_ok (hx.slots_nodup key terminalIterations) fun _ _ h => nomatch h
  rw [gatherReads, if_neg (List.ne_nil_of_mem he), resolveInputReads, hsources]
  show (if _ = [] then _ else _) = _
  rw [if_neg hreads, hslots]
  rfl

end Reads

section Inputs

variable {key : StepKey} {reads : List (GraphEdge × StepKey)} {inputs inputs' : StepSlots}
  {steps steps' : StepKey → Option StepRecord} {edge : GraphEdge} {row : StepRecord}

theorem isNull_edgeValue : isNull (edgeValue edge row) = !isLive row.summary edge := by
  rw [edgeValue, isLive, StepRecord.summary, outputSlot, slotFilled, List.getElem?_map]
  by_cases hs : row.status = .completed
  · rw [if_pos hs, decide_eq_true hs, Bool.true_and]
    cases (row.outputs.getD [])[edge.outputIndex]? with
    | none => rfl
    | some slot => exact (Bool.not_not _).symm
  · rw [if_neg hs, decide_eq_false hs, Bool.false_and]
    rfl

theorem readEdgeValue_ok {source : StepKey} {value : Json} :
    readEdgeValue key edge source steps = .ok value ↔
      ∃ row, steps source = some row ∧ isSettledStatus row.status = true ∧ edgeValue edge row = value := by
  rw [readEdgeValue]
  cases steps source with
  | none => exact ⟨(fun h => nomatch h), fun ⟨_, h, _⟩ => nomatch h⟩
  | some row =>
    by_cases hs : isSettledStatus row.status = true
    · simp [hs]
    · simp [hs]

theorem fillInputs_ok (hrows : ∀ read ∈ reads, ∃ row, steps read.2 = some row ∧ isSettledStatus row.status = true)
    (hn : (reads.map (·.1.inputIndex)).Nodup) :
    ∃ inputs', fillInputs key steps reads inputs = .ok inputs' ∧ inputs'.length = inputs.length ∧
      (∀ read ∈ reads, ∀ row, steps read.2 = some row → read.1.inputIndex < inputs.length →
        inputs'[read.1.inputIndex]? = some (edgeValue read.1 row)) ∧
      ∀ i, i ∉ reads.map (·.1.inputIndex) → inputs'[i]? = inputs[i]? := by
  induction reads generalizing inputs with
  | nil => exact ⟨inputs, rfl, rfl, (fun _ h => nomatch h), fun _ _ => rfl⟩
  | cons read reads ih =>
    obtain ⟨edge, source⟩ := read
    rw [List.map_cons, List.nodup_cons] at hn
    obtain ⟨row, hrow, hs⟩ := hrows _ List.mem_cons_self
    have hvalue : readEdgeValue key edge source steps = .ok (edgeValue edge row) :=
      readEdgeValue_ok.2 ⟨row, hrow, hs, rfl⟩
    obtain ⟨inputs', hfill, hlength, hvalues, hrest⟩ :=
      @ih (inputs.set edge.inputIndex (edgeValue edge row)) (fun r hr => hrows r (List.mem_cons_of_mem _ hr)) hn.2
    rw [List.length_set] at hlength hvalues
    refine ⟨inputs', ?_, hlength, fun read hm row' hrow' hlt => ?_, fun i hi => ?_⟩
    · rw [fillInputs, hvalue]
      exact hfill
    · rcases List.mem_cons.1 hm with rfl | hm
      · rw [hrest _ hn.1, List.getElem?_set_self hlt]
        cases hrow.symm.trans hrow'
        rfl
      · exact hvalues read hm row' hrow' hlt
    · rw [List.map_cons, List.mem_cons, not_or] at hi
      rw [hrest i hi.2, List.getElem?_set_ne (Ne.symm hi.1)]

theorem fillInputs_grows (hg : ∀ read ∈ reads, ∀ row, steps read.2 = some row → isSettledStatus row.status = true →
    steps' read.2 = some row) (h : fillInputs key steps reads inputs = .ok inputs') :
    fillInputs key steps' reads inputs = .ok inputs' := by
  induction reads generalizing inputs with
  | nil => exact h
  | cons read reads ih =>
    obtain ⟨edge, source⟩ := read
    rw [fillInputs] at h ⊢
    cases hv : readEdgeValue key edge source steps with
    | error e =>
      rw [hv] at h
      cases h
    | ok value =>
      obtain ⟨row, hrow, hs, hvalue⟩ := readEdgeValue_ok.1 hv
      rw [hv] at h
      rw [readEdgeValue_ok.2 ⟨row, hg _ List.mem_cons_self row hrow hs, hs, hvalue⟩]
      exact ih (fun r hr => hg r (List.mem_cons_of_mem _ hr)) h

end Inputs

section Stored

variable {u : Setup} {rows rows' : Rows} {key : StepKey} {reads : List (GraphEdge × StepKey)} {inputs : StepSlots}

def ReadsOf (u : Setup) (rows : Rows) (key : StepKey) (reads : List (GraphEdge × StepKey)) : Prop :=
  ∃ terminalIterations, Ended rows terminalIterations ∧ gatherReads u.loops key terminalIterations u.graph = .ok reads

def InputsOf (u : Setup) (rows : Rows) (key : StepKey) (inputs : StepSlots) : Prop :=
  ∃ reads, ReadsOf u rows key reads ∧ Setup.inputsAt rows key reads = .ok inputs

theorem ReadsOf.grows (h : ReadsOf u rows key reads) (hg : rows.Grows rows') : ReadsOf u rows' key reads := by
  obtain ⟨terminalIterations, hended, hr⟩ := h
  exact ⟨terminalIterations, hended.grows hg, hr⟩

theorem loadStepsByKeys_mem {keys : List StepKey} (hk : key ∈ keys) : rows.loadStepsByKeys keys key = rows.get? key :=
  if_pos hk

theorem inputsAt_grows (h : Setup.inputsAt rows key reads = .ok inputs) (hg : rows.Grows rows') :
    Setup.inputsAt rows' key reads = .ok inputs := by
  refine fillInputs_grows (fun read hm row hrow hs => ?_) h
  have hk : read.2 ∈ reads.map (·.2) := List.mem_map_of_mem hm
  rw [loadStepsByKeys_mem hk] at hrow ⊢
  exact hg.settled hrow hs

theorem InputsOf.grows (h : InputsOf u rows key inputs) (hg : rows.Grows rows') : InputsOf u rows' key inputs := by
  obtain ⟨reads, hr, hi⟩ := h
  exact ⟨reads, hr.grows hg, inputsAt_grows hi hg⟩

end Stored

end N8n.Engine
