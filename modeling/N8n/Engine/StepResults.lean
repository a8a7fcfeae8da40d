import N8n.Engine.Quiescence

namespace N8n.Engine

open Lib TransitionSystem

/-- The outcome of a step that is executed depends only on the inputs of the step. -/
abbrev Executor := StepKey → StepSlots → Outcome

def Executor.Follows (executor : Executor) (s : State) : Label → Prop
  | .execute i outcome =>
    ∀ step node inputs, s.handlers[i]? = some (.executing step node inputs) → outcome = executor step inputs
  | _ => True

def AllSettled (rows : Rows) (keys : List StepKey) : Prop := ∀ key ∈ keys, Settled rows key

section Passes

variable (u : Setup) (rows : Rows) (step : StepKey) (loop : WorkflowLoop)

structure PassOf (batchSize : Nat) : Prop where
  config : ∃ node, u.findNode step = some node ∧ node.type = .batch ∧ batchStepConfig node.config = some batchSize
  heads : u.loops.find? (·.batchNodeId = step.nodeId) = some loop

structure SourceOf (source : Option (GraphEdge × StepKey)) : Prop where
  original : ∃ terminalIterations, Ended rows terminalIterations ∧
    originalRow u.loops loop terminalIterations = .ok source
  settled : AllSettled rows (source.toList.map (·.2))

def ItemsOf (items : List Json) : Prop :=
  ∃ source value, SourceOf u rows loop source ∧
    readOriginalItems loop (rows.loadStepsByKeys (source.toList.map (·.2))) source = .ok value ∧
    asList "the batch node input" value = .ok items

structure ArrivalsOf (iteration : Nat) (arrivals : List Json) : Prop where
  read : readArrivals loop (rows.loadStepsByKeys (Setup.arrivalKeys loop iteration)) iteration = .ok arrivals
  settled : AllSettled rows (Setup.arrivalKeys loop iteration)

end Passes

inductive Setup.Gives (u : Setup) (executor : Executor) (rows : Rows) (step : StepKey) : StepSlots → Prop
  | executed (node inputs outputs) (hn : u.findNode step = some node) (ht : node.type ≠ .batch)
      (hi : InputsOf u rows step inputs) (ho : executor step inputs = .completed outputs) :
      Gives u executor rows step outputs
  | slice (loop batchSize items) (hp : PassOf u step loop batchSize) (hi : ItemsOf u rows loop items)
      (hs : (batchSlice batchSize step.iteration items).length > 0) :
      Gives u executor rows step [.null, .arr (batchSlice batchSize step.iteration items)]
  | done (loop batchSize items arrivals outputs) (hp : PassOf u step loop batchSize) (hi : ItemsOf u rows loop items)
      (hs : ¬ (batchSlice batchSize step.iteration items).length > 0)
      (ha : ArrivalsOf rows loop step.iteration arrivals) (hd : batchDone arrivals = .ok outputs) :
      Gives u executor rows step outputs

section Growth

variable {u : Setup} {executor : Executor} {rows rows' : Rows} {step : StepKey} {loop : WorkflowLoop}
  {keys : List StepKey} {source : Option (GraphEdge × StepKey)} {items arrivals : List Json} {outputs : StepSlots}
  {iteration : Nat}

theorem AllSettled.grows (h : AllSettled rows keys) (hg : rows.Grows rows') : AllSettled rows' keys :=
  fun key hk => (h key hk).grows hg

theorem AllSettled.load_eq (h : AllSettled rows keys) (hg : rows.Grows rows') :
    rows'.loadStepsByKeys keys = rows.loadStepsByKeys keys := by
  funext key
  rw [Rows.loadStepsByKeys, Rows.loadStepsByKeys]
  split
  · next hk =>
    obtain ⟨row, hr, hs⟩ := h key hk
    rw [hr, hg.settled hr hs]
  · rfl

theorem SourceOf.grows (h : SourceOf u rows loop source) (hg : rows.Grows rows') : SourceOf u rows' loop source := by
  obtain ⟨⟨terminalIterations, hended, ho⟩, hs⟩ := h
  exact ⟨⟨terminalIterations, hended.grows hg, ho⟩, hs.grows hg⟩

theorem ItemsOf.grows (h : ItemsOf u rows loop items) (hg : rows.Grows rows') : ItemsOf u rows' loop items := by
  obtain ⟨source, value, hs, hv, hi⟩ := h
  refine ⟨source, value, hs.grows hg, ?_, hi⟩
  rw [hs.settled.load_eq hg]
  exact hv

theorem ArrivalsOf.grows (h : ArrivalsOf rows loop iteration arrivals) (hg : rows.Grows rows') :
    ArrivalsOf rows' loop iteration arrivals := by
  refine ⟨?_, h.settled.grows hg⟩
  rw [h.settled.load_eq hg]
  exact h.read

theorem Setup.Gives.grows (h : u.Gives executor rows step outputs) (hg : rows.Grows rows') :
    u.Gives executor rows' step outputs := by
  cases h with
  | executed node inputs _ hn ht hi ho => exact .executed node inputs outputs hn ht (hi.grows hg) ho
  | slice loop batchSize items hp hi hs => exact .slice loop batchSize items hp (hi.grows hg) hs
  | done loop batchSize items arrivals _ hp hi hs ha hd =>
    exact .done loop batchSize items arrivals outputs hp (hi.grows hg) hs (ha.grows hg) hd

end Growth

section Unique

variable {u : Setup} {executor : Executor} {rows : Rows} {key step : StepKey} {loop : WorkflowLoop} {edge : GraphEdge}
  {terminalIterations terminalIterations' : String → Option Nat} {reads reads' : List (GraphEdge × StepKey)}
  {source source' : Option (GraphEdge × StepKey)} {inputs inputs' outputs outputs' : StepSlots}
  {items items' arrivals arrivals' : List Json} {batchSize batchSize' iteration i j : Nat}

theorem gatherReads_eq (h : gatherReads u.loops key terminalIterations u.graph = .ok reads) :
    (∀ edge ∈ u.graph.incoming key.nodeId, candidateRow u.loops key terminalIterations edge ≠ .pending) ∧
      reads = (u.graph.incoming key.nodeId).filterMap (readOf u.loops key terminalIterations) := by
  rw [gatherReads] at h
  split at h
  · cases h
  · obtain ⟨sources, hsources, h⟩ := bind_eq_ok.1 h
    split at h
    · cases h
    · obtain ⟨_, -, h⟩ := bind_eq_ok.1 h
      cases h
      exact resolveSources_ok.1 hsources

theorem RowInvariant.readsOf_unique (hi : RowInvariant u rows) (hx : Executable u.graph)
    (hr : ReadsOf u rows key reads) (hr' : ReadsOf u rows key reads') : reads = reads' := by
  obtain ⟨terminalIterations, hended, hr⟩ := hr
  obtain ⟨terminalIterations', hended', hr'⟩ := hr'
  obtain ⟨hp, rfl⟩ := gatherReads_eq hr
  obtain ⟨hp', rfl⟩ := gatherReads_eq hr'
  exact hi.reads_eq hx (.refl rows) hended hended' hp hp'

theorem RowInvariant.inputsOf_unique (hi : RowInvariant u rows) (hx : Executable u.graph)
    (h : InputsOf u rows key inputs) (h' : InputsOf u rows key inputs') : inputs = inputs' := by
  obtain ⟨reads, hr, h⟩ := h
  obtain ⟨reads', hr', h'⟩ := h'
  cases hi.readsOf_unique hx hr hr'
  exact Except.ok.inj (h.symm.trans h')

theorem originalRow_ok (h : originalRow u.loops loop terminalIterations = .ok source) :
    loop.entryEdges.head? = none ∧ source = none ∨ ∃ edge key, loop.entryEdges.head? = some edge ∧
      source = some (edge, key) ∧ candidateRow u.loops ⟨loop.batchNodeId, 0⟩ terminalIterations edge = .row key := by
  rw [originalRow] at h
  split at h
  · cases h
  · cases hhead : loop.entryEdges.head? with
    | none =>
      rw [hhead] at h
      cases h
      exact .inl ⟨rfl, rfl⟩
    | some edge =>
      rw [hhead] at h
      dsimp only at h
      split at h
      · next key hrow =>
        cases h
        exact .inr ⟨edge, key, rfl, rfl, hrow⟩
      · cases h
      · cases h

theorem mem_of_entry (hl : loop ∈ u.loops) (hhead : loop.entryEdges.head? = some edge) :
    edge ∈ u.graph.edges ∧ edge.toId = loop.batchNodeId := by
  obtain ⟨he, -, hto, -⟩ := (mem_entryEdges hl).1 (List.mem_of_head? hhead)
  exact ⟨he, hto⟩

theorem RowInvariant.sourceOf_unique (hi : RowInvariant u rows) (hx : Executable u.graph) (hl : loop ∈ u.loops)
    (h : SourceOf u rows loop source) (h' : SourceOf u rows loop source') : source = source' := by
  obtain ⟨⟨terminalIterations, hended, ho⟩, -⟩ := h
  obtain ⟨⟨terminalIterations', hended', ho'⟩, -⟩ := h'
  rcases originalRow_ok ho with ⟨hn, rfl⟩ | ⟨edge, key, hhead, rfl, hrow⟩
  · rcases originalRow_ok ho' with ⟨-, rfl⟩ | ⟨edge', key', hhead', -⟩
    · rfl
    · cases hn.symm.trans hhead'
  · rcases originalRow_ok ho' with ⟨hn', -⟩ | ⟨edge', key', hhead', rfl, hrow'⟩
    · cases hn'.symm.trans hhead
    · cases hhead.symm.trans hhead'
      rw [hi.readsRow_unique hx (mem_of_entry hl hhead).1 (readsRow_of_candidate hended hrow)
        (readsRow_of_candidate hended' hrow')]

theorem RowInvariant.itemsOf_unique (hi : RowInvariant u rows) (hx : Executable u.graph) (hl : loop ∈ u.loops)
    (h : ItemsOf u rows loop items) (h' : ItemsOf u rows loop items') : items = items' := by
  obtain ⟨source, value, hs, hv, h⟩ := h
  obtain ⟨source', value', hs', hv', h'⟩ := h'
  cases hi.sourceOf_unique hx hl hs hs'
  cases Except.ok.inj (hv.symm.trans hv')
  exact Except.ok.inj (h.symm.trans h')

theorem PassOf.loop_mem (h : PassOf u step loop batchSize) : loop ∈ u.loops ∧ loop.batchNodeId = step.nodeId := by
  have hid := List.find?_some h.heads
  exact ⟨List.mem_of_find?_eq_some h.heads, of_decide_eq_true hid⟩

theorem PassOf.unique {loop' : WorkflowLoop} (h : PassOf u step loop batchSize) (h' : PassOf u step loop' batchSize') :
    loop = loop' ∧ batchSize = batchSize' := by
  obtain ⟨⟨node, hn, -, hc⟩, hl⟩ := h
  obtain ⟨⟨node', hn', -, hc'⟩, hl'⟩ := h'
  cases hn.symm.trans hn'
  exact ⟨Option.some.inj (hl.symm.trans hl'), Option.some.inj (hc.symm.trans hc')⟩

theorem PassOf.type {node : GraphNode} (h : PassOf u step loop batchSize) (hn : u.findNode step = some node) :
    node.type = .batch := by
  obtain ⟨node', hn', ht, -⟩ := h.config
  cases hn.symm.trans hn'
  exact ht

theorem Setup.Gives.unique (h : u.Gives executor rows step outputs) (h' : u.Gives executor rows step outputs')
    (hi : RowInvariant u rows) (hx : Executable u.graph) : outputs = outputs' := by
  cases h with
  | executed node inputs _ hn ht hin ho =>
    cases h' with
    | executed node' inputs' _ hn' _ hin' ho' =>
      cases hi.inputsOf_unique hx hin hin'
      exact Outcome.completed.inj (ho.symm.trans ho')
    | slice _ _ _ hp => exact absurd (hp.type hn) ht
    | done _ _ _ _ _ hp => exact absurd (hp.type hn) ht
  | slice loop batchSize items hp hit hs =>
    cases h' with
    | executed node' _ _ hn' ht' => exact absurd (hp.type hn') ht'
    | slice loop' batchSize' items' hp' hit' _ =>
      obtain ⟨rfl, rfl⟩ := hp.unique hp'
      rw [hi.itemsOf_unique hx hp.loop_mem.1 hit hit']
    | done loop' batchSize' items' _ _ hp' hit' hs' =>
      obtain ⟨rfl, rfl⟩ := hp.unique hp'
      cases hi.itemsOf_unique hx hp.loop_mem.1 hit hit'
      exact absurd hs hs'
  | done loop batchSize items arrivals _ hp hit hs ha hd =>
    cases h' with
    | executed node' _ _ hn' ht' => exact absurd (hp.type hn') ht'
    | slice loop' batchSize' items' hp' hit' hs' =>
      obtain ⟨rfl, rfl⟩ := hp.unique hp'
      cases hi.itemsOf_unique hx hp.loop_mem.1 hit hit'
      exact absurd hs' hs
    | done loop' batchSize' items' arrivals' _ hp' _ _ ha' hd' =>
      obtain ⟨rfl, rfl⟩ := hp.unique hp'
      cases Except.ok.inj (ha.read.symm.trans ha'.read)
      exact Except.ok.inj (hd.symm.trans hd')

end Unique

section Settledness

variable {u : Setup} {rows : Rows} {key source : StepKey} {loop : WorkflowLoop} {edge : GraphEdge}
  {terminalIterations : String → Option Nat} {original : Option (GraphEdge × StepKey)} {i j : Nat}

theorem RowInvariant.read_settled (hi : RowInvariant u rows) (hx : Executable u.graph) (hn : ¬ u.IsTrigger key)
    (hk : (rows.get? key).isSome = true) (he : edge ∈ u.graph.incoming key.nodeId)
    (hr : ReadsRow u.graph rows key edge source) : Settled rows source := by
  obtain ⟨row, hrow⟩ := Option.isSome_iff_exists.1 hk
  rcases hi.origin key row hrow with ⟨htrigger, -⟩ | ⟨-, hj⟩
  · exact absurd htrigger hn
  · obtain ⟨step, source', hr', hget, hs⟩ := hj.settled edge he hr.applies
    cases hi.readsRow_unique hx (mem_incoming.1 he).1 hr hr'
    exact ⟨step, hget, hs⟩

theorem RowInvariant.earlier_pass (hi : RowInvariant u rows) (hx : Executable u.graph) (hl : loop ∈ u.loops)
    (hj : (rows.get? ⟨loop.batchNodeId, j⟩).isSome = true) (hij : i ≤ j) :
    (rows.get? ⟨loop.batchNodeId, i⟩).isSome = true := by
  rcases Nat.lt_or_eq_of_le hij with hlt | rfl
  · obtain ⟨row, hr, -⟩ := hi.pass_before hx hl hj hlt
    exact Option.isSome_of_eq_some hr
  · exact hj

theorem Executable.pass_not_trigger (hx : Executable u.graph) (hl : loop ∈ u.loops) (i : Nat) :
    ¬ u.IsTrigger ⟨loop.batchNodeId, i⟩ := fun htrigger => trigger_not_member hx htrigger hl (hx.batch_mem hl)

theorem RowInvariant.sourceOf (hi : RowInvariant u rows) (hx : Executable u.graph) (hl : loop ∈ u.loops)
    (hp : (rows.get? ⟨loop.batchNodeId, i⟩).isSome = true) (hended : Ended rows terminalIterations)
    (h : originalRow u.loops loop terminalIterations = .ok original) : SourceOf u rows loop original := by
  refine ⟨⟨terminalIterations, hended, h⟩, fun key hk => ?_⟩
  rcases originalRow_ok h with ⟨-, rfl⟩ | ⟨edge, key', hhead, rfl, hrow⟩
  · cases hk
  · cases List.mem_singleton.1 hk
    have hfirst := hi.earlier_pass hx hl hp (Nat.zero_le i)
    exact hi.read_settled hx (hx.pass_not_trigger hl 0) hfirst (mem_incoming.2 (mem_of_entry hl hhead))
      (readsRow_of_candidate hended hrow)

theorem RowInvariant.arrivals_settled (hi : RowInvariant u rows) (hx : Executable u.graph) (hl : loop ∈ u.loops)
    (hp : (rows.get? ⟨loop.batchNodeId, i⟩).isSome = true) : AllSettled rows (Setup.arrivalKeys loop i) := by
  intro key hk
  obtain ⟨edge, hhead, hk⟩ := List.mem_flatMap.1 hk
  obtain ⟨j, hj, rfl⟩ := List.mem_map.1 hk
  obtain ⟨he, hb, hto⟩ := (mem_backEdges hl).1 (List.mem_of_head? (Option.mem_toList.1 hhead))
  have hr := @readsRow_back u rows edge hb j
  rw [hto] at hr
  exact hi.read_settled hx (hx.pass_not_trigger hl (j + 1)) (hi.earlier_pass hx hl hp (List.mem_range.1 hj))
    (mem_incoming.2 ⟨he, hto⟩) hr

end Settledness

def Handler.Derived (u : Setup) (executor : Executor) (rows : Rows) : Handler → Prop
  | .executing _ node _ => node.type ≠ .batch
  | .batching _ node => node.type = .batch
  | .readingItems step loop batchSize source => PassOf u step loop batchSize ∧ SourceOf u rows loop source
  | .readingArrivals step loop => ∃ batchSize items, PassOf u step loop batchSize ∧ ItemsOf u rows loop items ∧
      ¬ (batchSlice batchSize step.iteration items).length > 0
  | .ran step (.completed outputs) => u.Gives executor rows step outputs
  | _ => True

structure Setup.Derived (u : Setup) (executor : Executor) (s : State) : Prop where
  rows : ∀ key row, s.rows.get? key = some row → row.status = .completed →
    ∃ outputs, row.outputs = some outputs ∧ (u.IsTrigger key ∨ u.Gives executor s.rows key outputs)
  work : ∀ h ∈ s.work, h.Derived u executor s.rows

section Derived

variable {u : Setup} {executor : Executor} {s s' t : State} {rows rows' : Rows} {h : Handler} {next : Option Handler}
  {step key : StepKey} {row : StepRecord} {a : Label} {i : Nat}

theorem Handler.Derived.grows (hd : h.Derived u executor rows) (hg : rows.Grows rows') :
    h.Derived u executor rows' := by
  cases h with
  | executing | batching => exact hd
  | readingItems => exact ⟨hd.1, hd.2.grows hg⟩
  | readingArrivals =>
    obtain ⟨batchSize, items, hp, hi, hs⟩ := hd
    exact ⟨batchSize, items, hp, hi.grows hg, hs⟩
  | ran step outcome =>
    cases outcome with
    | completed outputs => exact Setup.Gives.grows hd hg
    | failed => trivial
  | _ => trivial

theorem Message.derived (m : Message) : m.handler.Derived u executor rows := by
  cases m with
  | executionEnqueued | stepReady | stepSettled => trivial

theorem PassOf.created {loop : WorkflowLoop} {batchSize : Nat} (hp : PassOf u step loop batchSize)
    (hc : u.Created rows step) : (rows.get? ⟨loop.batchNodeId, step.iteration⟩).isSome = true := by
  rw [hp.loop_mem.2]
  exact hc.1

theorem Setup.startBatch_derived {node : GraphNode} (hx : Executable u.graph) (hS : u.Sound s)
    (hc : u.Created s.rows step) (hn : u.findNode step = some node) (ht : node.type = .batch) :
    (u.startBatch s step node).Derived u executor s.rows := by
  rcases @startBatch_cases u s step node with he | ⟨batchSize, loop, source, hconfig, hloop, horiginal, he⟩
  · rw [he]
    trivial
  · rw [he]
    have hp : PassOf u step loop batchSize := ⟨⟨node, hn, ht, hconfig⟩, hloop⟩
    exact ⟨hp, hS.rows.sourceOf hx hp.loop_mem.1 (hp.created hc) (ended_load _ _) horiginal⟩

theorem Setup.readItems_derived {loop : WorkflowLoop} {batchSize : Nat} {source : Option (GraphEdge × StepKey)}
    (hp : PassOf u step loop batchSize) (hs : SourceOf u s.rows loop source) :
    (readItems s step loop batchSize source).Derived u executor s.rows := by
  rcases @readItems_cases s step loop batchSize source with he | ⟨value, items, hvalue, hitems, hslice⟩
  · rw [he]
    trivial
  · have hi : ItemsOf u s.rows loop items := ⟨source, value, hs, hvalue, hitems⟩
    rcases hslice with ⟨hlt, he⟩ | ⟨hnone, he⟩
    · rw [he]
      exact .slice loop batchSize items hp hi hlt
    · rw [he]
      exact ⟨batchSize, items, hp, hi, hnone⟩

theorem Setup.finishBatch_derived {loop : WorkflowLoop} (hx : Executable u.graph) (hS : u.Sound s)
    (hc : u.Created s.rows step) (hd : (Handler.readingArrivals step loop).Derived u executor s.rows) :
    (finishBatch s step loop).Derived u executor s.rows := by
  obtain ⟨batchSize, items, hp, hi, hs⟩ := hd
  rcases @finishBatch_cases s step loop with he | ⟨arrivals, outputs, harrivals, houtputs, he⟩
  · rw [he]
    trivial
  · rw [he]
    have hsettled := hS.rows.arrivals_settled hx hp.loop_mem.1 (hp.created hc)
    exact .done loop batchSize items arrivals outputs hp hi hs ⟨harrivals, hsettled⟩ houtputs

theorem Setup.Operation.derived_next (ho : u.Operation s h next t) (hx : Executable u.graph) (hS : u.Sound s)
    (hk : h.Known u s.rows s.status) (hd : h.Derived u executor s.rows)
    (he : ∀ step node inputs outcome, h = .executing step node inputs → next = some (.ran step outcome) →
      outcome = executor step inputs) : ∀ p, next = some p → p.Derived u executor t.rows := by
  rintro p rfl
  cases ho with
  | resolve =>
    split
    · next ht => exact ht
    · next ht => exact ht
  | execute step node inputs outcome =>
    have ho := he step node inputs outcome rfl rfl
    cases outcome with
    | completed outputs => exact .executed node inputs outputs hk.2.1 hd hk.2.2 ho.symm
    | failed => trivial
  | batch => exact startBatch_derived hx hS hk.1 hk.2 hd
  | items => exact readItems_derived hd.1 hd.2
  | arrivals => exact finishBatch_derived hx hS hk hd
  | _ => trivial

theorem Setup.Operation.derived_row (ho : u.Operation s h next t) (hD : u.Derived executor s)
    (hd : h.Derived u executor s.rows) (hr : t.rows.get? key = some row) (hc : row.status = .completed) :
    ∃ outputs, row.outputs = some outputs ∧ (u.IsTrigger key ∨ u.Gives executor t.rows key outputs) := by
  cases ho.row_step hr with
  | kept _ _ hold =>
    obtain ⟨outputs, ho', hgives⟩ := hD.rows key row hold hc
    exact ⟨outputs, ho', hgives.imp_right fun h => h.grows ho.grows⟩
  | started ht => exact ⟨_, rfl, .inl ht⟩
  | planned _ _ runs => cases runs <;> cases hc
  | completed _ outputs => exact ⟨outputs, rfl, .inr (Gives.grows hd ho.grows)⟩
  | claimed | failed | cancelled => cases hc

theorem Setup.derived_step (hx : Executable u.graph) (hS : u.Sound s) (hD : u.Derived executor s)
    (ha : executor.Follows s a) (hs : u.step s a = some s') : u.Derived executor s' := by
  rcases step_operations hs with ⟨_, -, hrows, -, -, -, hwork⟩ | ⟨i, h, next, t, hh, ho, rfl, -, hexecute⟩
  · refine ⟨?_, fun p hp => ?_⟩
    · rw [hrows]
      exact hD.rows
    · rw [hrows]
      exact hD.work p ((hwork p).1 hp)
  · have hmem : h ∈ s.work := mem_work.2 (.inl (List.mem_of_getElem? hh))
    have hd := hD.work h hmem
    refine ⟨fun key row hr hc => ho.derived_row hD hd hr hc, fun p hp => ?_⟩
    rcases work_of_replace hp with hp | hp | ⟨m, -, rfl⟩
    · exact (hD.work p hp).grows ho.grows
    · refine ho.derived_next hx hS (hS.work h hmem) hd ?_ p hp
      rintro step node inputs outcome rfl hnext
      cases hexecute step node inputs outcome rfl hnext
      exact ha step node inputs hh
    · exact m.derived

theorem Setup.derived_start : u.Derived executor .start := by
  refine ⟨(fun _ _ h => nomatch h), fun p hp => ?_⟩
  rcases mem_work.1 hp with hp | ⟨m, -, rfl⟩
  · cases hp
  · exact m.derived

theorem Setup.derived_of_reachable (hx : Executable u.graph) (hr : u.system.Reachable executor.Follows s) :
    u.Derived executor s :=
  (hr.invariant (P := fun s => u.Sound s ∧ u.Derived executor s) (fun _ hs => hs ▸ ⟨sound_start, derived_start⟩)
    fun _ _ _ ha hP hs => ⟨sound_step hx hP.1 hs, derived_step hx hP.1 hP.2 ha hs⟩).2

end Derived

end N8n.Engine
