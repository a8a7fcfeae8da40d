import N8n.Engine.Handlers

namespace N8n.Engine

open Lib

structure LoopReader where
  readOriginalItems : Except EngineError Json
  readArrivals : Nat → Except EngineError (List Json)

def createStoreLoopReader (rows : Rows) (loops : List WorkflowLoop) (loop : WorkflowLoop)
    (terminalIterations : String → Option Nat) : Except EngineError LoopReader :=
  if loop.entryEdges.length > 1 ∨ loop.backEdges.length > 1 then
    .error (.severalEdges loop.batchNodeId loop.entryEdges.length loop.backEdges.length)
  else
    .ok
      { readOriginalItems :=
          match loop.entryEdges.head? with
          | none => .ok .null
          | some entryEdge =>
            match sourceRow entryEdge (classifyEdge entryEdge loops) ⟨loop.batchNodeId, 0⟩
                (terminalIterations entryEdge.fromId) with
            | .row key => readSlot loop (rows.loadStepsByKeys [key]) entryEdge key
            | .none => .error (.noStepToRead loop.batchNodeId entryEdge.fromId)
            | .pending => .error (.noStepToRead loop.batchNodeId entryEdge.fromId)
        readArrivals := fun iteration => readArrivals loop (rows.loadStepsByKeys (Setup.arrivalKeys loop iteration)) iteration }

def runBatchStep (batchSize iteration : Nat) (reader : LoopReader) : Except EngineError StepSlots := do
  let value ← reader.readOriginalItems
  let originalItems ← asList "the batch node input" value
  let slice := batchSlice batchSize iteration originalItems
  if slice.length > 0 then .ok [.null, .arr slice]
  else do
    let arrivals ← reader.readArrivals iteration
    batchDone arrivals

def runPass (store : Nat → Rows) (loops : List WorkflowLoop) (loop : WorkflowLoop)
    (terminalIterations : String → Option Nat) (batchSize iteration : Nat) : Except EngineError StepSlots := do
  let reader ← createStoreLoopReader (store iteration) loops loop terminalIterations
  runBatchStep batchSize iteration reader

/-- What the passes from one on emit, up to the terminal one; nothing if a pass fails or the fuel runs out. -/
def runPasses (pass : Nat → Except EngineError StepSlots) : Nat → Nat → Option (List StepSlots)
  | 0, _ => none
  | fuel + 1, iteration =>
    match pass iteration with
    | .error _ => none
    | .ok slots =>
      if isTerminalStep (StepRecord.summary ⟨.completed, some slots⟩) then some [slots]
      else (runPasses pass fuel (iteration + 1)).map fun rest => slots :: rest

section Operations

variable {s : State} {step : StepKey} {loops : List WorkflowLoop} {loop : WorkflowLoop}
  {terminalIterations : String → Option Nat} {batchSize : Nat} {source : Option (GraphEdge × StepKey)}

theorem createStoreLoopReader_items (h : originalRow loops loop terminalIterations = .ok source) :
    ∃ reader, createStoreLoopReader s.rows loops loop terminalIterations = .ok reader ∧
      reader.readOriginalItems = readOriginalItems loop (s.rows.loadStepsByKeys (source.toList.map (·.2))) source ∧
        reader.readArrivals = fun iteration =>
          readArrivals loop (s.rows.loadStepsByKeys (Setup.arrivalKeys loop iteration)) iteration := by
  rw [originalRow] at h
  split at h
  · cases h
  next hedges =>
  refine ⟨_, by rw [createStoreLoopReader, if_neg hedges], ?_, rfl⟩
  cases hentry : loop.entryEdges.head? with
  | none =>
    rw [hentry] at h
    cases h
    rfl
  | some entryEdge =>
    rw [hentry] at h
    cases hkey : sourceRow entryEdge (classifyEdge entryEdge loops) ⟨loop.batchNodeId, 0⟩
        (terminalIterations entryEdge.fromId) with
    | row key =>
      simp only [hkey] at h ⊢
      cases h
      rfl
    | none =>
      simp only [hkey] at h
      cases h
    | pending =>
      simp only [hkey] at h
      cases h

/-- The batch step as the store reader runs it is what the two handler turns of the batch node do. -/
theorem runBatchStep_operations (h : originalRow loops loop terminalIterations = .ok source) (outputs : StepSlots) :
    (createStoreLoopReader s.rows loops loop terminalIterations).bind (runBatchStep batchSize step.iteration) =
        .ok outputs ↔
      Setup.readItems s step loop batchSize source = .ran step (.completed outputs) ∨
        Setup.readItems s step loop batchSize source = .readingArrivals step loop ∧
          Setup.finishBatch s step loop = .ran step (.completed outputs) := by
  obtain ⟨reader, hreader, hitems, harrivals⟩ := createStoreLoopReader_items (s := s) h
  rw [hreader, Setup.readItems, Setup.finishBatch]
  simp only [Except.bind, bind, runBatchStep, hitems, harrivals]
  cases readOriginalItems loop (s.rows.loadStepsByKeys (source.toList.map (·.2))) source with
  | error e => simp [Setup.orFailed]
  | ok value =>
    simp only
    cases asList "the batch node input" value with
    | error e => simp [Setup.orFailed]
    | ok originalItems =>
      simp only
      split
      · simp [Setup.orFailed]
      · cases readArrivals loop (s.rows.loadStepsByKeys (Setup.arrivalKeys loop step.iteration)) step.iteration with
        | error e => simp [Setup.orFailed]
        | ok arrivals =>
          simp only
          cases batchDone arrivals with
          | error e => simp [Setup.orFailed]
          | ok done => simp [Setup.orFailed]

end Operations

section Slices

variable {batchSize : Nat} {items : List Json}

def passCount (batchSize : Nat) (items : List Json) : Nat := (items.length + batchSize - 1) / batchSize

theorem lt_passCount (hb : 0 < batchSize) {i : Nat} : i < passCount batchSize items ↔ i * batchSize < items.length := by
  rw [passCount, Nat.lt_div_iff_mul_lt hb]
  omega

theorem batchSlice_eq_nil (hb : 0 < batchSize) {i : Nat} :
    batchSlice batchSize i items = [] ↔ ¬ i < passCount batchSize items := by
  rw [lt_passCount hb, batchSlice, List.take_eq_nil_iff, List.drop_eq_nil_iff]
  omega

theorem flatten_batchSlices (k : Nat) :
    ((List.range k).map fun i => batchSlice batchSize i items).flatten = items.take (k * batchSize) := by
  induction k with
  | zero => simp
  | succ k ih =>
    rw [List.range_succ, List.map_append, List.flatten_append, ih, List.map_singleton, List.flatten_singleton, batchSlice,
      Nat.succ_mul, List.take_add]

theorem flatten_passes (hb : 0 < batchSize) :
    ((List.range (passCount batchSize items)).map fun i => batchSlice batchSize i items).flatten = items := by
  rw [flatten_batchSlices]
  apply List.take_of_length_le
  have hlast : ¬ passCount batchSize items * batchSize < items.length := (lt_passCount hb).not.1 (Nat.lt_irrefl _)
  omega

end Slices

section Run

variable {loops : List WorkflowLoop} {loop : WorkflowLoop} {terminalIterations : String → Option Nat} {batchSize : Nat}
  {items : List Json} {arrivals : Nat → Json} {store : Nat → Rows}

/--
The rows that the passes of a loop find: the list that came in from outside, and before each pass after the first what
its body returned to the one before. Rows may come in between, and settled rows stay as they are.
-/
structure LoopHistory (loops : List WorkflowLoop) (loop : WorkflowLoop) (terminalIterations : String → Option Nat)
    (batchSize : Nat) (items : List Json) (arrivals : Nat → Json) (store : Nat → Rows) : Prop where
  grows : ∀ i, (store i).Grows (store (i + 1))
  original : ∃ entry key row, loop.entryEdges = [entry] ∧
    sourceRow entry (classifyEdge entry loops) ⟨loop.batchNodeId, 0⟩ (terminalIterations entry.fromId) = .row key ∧
      (store 0).get? key = some row ∧ isSettledStatus row.status = true ∧ outputSlot row entry.outputIndex = .arr items
  returned : ∃ back, loop.backEdges = [back] ∧ ∀ i, i < passCount batchSize items →
    ∃ row, (store (i + 1)).get? ⟨back.fromId, i⟩ = some row ∧ isSettledStatus row.status = true ∧
      outputSlot row back.outputIndex = arrivals i

theorem mapM_ok {α β ε : Type} {f : α → Except ε β} {g : α → β} {as : List α} (h : ∀ a ∈ as, f a = .ok (g a)) :
    as.mapM f = .ok (as.map g) := by
  induction as with
  | nil => rfl
  | cons a as ih =>
    rw [List.mapM_cons, h a List.mem_cons_self, ih fun b hb => h b (List.mem_cons_of_mem _ hb)]
    rfl

theorem mapM_error {α β ε : Type} {f : α → Except ε β} {as : List α} (h : ∃ a ∈ as, ∃ e, f a = .error e) :
    ∃ e, as.mapM f = .error e := by
  induction as with
  | nil =>
    obtain ⟨a, ha, -⟩ := h
    cases ha
  | cons a as ih =>
    rw [List.mapM_cons]
    cases ha : f a with
    | error e => exact ⟨e, rfl⟩
    | ok b =>
      obtain ⟨c, hc, e, he⟩ := h
      rcases List.mem_cons.1 hc with rfl | hc
      · rw [ha] at he
        cases he
      · obtain ⟨e', he'⟩ := ih ⟨c, hc, e, he⟩
        exact ⟨e', by rw [he']; rfl⟩

theorem LoopHistory.settled (h : LoopHistory loops loop terminalIterations batchSize items arrivals store) {i j : Nat}
    (hij : i ≤ j) {key : StepKey} {row : StepRecord} (hrow : (store i).get? key = some row)
    (hsettled : isSettledStatus row.status = true) : (store j).get? key = some row := by
  have hgrows : (store i).Grows (store j) := by
    induction hij with
    | refl => exact .refl _
    | step _ ih => exact ih.trans (h.grows _)
  exact hgrows.settled hrow hsettled

theorem LoopHistory.reader (h : LoopHistory loops loop terminalIterations batchSize items arrivals store) (i : Nat) :
    ∃ reader, createStoreLoopReader (store i) loops loop terminalIterations = .ok reader ∧
      reader.readOriginalItems = .ok (.arr items) ∧
        (i ≤ passCount batchSize items → reader.readArrivals i = .ok ((List.range i).map arrivals)) := by
  obtain ⟨entry, key, row, hentry, hkey, hrow, hsettled, hitems⟩ := h.original
  obtain ⟨back, hback, hreturned⟩ := h.returned
  refine ⟨_, by rw [createStoreLoopReader, if_neg (by simp [hentry, hback])], ?_, ?_⟩
  · simp only [hentry, List.head?_cons, hkey, readSlot, Rows.loadStepsByKeys, List.mem_singleton, if_true,
      h.settled (Nat.zero_le i) hrow hsettled, hitems]
  · intro hi
    show readArrivals loop _ i = _
    simp only [readArrivals, hback, List.head?_cons]
    apply mapM_ok
    intro j hj
    have hj := List.mem_range.1 hj
    obtain ⟨row, hrow, hsettled, hvalue⟩ := hreturned j (Nat.lt_of_lt_of_le hj hi)
    have hkey : (⟨back.fromId, j⟩ : StepKey) ∈ Setup.arrivalKeys loop i := by
      simp [Setup.arrivalKeys, hback, hj]
    simp only [readSlot, Rows.loadStepsByKeys, if_pos hkey, h.settled hj hrow hsettled, hvalue]

def listItems : Json → List Json
  | .arr items => items
  | _ => []

def ListOrNull (value : Json) : Prop := value = .null ∨ ∃ items, value = .arr items

theorem asList_ok {displayName : String} {value : Json} (h : ListOrNull value) :
    asList displayName value = .ok (listItems value) := by
  rcases h with rfl | ⟨items, rfl⟩
  · rfl
  · rfl

theorem asList_error {displayName : String} {value : Json} (h : ¬ ListOrNull value) :
    asList displayName value = .error (.noList displayName) := by
  cases value with
  | null => exact absurd (.inl rfl) h
  | arr items => exact absurd (.inr ⟨items, rfl⟩) h
  | _ => rfl

/-- The slots of the terminal pass: an empty list leaves the done slot empty too. -/
def doneSlots (accumulated : List Json) : StepSlots :=
  if accumulated = [] then [.null, .null] else [.arr accumulated, .null]

theorem batchDone_ok {values : List Json} (h : ∀ value ∈ values, ListOrNull value) :
    batchDone values = .ok (doneSlots (values.flatMap listItems)) := by
  have hlists : (values.zipIdx.mapM fun arrival => asList s!"arrival {arrival.2} of the batch node" arrival.1) =
      .ok (values.zipIdx.map fun arrival => listItems arrival.1) := by
    apply mapM_ok
    intro arrival harrival
    exact asList_ok (h _ (List.fst_mem_of_mem_zipIdx harrival))
  have hmap : (values.zipIdx.map fun arrival => listItems arrival.1) = values.map listItems := by
    conv_rhs => rw [← List.zipIdx_map_fst 0 values, List.map_map]
    rfl
  rw [batchDone, hlists, hmap, doneSlots, List.flatMap]
  simp only [bind, Except.bind]
  split
  · rfl
  · rfl

theorem batchDone_error {values : List Json} (h : ∃ value ∈ values, ¬ ListOrNull value) :
    ∃ e, batchDone values = .error e := by
  obtain ⟨value, hvalue, hlist⟩ := h
  obtain ⟨i, hi, rfl⟩ := List.mem_iff_getElem.1 hvalue
  have hmem : (values[i], i) ∈ values.zipIdx := by
    rw [List.mem_zipIdx_iff_getElem?]
    exact List.getElem?_eq_getElem hi
  obtain ⟨e, he⟩ := mapM_error (f := fun arrival : Json × Nat => asList s!"arrival {arrival.2} of the batch node" arrival.1)
    ⟨(values[i], i), hmem, _, asList_error hlist⟩
  exact ⟨e, by rw [batchDone, he]; rfl⟩

theorem LoopHistory.pass (h : LoopHistory loops loop terminalIterations batchSize items arrivals store)
    (hb : 0 < batchSize) {i : Nat} :
    (i < passCount batchSize items → runPass store loops loop terminalIterations batchSize i =
        .ok [.null, .arr (batchSlice batchSize i items)]) ∧
      (i = passCount batchSize items → runPass store loops loop terminalIterations batchSize i =
        batchDone ((List.range i).map arrivals)) := by
  obtain ⟨reader, hreader, hitems, harrivals⟩ := h.reader i
  have hslice : batchSlice batchSize i items = [] ↔ ¬ i < passCount batchSize items := batchSlice_eq_nil hb
  rw [runPass, hreader]
  constructor
  · intro hi
    have hpos : (batchSlice batchSize i items).length > 0 := List.length_pos_of_ne_nil fun he => hslice.1 he hi
    simp only [bind, Except.bind, runBatchStep, hitems, asList, if_pos hpos]
  · intro hi
    have hnil : batchSlice batchSize i items = [] := hslice.2 (by omega)
    simp only [bind, Except.bind, runBatchStep, hitems, asList, hnil, harrivals (Nat.le_of_eq hi), List.length_nil,
      gt_iff_lt, Nat.lt_irrefl, if_false]

theorem runPasses_of {pass : Nat → Except EngineError StepSlots} {k : Nat} (emitted : Nat → Json) {last : StepSlots}
    (hmore : ∀ i < k, pass i = .ok [.null, emitted i]) (hfilled : ∀ i < k, isNull (emitted i) = false)
    (hlast : pass k = .ok last) (hterminal : isTerminalStep (StepRecord.summary ⟨.completed, some last⟩) = true)
    {fuel i : Nat} (hfuel : k < fuel + i) (hi : i ≤ k) :
    runPasses pass fuel i = some (((List.range k).drop i).map (fun i => [.null, emitted i]) ++ [last]) := by
  induction fuel generalizing i with
  | zero => omega
  | succ fuel ih =>
    rw [runPasses]
    rcases Nat.lt_or_eq_of_le hi with hlt | rfl
    · have hgoes : isTerminalStep (StepRecord.summary ⟨.completed, some [.null, emitted i]⟩) = false := by
        simp [isTerminalStep, StepRecord.summary, slotFilled, loopSlot, hfilled i hlt]
      have hdrop : (List.range k).drop i = i :: (List.range k).drop (i + 1) := by
        rw [List.drop_eq_getElem_cons (by simpa using hlt), List.getElem_range]
      simp only [hmore i hlt, hgoes, Bool.false_eq_true, if_false]
      rw [ih (by omega) hlt, hdrop]
      rfl
    · have hdrop : (List.range i).drop i = [] := List.drop_of_length_le (by simp)
      simp only [hlast, hterminal, if_true, hdrop, List.map_nil, List.nil_append]

theorem terminal_doneSlots (accumulated : List Json) :
    isTerminalStep (StepRecord.summary ⟨.completed, some (doneSlots accumulated)⟩) = true := by
  rw [doneSlots]
  split
  · rfl
  · rfl

/--
The loop hands out consecutive slices of its list, and then ends with what its body returned. A body that returns
something other than a list makes the last pass fail.
-/
theorem loop_partitions (hb : 0 < batchSize)
    (h : LoopHistory loops loop terminalIterations batchSize items arrivals store) :
    ∃ slices : List (List Json), slices.flatten = items ∧ slices.length = passCount batchSize items ∧
      (∀ slice ∈ slices, slice ≠ [] ∧ slice.length ≤ batchSize) ∧
        (∀ i (hi : i < slices.length), runPass store loops loop terminalIterations batchSize i =
          .ok [.null, .arr slices[i]]) ∧
        ((∀ i < slices.length, ListOrNull (arrivals i)) → ∀ fuel, slices.length < fuel →
          runPasses (runPass store loops loop terminalIterations batchSize) fuel 0 =
            some (slices.map (fun slice => [.null, .arr slice]) ++
              [doneSlots ((List.range slices.length).flatMap fun i => listItems (arrivals i))])) ∧
        ((∃ i < slices.length, ¬ ListOrNull (arrivals i)) →
          ∃ e, runPass store loops loop terminalIterations batchSize slices.length = .error e) := by
  have hlen : ((List.range (passCount batchSize items)).map fun i => batchSlice batchSize i items).length =
      passCount batchSize items := by simp
  have hlast := (h.pass hb).2 rfl
  refine ⟨_, flatten_passes hb, hlen, ?_, ?_, ?_, ?_⟩
  · intro slice hslice
    obtain ⟨i, hi, rfl⟩ := List.mem_map.1 hslice
    refine ⟨fun he => (batchSlice_eq_nil hb).1 he (List.mem_range.1 hi), ?_⟩
    rw [batchSlice, List.length_take]
    exact Nat.min_le_left _ _
  · intro i hi
    rw [(h.pass hb).1 (hlen ▸ hi)]
    simp
  · intro hlists fuel hfuel
    rw [hlen] at hlists hfuel ⊢
    have hdone : runPass store loops loop terminalIterations batchSize (passCount batchSize items) =
        .ok (doneSlots ((List.range (passCount batchSize items)).flatMap fun i => listItems (arrivals i))) := by
      rw [hlast, batchDone_ok, List.flatMap_map]
      intro value hvalue
      obtain ⟨i, hi, rfl⟩ := List.mem_map.1 hvalue
      exact hlists i (List.mem_range.1 hi)
    rw [runPasses_of (fun i => .arr (batchSlice batchSize i items)) (fun i hi => (h.pass hb).1 hi)
      (fun _ _ => rfl) hdone (terminal_doneSlots _) (by omega) (Nat.zero_le _), List.drop_zero, List.map_map]
    rfl
  · rintro ⟨i, hi, hlist⟩
    rw [hlen] at hi ⊢
    rw [hlast]
    exact batchDone_error ⟨arrivals i, List.mem_map_of_mem (List.mem_range.2 hi), hlist⟩

end Run

section OnePass

def oneStepLoop : WorkflowLoop :=
  ⟨"batch", .ofList ["batch", "body"], [⟨"body", "batch", 0, 0, true⟩], [⟨"trigger", "batch", 0, 0, false⟩], []⟩

def oneItemStore (value : Json) : Nat → Rows
  | 0 => .ofList [(⟨"trigger", 0⟩, ⟨.completed, some [.arr [.num 1]]⟩)]
  | _ + 1 => (ObjectMap.ofList [(⟨"trigger", 0⟩, ⟨.completed, some [.arr [.num 1]]⟩)] : Rows).set ⟨"body", 0⟩
      ⟨.completed, some [value]⟩

theorem oneItemStore_history (value : Json) :
    LoopHistory [oneStepLoop] oneStepLoop (fun _ => none) 1 [.num 1] (fun _ => value) (oneItemStore value) where
  grows i := by
    cases i with
    | zero =>
      intro key step hk
      rw [oneItemStore] at hk
      have hne : key ≠ ⟨"body", 0⟩ := by
        rintro rfl
        cases hk
      exact ⟨step, by rw [oneItemStore, ObjectMap.get?_set_ne _ hne]; exact hk, fun _ => rfl⟩
    | succ i => exact .refl _
  original := ⟨_, ⟨"trigger", 0⟩, _, rfl, rfl, rfl, rfl, rfl⟩
  returned := by
    refine ⟨_, rfl, fun i hi => ?_⟩
    obtain rfl : i = 0 := Nat.lt_one_iff.1 hi
    exact ⟨_, rfl, rfl, rfl⟩

/-- A value that is no list ends the loop without a result, and an empty list leaves the done slot without one. -/
theorem oneItem_not_concatenated :
    (∀ fuel, runPasses (runPass (oneItemStore (.num 7)) [oneStepLoop] oneStepLoop (fun _ => none) 1) fuel 0 = none) ∧
      runPasses (runPass (oneItemStore (.arr [])) [oneStepLoop] oneStepLoop (fun _ => none) 1) 2 0 =
        some [[.null, .arr [.num 1]], [.null, .null]] := by
  constructor
  · intro fuel
    rcases fuel with _ | _ | fuel
    · rfl
    · rfl
    · rfl
  · rfl

theorem oneItem_partitioned : ∃ slices : List (List Json), slices.flatten = [.num 1] ∧ ∀ fuel, slices.length < fuel →
    runPasses (runPass (oneItemStore .null) [oneStepLoop] oneStepLoop (fun _ => none) 1) fuel 0 =
      some (slices.map (fun slice => [.null, .arr slice]) ++
        [doneSlots ((List.range slices.length).flatMap fun _ => [])]) := by
  obtain ⟨slices, hflatten, -, -, -, hrun, -⟩ := loop_partitions (by decide) (oneItemStore_history .null)
  exact ⟨slices, hflatten, hrun fun _ _ => .inl rfl⟩

end OnePass

end N8n.Engine
