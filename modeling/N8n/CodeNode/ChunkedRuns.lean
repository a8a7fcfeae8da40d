import N8n.Workflow.Interfaces

namespace N8n.CodeNode

structure InputDataChunkDefinition where
  startIndex : Nat
  count : Nat
  deriving DecidableEq

section DataRequest

variable {Item : Type}

structure TaskDataConnections (Item : Type) where
  main : Option (List (Option (List Item)))

/-- The `input` of the parameters of a data request. -/
structure InputParams where
  includeInput : Bool
  chunk : Option InputDataChunkDefinition

def TaskDataConnections.inputItems (inputData : TaskDataConnections Item) : Option (List Item) :=
  inputData.main.bind fun main => main.head?.join

def slice (start stop : Nat) (items : List Item) : List Item := (items.take stop).drop start

def stripChunkedInputData (chunk : InputDataChunkDefinition) (inputData : TaskDataConnections Item) :
    TaskDataConnections Item :=
  match inputData.inputItems with
  | none => inputData
  | some inputItems => ⟨some [some (slice chunk.startIndex (chunk.startIndex + chunk.count) inputItems)]⟩

def stripInputData (params : InputParams) (inputData : TaskDataConnections Item) : TaskDataConnections Item :=
  if params.includeInput then
    match params.chunk with
    | some chunk => stripChunkedInputData chunk inputData
    | none => inputData
  else ⟨none⟩

def reconstructConnectionInputItems (inputData : TaskDataConnections Item) (chunk : Option InputDataChunkDefinition) :
    List (Option Item) :=
  let inputItems := (inputData.inputItems.getD []).map some
  match chunk with
  | none => inputItems
  | some chunk => List.replicate chunk.startIndex none ++ inputItems

end DataRequest

/-- How the code ends for an item; it may return `undefined`. -/
inductive Outcome where
  | returned (result : Option Json)
  | threw (message : String)

inductive RunError where
  | execution (message : String)
  | notObject (itemIndex : Nat)
  /-- `null` passes for an object, and has no properties to look for. -/
  | typeError
  | array (itemIndex : Nat)
  | jsonNotObject (itemIndex : Nat)
  | binaryNotObject (itemIndex : Nat)
  | reservedKey (key : String) (itemIndex : Nat)
  | unknownKey (key : String) (itemIndex : Nat)
  deriving DecidableEq

def isTruthy : Json → Bool
  | .null => false
  | .bool b => b
  | .num q => q ≠ 0
  | .str s => s ≠ ""
  | .arr _ => true
  | .obj _ => true

def extractJsonData (result : Json) : Json :=
  match result.member "json", result.member "binary" with
  | some json, _ => json
  | none, some _ => .obj []
  | none, none => result

def pairedItem (index : Nat) : String × Json := ("pairedItem", .obj [("item", .num index)])

def returnData (result : Json) (index : Nat) : Json :=
  match (result.member "binary").filter isTruthy with
  | some binary => .obj [("json", extractJsonData result), pairedItem index, ("binary", binary)]
  | none => .obj [("json", extractJsonData result), pairedItem index]

section Runner

variable {Item : Type}

structure JSExecSettings (Item : Type) where
  code : Option Item → Nat → Outcome
  continueOnFail : Bool
  /-- Whether the input is requested, which it is if the code reads it. -/
  needsInput : Bool

structure Run (Item : Type) where
  calls : List (Option Item × Nat)
  result : Except RunError (List Json)

variable (settings : JSExecSettings Item)

/-- The results for an item: none if the code returns nothing. -/
def resultsFor (index : Nat) : Outcome → Except RunError (List Json)
  | .returned none => .ok []
  | .returned (some result) => .ok (if isTruthy result then [returnData result index] else [])
  | .threw message =>
    if settings.continueOnFail then .ok [.obj [("json", .obj [("error", .str message)]), pairedItem index]]
    else .error (.execution message)

def runItems (inputItems : List (Option Item)) : Nat → Nat → Run Item
  | _, 0 => ⟨[], .ok []⟩
  | index, count + 1 =>
    let item := inputItems[index]?.join
    match resultsFor settings index (settings.code item index) with
    | .error e => ⟨[(item, index)], .error e⟩
    | .ok results =>
      let rest := runItems inputItems (index + 1) count
      ⟨(item, index) :: rest.calls, rest.result.map (results ++ ·)⟩

def runForEachItem (inputItems : List (Option Item)) (chunk : Option InputDataChunkDefinition) : Run Item :=
  match chunk with
  | some chunk => runItems settings inputItems chunk.startIndex chunk.count
  | none => runItems settings inputItems 0 inputItems.length

def startJob (inputData : TaskDataConnections Item) (chunk : Option InputDataChunkDefinition) : Run Item :=
  let response := stripInputData ⟨settings.needsInput, chunk⟩ inputData
  runForEachItem settings (reconstructConnectionInputItems response chunk) chunk

end Runner

def isObject : Json → Bool
  | .obj _ => true
  | _ => false

def requiredN8nItemKeys : List String := ["json", "binary", "pairedItem", "error", "index"]

/-- `normalizeItems` of one item. -/
def normalizeItem (item : IDataObject) : IDataObject :=
  match field item "json", field item "binary" with
  | some _, _ => item
  | none, some binary => [("json", .obj (item.filter (·.1 ≠ "binary"))), ("binary", binary)]
  | none, none => [("json", .obj item)]

def validateItem (item : IDataObject) (itemIndex : Nat) : Except RunError Unit :=
  if ((field item "json").any isObject) = false then .error (.jsonNotObject itemIndex)
  else if ((field item "binary").all isObject) = false then .error (.binaryNotObject itemIndex)
  else .ok ()

def validateTopLevelKeys (item : IDataObject) (itemIndex : Nat) : Except RunError Unit :=
  match (item.map (·.1)).find? (· ∉ requiredN8nItemKeys), (item.map (·.1)).find? (· ∈ requiredN8nItemKeys) with
  | none, _ => .ok ()
  | some _, some reserved => .error (.reservedKey reserved itemIndex)
  | some unknown, none => .error (.unknownKey unknown itemIndex)

def validateRunCodeEachItem (executionResult : Json) (itemIndex : Nat) : Except RunError Json :=
  match executionResult with
  | .obj fields =>
    let returnData := normalizeItem fields
    match validateItem returnData itemIndex with
    | .error e => .error e
    | .ok _ => (validateTopLevelKeys returnData itemIndex).map fun _ => .obj returnData
  | .null => .error .typeError
  | .arr _ => .error (.array itemIndex)
  | _ => .error (.notObject itemIndex)

def validateResults : Nat → List Json → Except RunError (List Json)
  | _, [] => .ok []
  | itemIndex, result :: results =>
    match validateRunCodeEachItem result itemIndex with
    | .error e => .error e
    | .ok item => (validateResults (itemIndex + 1) results).map (item :: ·)

def chunkInputItems (chunkSize numInputItems : Nat) : List InputDataChunkDefinition :=
  let numChunks := (numInputItems + chunkSize - 1) / chunkSize
  (List.range numChunks).map fun i =>
    let startIdx := i * chunkSize
    ⟨startIdx, if i = numChunks - 1 then numInputItems - startIdx else chunkSize⟩

section Sandbox

variable {Item : Type} (settings : JSExecSettings Item) (inputData : TaskDataConnections Item)

def runChunks : List InputDataChunkDefinition → Run Item
  | [] => ⟨[], .ok []⟩
  | chunk :: chunks =>
    let job := startJob settings inputData (some chunk)
    match job.result.bind (validateResults chunk.startIndex) with
    | .error e => ⟨job.calls, .error e⟩
    | .ok results =>
      let rest := runChunks chunks
      ⟨job.calls ++ rest.calls, rest.result.map (results ++ ·)⟩

def runCodeForEachItem (chunkSize numInputItems : Nat) : Run Item :=
  runChunks settings inputData (chunkInputItems chunkSize numInputItems)

end Sandbox

variable {index : Nat}

section Job

variable {Item : Type} {settings : JSExecSettings Item} {inputItems : List (Option Item)} {items : List Item}

def JSExecSettings.passed (settings : JSExecSettings Item) (item : Item) : Option Item :=
  if settings.needsInput then some item else none

def JSExecSettings.OneResult (settings : JSExecSettings Item) (item : Item) (index : Nat) : Prop :=
  ∃ result, resultsFor settings index (settings.code (settings.passed item) index) = .ok [result]

def JSExecSettings.results (settings : JSExecSettings Item) : Nat → List Item → List Json
  | _, [] => []
  | index, item :: items =>
    ((resultsFor settings index (settings.code (settings.passed item) index)).toOption.getD []) ++
      settings.results (index + 1) items

def JSExecSettings.callsFor (settings : JSExecSettings Item) (index : Nat) (items : List Item) :
    List (Option Item × Nat) :=
  (items.zipIdx index).map fun p => (settings.passed p.1, p.2)

def JSExecSettings.OneEach (settings : JSExecSettings Item) (index : Nat) (items : List Item) : Prop :=
  ∀ p ∈ items.zipIdx index, settings.OneResult p.1 p.2

theorem JSExecSettings.OneEach.tail {item : Item} (h : settings.OneEach index (item :: items)) :
    settings.OneResult item index ∧ settings.OneEach (index + 1) items := by
  rw [OneEach, List.zipIdx_cons] at h
  exact ⟨h (item, index) List.mem_cons_self, fun p hp => h p (List.mem_cons_of_mem _ hp)⟩

theorem runItems_eq (hone : settings.OneEach index items)
    (hitems : ∀ j (hj : j < items.length), inputItems[index + j]?.join = settings.passed items[j]) :
    (runItems settings inputItems index items.length).calls = settings.callsFor index items ∧
      (runItems settings inputItems index items.length).result = .ok (settings.results index items) := by
  induction items generalizing index with
  | nil => exact ⟨rfl, rfl⟩
  | cons item items ih =>
    obtain ⟨⟨result, hresult⟩, hrest⟩ := hone.tail
    have hitem : inputItems[index]?.join = settings.passed item := hitems 0 (Nat.succ_pos _)
    have hnext : ∀ j (hj : j < items.length), inputItems[index + 1 + j]?.join = settings.passed items[j] := by
      intro j hj
      have h := hitems (j + 1) (Nat.succ_lt_succ hj)
      rw [show index + (j + 1) = index + 1 + j by omega] at h
      exact h
    obtain ⟨hcalls, hresults⟩ := ih hrest hnext
    rw [List.length_cons, runItems, hitem]
    simp only [hresult, hcalls, hresults]
    rw [JSExecSettings.results, hresult]
    exact ⟨by rw [JSExecSettings.callsFor, JSExecSettings.callsFor, List.zipIdx_cons, List.map_cons], rfl⟩

theorem slice_length {start count : Nat} (h : start + count ≤ items.length) :
    (slice start (start + count) items).length = count := by
  rw [slice, List.length_drop, List.length_take, Nat.min_eq_left h]
  omega

theorem reconstruct_getElem {start j : Nat} {chunkItems : List Item} (hj : j < chunkItems.length) :
    ((List.replicate start none ++ chunkItems.map some)[start + j]?).join = some chunkItems[j] := by
  rw [List.getElem?_append_right (by rw [List.length_replicate]; omega), List.length_replicate, Nat.add_sub_cancel_left,
    List.getElem?_map, List.getElem?_eq_getElem hj]
  rfl

theorem startJob_eq {rest : List (Option (List Item))} {start count : Nat} (h : start + count ≤ items.length)
    (hone : settings.OneEach start (slice start (start + count) items)) :
    (startJob settings ⟨some (some items :: rest)⟩ (some ⟨start, count⟩)).calls =
        settings.callsFor start (slice start (start + count) items) ∧
      (startJob settings ⟨some (some items :: rest)⟩ (some ⟨start, count⟩)).result =
        .ok (settings.results start (slice start (start + count) items)) := by
  have hitems : ∀ j (hj : j < (slice start (start + count) items).length),
      (reconstructConnectionInputItems (stripInputData ⟨settings.needsInput, some ⟨start, count⟩⟩
        ⟨some (some items :: rest)⟩) (some ⟨start, count⟩))[start + j]?.join =
      settings.passed (slice start (start + count) items)[j] := by
    intro j hj
    rw [JSExecSettings.passed]
    cases settings.needsInput with
    | true => exact reconstruct_getElem hj
    | false =>
      show (List.replicate start none ++ ([] : List Item).map some)[start + j]?.join = none
      rw [List.getElem?_eq_none (by simp)]
      rfl
  have hrun := runItems_eq hone hitems
  rw [slice_length h] at hrun
  exact hrun

theorem validateResults_append {results results' : List Json} :
    validateResults index (results ++ results') =
      match validateResults index results with
      | .error e => .error e
      | .ok validated => (validateResults (index + results.length) results').map (validated ++ ·) := by
  induction results generalizing index with
  | nil =>
    rw [List.nil_append, validateResults, List.length_nil, Nat.add_zero]
    cases validateResults index results' <;> rfl
  | cons result results ih =>
    rw [List.cons_append, validateResults, validateResults]
    cases validateRunCodeEachItem result index with
    | error e => rfl
    | ok item =>
      dsimp only
      rw [ih, List.length_cons, Nat.add_assoc, Nat.add_comm 1]
      cases validateResults (index + 1) results with
      | error e => rfl
      | ok validated =>
        dsimp only [Except.map]
        cases validateResults (index + (results.length + 1)) results' <;> rfl

theorem results_append {items' : List Item} :
    settings.results index (items ++ items') =
      settings.results index items ++ settings.results (index + items.length) items' := by
  induction items generalizing index with
  | nil => rfl
  | cons item items ih =>
    rw [List.cons_append, JSExecSettings.results, JSExecSettings.results, ih, List.append_assoc, List.length_cons,
      Nat.add_assoc, Nat.add_comm 1]

theorem callsFor_append {items' : List Item} :
    settings.callsFor index (items ++ items') =
      settings.callsFor index items ++ settings.callsFor (index + items.length) items' := by
  rw [JSExecSettings.callsFor, List.zipIdx_append, List.map_append]
  rfl

theorem JSExecSettings.OneEach.results_length (h : settings.OneEach index items) :
    (settings.results index items).length = items.length := by
  induction items generalizing index with
  | nil => rfl
  | cons item items ih =>
    obtain ⟨⟨result, hresult⟩, hrest⟩ := h.tail
    rw [JSExecSettings.results, List.length_append, ih hrest, hresult, List.length_cons, Nat.add_comm]
    rfl

inductive Tiles : Nat → Nat → List InputDataChunkDefinition → Prop
  | nil (stop : Nat) : Tiles stop stop []
  | cons (start count stop : Nat) (chunks : List InputDataChunkDefinition) (h : Tiles (start + count) stop chunks) :
      Tiles start stop (⟨start, count⟩ :: chunks)

theorem Tiles.le {start stop : Nat} {chunks : List InputDataChunkDefinition} (h : Tiles start stop chunks) :
    start ≤ stop := by
  induction h with
  | nil => exact Nat.le_refl _
  | cons start count stop chunks _ ih => exact (Nat.le_add_right _ _).trans ih

theorem slice_eq (start stop : Nat) : slice start stop items = (items.drop start).take (stop - start) := by
  rw [slice, List.drop_take]

theorem slice_split {start middle stop : Nat} (h : start ≤ middle) (h' : middle ≤ stop) :
    slice start stop items = slice start middle items ++ slice middle stop items := by
  have hdrop : items.drop middle = (items.drop start).drop (middle - start) := by
    rw [List.drop_drop, Nat.add_sub_cancel' h]
  rw [slice_eq, slice_eq, slice_eq, hdrop, ← List.take_add]
  congr 1
  omega

theorem JSExecSettings.OneEach.append {items' : List Item}
    (h : settings.OneEach index (items ++ items')) : settings.OneEach index items ∧
    settings.OneEach (index + items.length) items' := by
  rw [OneEach, List.zipIdx_append] at h
  exact ⟨fun p hp => h p (List.mem_append_left _ hp), fun p hp => h p (List.mem_append_right _ hp)⟩

theorem runChunks_eq {rest : List (Option (List Item))} {start stop : Nat} {chunks : List InputDataChunkDefinition}
    (ht : Tiles start stop chunks) (hle : stop ≤ items.length)
    (hone : settings.OneEach start (slice start stop items)) :
    (runChunks settings ⟨some (some items :: rest)⟩ chunks).result =
        validateResults start (settings.results start (slice start stop items)) ∧
      ((runChunks settings ⟨some (some items :: rest)⟩ chunks).result.isOk = true →
        (runChunks settings ⟨some (some items :: rest)⟩ chunks).calls =
          settings.callsFor start (slice start stop items)) := by
  induction ht with
  | nil stop =>
    rw [slice_eq, Nat.sub_self, List.take_zero]
    exact ⟨rfl, fun _ => rfl⟩
  | cons start count stop chunks ht ih =>
    have hsplit : slice start stop items =
        slice start (start + count) items ++ slice (start + count) stop items :=
      slice_split (Nat.le_add_right _ _) ht.le
    have hlength : (slice start (start + count) items).length = count := slice_length (ht.le.trans hle)
    rw [hsplit] at hone
    obtain ⟨hfirst, hlater⟩ := hone.append
    rw [hlength] at hlater
    obtain ⟨hresult, hcalls⟩ := ih hle hlater
    obtain ⟨hjobCalls, hjobResult⟩ := @startJob_eq _ settings items rest _ _ (ht.le.trans hle) hfirst
    have hresultsLength := hfirst.results_length
    rw [hlength] at hresultsLength
    rw [hsplit, results_append, callsFor_append, validateResults_append, hresultsLength, hlength, runChunks,
      hjobResult, hjobCalls]
    dsimp only [Except.bind]
    cases validateResults start (settings.results start (slice start (start + count) items)) with
    | error e => exact ⟨rfl, fun h => nomatch h⟩
    | ok validated =>
      dsimp only
      rw [hresult]
      refine ⟨rfl, fun hok => ?_⟩
      rw [hcalls]
      rw [hresult]
      cases hlast : validateResults (start + count)
          (settings.results (start + count) (slice (start + count) stop items)) with
      | error e =>
        rw [hlast] at hok
        cases hok
      | ok _ => rfl

theorem chunkInputItems_tiles {chunkSize : Nat} (hc : 0 < chunkSize) (n : Nat) :
    Tiles 0 n (chunkInputItems chunkSize n) := by
  have htail : ∀ k i, i + (k + 1) = (n + chunkSize - 1) / chunkSize →
      Tiles (i * chunkSize) n ((List.range' i (k + 1)).map fun i => ⟨i * chunkSize,
        if i = (n + chunkSize - 1) / chunkSize - 1 then n - i * chunkSize else chunkSize⟩) := by
    intro k
    induction k with
    | zero =>
      intro i hi
      have hlast : i * chunkSize ≤ n := by
        have hmul : (i + 1) * chunkSize ≤ n + chunkSize - 1 := by
          rw [hi]
          exact Nat.div_mul_le_self _ _
        rw [Nat.succ_mul] at hmul
        omega
      rw [List.range'_one, List.map_singleton, if_pos (by omega)]
      refine .cons _ _ _ _ ?_
      rw [Nat.add_sub_cancel' hlast]
      exact .nil n
    | succ k ih =>
      intro i hi
      rw [List.range'_succ, List.map_cons, if_neg (by omega)]
      refine .cons _ _ _ _ ?_
      have h := ih (i + 1) (by omega)
      rwa [Nat.succ_mul] at h
  rw [chunkInputItems, List.range_eq_range']
  cases hchunks : (n + chunkSize - 1) / chunkSize with
  | zero =>
    have hn : n = 0 := by
      rcases (Nat.div_eq_zero_iff).1 hchunks with h | h
      · exact absurd h (Nat.ne_of_gt hc)
      · omega
    subst hn
    exact .nil 0
  | succ k =>
    have h := htail k 0 (by omega)
    rw [Nat.zero_mul, hchunks] at h
    exact h

theorem slice_all : slice 0 items.length items = items := by
  rw [slice, List.drop_zero, List.take_length]

/--
If the code gives one result for each item, then running it in chunks comes to the same as running it in one job on the
whole input; and unless a result is refused, it is called once on each item, in order and with the item's own index.
-/
theorem runCodeForEachItem_eq_whole {rest : List (Option (List Item))} {chunkSize : Nat} (hc : 0 < chunkSize)
    (hone : settings.OneEach 0 items) :
    (runCodeForEachItem settings ⟨some (some items :: rest)⟩ chunkSize items.length).result =
        (runChunks settings ⟨some (some items :: rest)⟩ [⟨0, items.length⟩]).result ∧
      (settings.needsInput = true →
        (runCodeForEachItem settings ⟨some (some items :: rest)⟩ chunkSize items.length).result =
          (startJob settings ⟨some (some items :: rest)⟩ none).result.bind (validateResults 0)) ∧
      ((runCodeForEachItem settings ⟨some (some items :: rest)⟩ chunkSize items.length).result.isOk = true →
        (runCodeForEachItem settings ⟨some (some items :: rest)⟩ chunkSize items.length).calls =
          items.zipIdx.map fun p => (settings.passed p.1, p.2)) := by
  have hall : settings.OneEach 0 (slice 0 items.length items) := slice_all.symm ▸ hone
  have hwhole : Tiles 0 items.length [⟨0, items.length⟩] :=
    .cons 0 items.length items.length [] (by rw [Nat.zero_add]; exact .nil _)
  obtain ⟨hresult, hcalls⟩ := @runChunks_eq _ settings items rest _ _ _ (chunkInputItems_tiles hc items.length)
    (Nat.le_refl _) hall
  rw [slice_all] at hresult hcalls
  refine ⟨?_, fun hneeds => ?_, hcalls⟩
  · have hjob := (@runChunks_eq _ settings items rest _ _ _ hwhole (Nat.le_refl _) hall).1
    rw [runCodeForEachItem, hresult, hjob, slice_all]
  · have hitems : ∀ j (hj : j < items.length), (items.map some)[0 + j]?.join = settings.passed items[j] := by
      intro j hj
      rw [Nat.zero_add, List.getElem?_map, List.getElem?_eq_getElem hj, JSExecSettings.passed, hneeds]
      rfl
    have hjob : startJob settings ⟨some (some items :: rest)⟩ none =
        runItems settings (items.map some) 0 items.length := by
      rw [startJob, runForEachItem, stripInputData, hneeds]
      show runItems settings (items.map some) 0 (items.map some).length = _
      rw [List.length_map]
    rw [runCodeForEachItem, hresult, hjob, (runItems_eq hone hitems).2]
    rfl

end Job

def wrapSettings : JSExecSettings String where
  code item _ := .returned (some (.obj [("json", .obj [("a", .str (item.getD ""))])]))
  continueOnFail := false
  needsInput := true

theorem runCodeForEachItem_eq_whole_three :
    (runCodeForEachItem wrapSettings ⟨some [some ["x", "y", "z"]]⟩ 2 3).result =
        (runChunks wrapSettings ⟨some [some ["x", "y", "z"]]⟩ [⟨0, 3⟩]).result ∧
      (runCodeForEachItem wrapSettings ⟨some [some ["x", "y", "z"]]⟩ 2 3).calls =
        [(some "x", 0), (some "y", 1), (some "z", 2)] := by
  obtain ⟨hresult, -, hcalls⟩ :=
    @runCodeForEachItem_eq_whole _ wrapSettings ["x", "y", "z"] [] 2 (by decide) fun _ _ => ⟨_, rfl⟩
  exact ⟨hresult, hcalls rfl⟩

def numberSettings : JSExecSettings String where
  code _ _ := .returned (some (.num 5))
  continueOnFail := false
  needsInput := true

/-- The number 5 is one result for each item, but it is refused after the first chunk; the last item is not reached. -/
theorem refused_result_ends :
    numberSettings.OneEach 0 ["x", "y", "z"] ∧
      (runCodeForEachItem numberSettings ⟨some [some ["x", "y", "z"]]⟩ 2 3).calls ≠
        ["x", "y", "z"].zipIdx.map fun p => (numberSettings.passed p.1, p.2) :=
  ⟨fun _ _ => ⟨_, rfl⟩, by decide⟩

end N8n.CodeNode
