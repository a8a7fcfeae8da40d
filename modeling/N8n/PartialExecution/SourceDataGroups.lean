import N8n.PartialExecution.DirectedGraph

namespace N8n.PartialExecution

open Lib

structure TaskRun where
  data : Option (ObjectMap String NodeOutput) := none

abbrev RunData := ObjectMap String (List TaskRun)

abbrev PinData := ObjectMap String (List INodeExecutionData)

def slotItems : Slot → Option (List INodeExecutionData)
  | .items data => some data
  | .null => none
  | .undefined => none

/-- A negative index counts from the end. -/
def elementAt {α : Type} (as : List α) (i : Int) : Option α :=
  if 0 ≤ i then as[i.toNat]? else if 0 ≤ i + as.length then as[(i + as.length).toNat]? else none

/-- The members that every object inherits have no `at`. -/
def getIncomingData (runData : RunData) (nodeName : String) (runIndex : Int) (connectionType : String)
    (outputIndex : Nat) : Except GraphError (Option (List INodeExecutionData)) :=
  match runData.get? nodeName with
  | none => if nodeName ∈ inheritedNames then .error .typeError else .ok none
  | some runs =>
    match (elementAt runs runIndex).bind (·.data) with
    | none => .ok none
    | some data =>
      match data.get? connectionType with
      | none => if connectionType ∈ inheritedNames then .error .typeError else .ok none
      | some outputs => .ok (outputs[outputIndex]?.bind slotItems)

def getRunIndexLength (runData : RunData) (nodeName : String) : Nat :=
  match runData.get? nodeName with
  | some runs => runs.length
  | none => (functionLength nodeName).getD 0

structure IncomingData where
  data : List INodeExecutionData
  runIndex : Nat

/-- The loop of `getIncomingDataFromAnyRun` over the run indexes that are left. -/
def incomingDataLoop (runData : RunData) (nodeName connectionType : String) (outputIndex : Nat) :
    List Nat → Except GraphError (Option IncomingData)
  | [] => .ok none
  | runIndex :: runIndexes =>
    match getIncomingData runData nodeName runIndex connectionType outputIndex with
    | .error e => .error e
    | .ok (some data) =>
      if data.length > 0 then .ok (some ⟨data, runIndex⟩)
      else incomingDataLoop runData nodeName connectionType outputIndex runIndexes
    | .ok none => incomingDataLoop runData nodeName connectionType outputIndex runIndexes

/-- The first run with items on the output. -/
def getIncomingDataFromAnyRun (runData : RunData) (nodeName connectionType : String) (outputIndex : Nat) :
    Except GraphError (Option IncomingData) :=
  incomingDataLoop runData nodeName connectionType outputIndex (List.range (getRunIndexLength runData nodeName))

section Reads

/-- The items that the run data holds for an output of a run. -/
def outputItems (runData : RunData) (nodeName : String) (runIndex : Nat) (connectionType : String)
    (outputIndex : Nat) : Option (List INodeExecutionData) :=
  (runData.get? nodeName).bind fun runs => runs[runIndex]?.bind fun run => run.data.bind fun data =>
    (data.get? connectionType).bind fun outputs => outputs[outputIndex]?.bind slotItems

variable {runData : RunData} {nodeName connectionType : String} {runIndex outputIndex : Nat}

theorem elementAt_natCast {α : Type} (as : List α) (i : Nat) : elementAt as (i : Int) = as[i]? := by
  rw [elementAt, if_pos (Int.natCast_nonneg i), Int.toNat_natCast]

theorem getIncomingData_ok {found : Option (List INodeExecutionData)}
    (h : getIncomingData runData nodeName runIndex connectionType outputIndex = .ok found) :
    outputItems runData nodeName runIndex connectionType outputIndex = found := by
  rw [getIncomingData] at h
  rw [outputItems]
  split at h
  · next hnone =>
    rw [hnone]
    split at h
    · cases h
    · exact Except.ok.inj h
  · next runs hruns =>
    rw [elementAt_natCast] at h
    rw [hruns, Option.bind_some, ← Option.bind_assoc]
    split at h
    · next hnone =>
      rw [hnone]
      exact Except.ok.inj h
    · next data hdata =>
      rw [hdata, Option.bind_some]
      split at h
      · next htype =>
        rw [htype]
        split at h
        · cases h
        · exact Except.ok.inj h
      · next outputs houtputs =>
        rw [houtputs]
        exact Except.ok.inj h

/-- Names that no object inherits are read as the run data has them. -/
theorem getIncomingData_of_own (hname : runData.has nodeName = true ∨ nodeName ∉ inheritedNames)
    (htype : connectionType ∉ inheritedNames) (i : Int) (outputIndex : Nat) :
    ∃ found, getIncomingData runData nodeName i connectionType outputIndex = .ok found := by
  rw [getIncomingData]
  split
  · next hnone =>
    have hnotin : nodeName ∉ inheritedNames := hname.resolve_left (by simp [ObjectMap.has, hnone])
    exact ⟨none, if_neg hnotin⟩
  · next runs hruns =>
    split
    · exact ⟨none, rfl⟩
    · split
      · exact ⟨none, if_neg htype⟩
      · exact ⟨_, rfl⟩

theorem incomingDataLoop_some {found : IncomingData} {runIndexes : List Nat}
    (h : incomingDataLoop runData nodeName connectionType outputIndex runIndexes = .ok (some found)) :
    outputItems runData nodeName found.runIndex connectionType outputIndex = some found.data ∧ found.data ≠ [] := by
  induction runIndexes with
  | nil => cases h
  | cons runIndex runIndexes ih =>
    rw [incomingDataLoop] at h
    split at h
    · cases h
    · next data hdata =>
      split at h
      · next hlength =>
        obtain rfl := Option.some.inj (Except.ok.inj h)
        exact ⟨getIncomingData_ok hdata, List.ne_nil_of_length_pos hlength⟩
      · exact ih h
    · exact ih h

theorem incomingDataLoop_none {runIndexes : List Nat}
    (h : incomingDataLoop runData nodeName connectionType outputIndex runIndexes = .ok none) :
    ∀ runIndex ∈ runIndexes, ∀ data,
      outputItems runData nodeName runIndex connectionType outputIndex = some data → data = [] := by
  induction runIndexes with
  | nil => exact fun runIndex hr => absurd hr List.not_mem_nil
  | cons runIndex runIndexes ih =>
    rw [incomingDataLoop] at h
    rw [List.forall_mem_cons]
    split at h
    · cases h
    · next data hdata =>
      split at h
      · cases h
      · next hlength =>
        refine ⟨fun data' hd => ?_, ih h⟩
        obtain rfl := Option.some.inj ((getIncomingData_ok hdata).symm.trans hd)
        exact List.length_eq_zero_iff.1 (Nat.eq_zero_of_not_pos hlength)
    · next hnone =>
      refine ⟨fun data' hd => ?_, ih h⟩
      rw [getIncomingData_ok hnone] at hd
      cases hd

theorem getIncomingDataFromAnyRun_some {found : IncomingData}
    (h : getIncomingDataFromAnyRun runData nodeName connectionType outputIndex = .ok (some found)) :
    outputItems runData nodeName found.runIndex connectionType outputIndex = some found.data ∧ found.data ≠ [] :=
  incomingDataLoop_some h

theorem getIncomingDataFromAnyRun_none
    (h : getIncomingDataFromAnyRun runData nodeName connectionType outputIndex = .ok none)
    {data : List INodeExecutionData}
    (hdata : outputItems runData nodeName runIndex connectionType outputIndex = some data) : data = [] := by
  refine incomingDataLoop_none h runIndex ?_ data hdata
  obtain ⟨runs, hruns, hrest⟩ := Option.bind_eq_some_iff.1 hdata
  obtain ⟨run, hrun, -⟩ := Option.bind_eq_some_iff.1 hrest
  rw [List.mem_range, getRunIndexLength, hruns]
  exact (List.getElem?_eq_some_iff.1 hrun).1

theorem getIncomingDataFromAnyRun_of_own (hname : runData.has nodeName = true ∨ nodeName ∉ inheritedNames)
    (htype : connectionType ∉ inheritedNames) (outputIndex : Nat) :
    ∃ found, getIncomingDataFromAnyRun runData nodeName connectionType outputIndex = .ok found := by
  have hall : ∀ runIndexes, ∃ found,
      incomingDataLoop runData nodeName connectionType outputIndex runIndexes = .ok found := by
    intro runIndexes
    induction runIndexes with
    | nil => exact ⟨none, rfl⟩
    | cons runIndex runIndexes ih =>
      obtain ⟨found, hfound⟩ := getIncomingData_of_own hname htype (runIndex : Int) outputIndex
      rw [incomingDataLoop, hfound]
      cases found with
      | none => exact ih
      | some data =>
        dsimp only
        split
        · exact ⟨_, rfl⟩
        · exact ih
  exact hall _

end Reads

variable {N : Type} {withData withoutData cs : List (GraphConnection N)} {c : GraphConnection N}

/-- `complete` tells whether all connections of the group have data. -/
structure SourceConnectionGroup (N : Type) where
  complete : Bool
  connections : List (GraphConnection N)
deriving DecidableEq

def newGroup : SourceConnectionGroup N := ⟨true, []⟩

def minInputIndex (withData withoutData : List (GraphConnection N)) : Nat :=
  (((withData ++ withoutData).map (·.inputIndex)).min?).getD 0

theorem minInputIndex_mem (h : ¬ (withData.length = 0 ∧ withoutData.length = 0)) :
    ∃ c ∈ withData ++ withoutData, c.inputIndex = minInputIndex withData withoutData := by
  rw [minInputIndex]
  cases hm : ((withData ++ withoutData).map (·.inputIndex)).min? with
  | none =>
    rw [List.min?_eq_none_iff, List.map_eq_nil_iff, List.append_eq_nil_iff] at hm
    exact absurd ⟨List.length_eq_zero_iff.2 hm.1, List.length_eq_zero_iff.2 hm.2⟩ h
  | some m => exact List.mem_map.1 (List.min?_mem hm)

def turnsLeft (withData withoutData : List (GraphConnection N)) (inputIndex : Nat) : Nat :=
  2 * (withData.length + withoutData.length) +
    if ∃ c ∈ withData ++ withoutData, c.inputIndex = inputIndex then 0 else 1

theorem turnsLeft_take {withData' withoutData' : List (GraphConnection N)} {i j : Nat}
    (h : withData'.length + withoutData'.length + 1 = withData.length + withoutData.length) :
    turnsLeft withData' withoutData' j < turnsLeft withData withoutData i := by
  rw [turnsLeft, turnsLeft]
  split_ifs <;> omega

theorem turnsLeft_start {i : Nat}
    (h : ¬ (withData.length = 0 ∧ withoutData.length = 0)) (hi : ¬ ∃ c ∈ withData ++ withoutData, c.inputIndex = i) :
    turnsLeft withData withoutData (minInputIndex withData withoutData) < turnsLeft withData withoutData i := by
  rw [turnsLeft, turnsLeft, if_pos (minInputIndex_mem h), if_neg hi]
  exact Nat.lt_succ_self _

theorem find_perm {p : GraphConnection N → Bool} (h : cs.find? p = some c) : (c :: cs.eraseP p).Perm cs := by
  induction cs with
  | nil => cases h
  | cons d cs ih =>
    by_cases hd : p d = true
    · rw [List.find?_cons_of_pos hd] at h
      rw [← Option.some.inj h, List.eraseP_cons_of_pos hd]
    · rw [List.find?_cons_of_neg hd] at h
      rw [List.eraseP_cons_of_neg hd]
      exact (List.Perm.swap _ _ _).trans ((ih h).cons d)

theorem not_exists_of_find {i : Nat}
    (h : withData.find? (·.inputIndex = i) = none) (h' : withoutData.find? (·.inputIndex = i) = none) :
    ¬ ∃ c ∈ withData ++ withoutData, c.inputIndex = i := by
  rintro ⟨c, hc, hi⟩
  rcases List.mem_append.1 hc with hc | hc
  · exact List.find?_eq_none.1 h c hc (by simpa using hi)
  · exact List.find?_eq_none.1 h' c hc (by simpa using hi)

/-- The loop of `getSourceDataGroups` at the turn for one input index. -/
def groupLoop (withData withoutData : List (GraphConnection N)) (groups : List (SourceConnectionGroup N))
    (currentGroup : SourceConnectionGroup N) (inputIndex : Nat) : List (SourceConnectionGroup N) :=
  if _ : withData.length = 0 ∧ withoutData.length = 0 then groups ++ [currentGroup]
  else
    match hw : withData.find? (·.inputIndex = inputIndex) with
    | some connection =>
      groupLoop (withData.eraseP (·.inputIndex = inputIndex)) withoutData groups
        { currentGroup with connections := currentGroup.connections ++ [connection] } (inputIndex + 1)
    | none =>
      match ho : withoutData.find? (·.inputIndex = inputIndex) with
      | some connection =>
        groupLoop withData (withoutData.eraseP (·.inputIndex = inputIndex)) groups
          ⟨false, currentGroup.connections ++ [connection]⟩ (inputIndex + 1)
      | none => groupLoop withData withoutData (groups ++ [currentGroup]) newGroup (minInputIndex withData withoutData)
termination_by turnsLeft withData withoutData inputIndex
decreasing_by
  · have := (find_perm hw).length_eq
    exact turnsLeft_take (by rw [List.length_cons] at this; omega)
  · have := (find_perm ho).length_eq
    exact turnsLeft_take (by rw [List.length_cons] at this; omega)
  · exact turnsLeft_start ‹_› (not_exists_of_find hw ho)

section Turns

variable {withData withoutData : List (GraphConnection N)} (groups : List (SourceConnectionGroup N))
  (currentGroup : SourceConnectionGroup N) {inputIndex : Nat} {connection : GraphConnection N}

theorem groupLoop_done (h : withData.length = 0 ∧ withoutData.length = 0) :
    groupLoop withData withoutData groups currentGroup inputIndex = groups ++ [currentGroup] := by
  rw [groupLoop, dif_pos h]

theorem groupLoop_withData (hw : withData.find? (·.inputIndex = inputIndex) = some connection) :
    groupLoop withData withoutData groups currentGroup inputIndex =
      groupLoop (withData.eraseP (·.inputIndex = inputIndex)) withoutData groups
        { currentGroup with connections := currentGroup.connections ++ [connection] } (inputIndex + 1) := by
  have hmore : ¬ (withData.length = 0 ∧ withoutData.length = 0) := by
    rintro ⟨hnil, -⟩
    rw [List.length_eq_zero_iff.1 hnil] at hw
    cases hw
  rw [groupLoop, dif_neg hmore]
  split
  · next connection' hw' =>
    obtain rfl := Option.some.inj (hw'.symm.trans hw)
    rfl
  · next hn => exact absurd (hn.symm.trans hw) (by simp)

theorem groupLoop_withoutData (hw : withData.find? (·.inputIndex = inputIndex) = none)
    (ho : withoutData.find? (·.inputIndex = inputIndex) = some connection) :
    groupLoop withData withoutData groups currentGroup inputIndex =
      groupLoop withData (withoutData.eraseP (·.inputIndex = inputIndex)) groups
        ⟨false, currentGroup.connections ++ [connection]⟩ (inputIndex + 1) := by
  have hmore : ¬ (withData.length = 0 ∧ withoutData.length = 0) := by
    rintro ⟨-, hnil⟩
    rw [List.length_eq_zero_iff.1 hnil] at ho
    cases ho
  rw [groupLoop, dif_neg hmore]
  split
  · next connection' hw' => exact absurd (hw'.symm.trans hw) (by simp)
  · split
    · next connection' ho' =>
      obtain rfl := Option.some.inj (ho'.symm.trans ho)
      rfl
    · next hn => exact absurd (hn.symm.trans ho) (by simp)

theorem groupLoop_next (h : ¬ (withData.length = 0 ∧ withoutData.length = 0))
    (hw : withData.find? (·.inputIndex = inputIndex) = none)
    (ho : withoutData.find? (·.inputIndex = inputIndex) = none) :
    groupLoop withData withoutData groups currentGroup inputIndex =
      groupLoop withData withoutData (groups ++ [currentGroup]) newGroup (minInputIndex withData withoutData) := by
  rw [groupLoop, dif_neg h]
  split
  · next connection' hw' => exact absurd (hw'.symm.trans hw) (by simp)
  · split
    · next connection' ho' => exact absurd (ho'.symm.trans ho) (by simp)
    · rfl

end Turns

variable [Named N] [DecidableEq N]

/-- Whether a plain object has a member of the name, of its own or an inherited one. -/
def hasMember {V : Type} (object : ObjectMap String V) (key : String) : Bool :=
  object.has key || decide (key ∈ inheritedNames)

def hasData (runData : RunData) (pinnedData : PinData) (c : GraphConnection N) : Bool :=
  hasMember runData (name c.fromNode) || hasMember pinnedData (name c.fromNode)

/-- By input index, then by the name of the source as `localeCompare` orders the names. -/
def sortByInputIndexThenByName (localeCompare : String → String → Int) (c d : GraphConnection N) : Int :=
  if c.inputIndex = d.inputIndex then localeCompare (name c.fromNode) (name d.fromNode)
  else (c.inputIndex : Int) - d.inputIndex

def sortConnections (localeCompare : String → String → Int) (cs : List (GraphConnection N)) : List (GraphConnection N) :=
  cs.insertionSort fun c d => sortByInputIndexThenByName localeCompare c d ≤ 0

def connectionsWithData (g : DirectedGraph N) (node : N) (hasData : GraphConnection N → Bool) :
    List (GraphConnection N) := (g.getConnections.filter (·.toNode = node)).filter hasData

def connectionsWithoutData (g : DirectedGraph N) (node : N) (hasData : GraphConnection N → Bool) :
    List (GraphConnection N) :=
  (g.getConnections.filter (·.toNode = node)).filter fun c => !hasData c && c.type = "main"

def getSourceDataGroups (localeCompare : String → String → Int) (g : DirectedGraph N) (node : N) (runData : RunData)
    (pinnedData : PinData) : List (SourceConnectionGroup N) :=
  let withData := sortConnections localeCompare (connectionsWithData g node (hasData runData pinnedData))
  let withoutData := sortConnections localeCompare (connectionsWithoutData g node (hasData runData pinnedData))
  if withData.length = 0 ∧ withoutData.length = 0 then []
  else groupLoop withData withoutData [] newGroup (minInputIndex withData withoutData)

section Groups

def Successive (first : Nat) (cs : List (GraphConnection N)) : Prop :=
  ∀ {i c}, cs[i]? = some c → c.inputIndex = first + i

omit [Named N] [DecidableEq N] in
theorem Successive.concat {first : Nat} (h : Successive first cs)
    (hc : c.inputIndex = first + cs.length) : Successive first (cs ++ [c]) := by
  intro i c' hi
  rw [List.getElem?_append] at hi
  split at hi
  · exact h hi
  · next hlt =>
    rw [List.getElem?_singleton] at hi
    split at hi
    · next he =>
      rw [← Option.some.inj hi, hc]
      omega
    · cases hi

omit [Named N] [DecidableEq N] in
theorem Successive.unique {first : Nat} (h : Successive first cs)
    {d : GraphConnection N} (hc : c ∈ cs) (hd : d ∈ cs) (he : c.inputIndex = d.inputIndex) : c = d := by
  obtain ⟨i, hi⟩ := List.getElem?_of_mem hc
  obtain ⟨j, hj⟩ := List.getElem?_of_mem hd
  have hij : i = j := by
    have hci := h hi
    have hdj := h hj
    omega
  rw [hij, hj] at hi
  exact (Option.some.inj hi).symm

/-- A group has successive inputs, and if it is complete, connections of one kind only. -/
structure GroupOk (withData : GraphConnection N → Prop) (group : SourceConnectionGroup N) : Prop where
  successive : ∃ first, Successive first group.connections
  complete : group.complete = true → ∀ c ∈ group.connections, withData c

omit [Named N] [DecidableEq N] in
theorem groupLoop_spec {kind : GraphConnection N → Prop} (withData withoutData : List (GraphConnection N))
    (groups : List (SourceConnectionGroup N)) (currentGroup : SourceConnectionGroup N) (inputIndex : Nat)
    (hdata : ∀ c ∈ withData, kind c) (hgroups : ∀ g ∈ groups, GroupOk kind g)
    (hcurrent : ∃ first, first + currentGroup.connections.length = inputIndex ∧
      Successive first currentGroup.connections)
    (hcomplete : currentGroup.complete = true → ∀ c ∈ currentGroup.connections, kind c) :
    (∀ g ∈ groupLoop withData withoutData groups currentGroup inputIndex, GroupOk kind g) ∧
      ((groupLoop withData withoutData groups currentGroup inputIndex).flatMap (·.connections)).Perm
        (groups.flatMap (·.connections) ++ currentGroup.connections ++ withData ++ withoutData) := by
  obtain ⟨first, hlen, hsucc⟩ := hcurrent
  induction withData, withoutData, groups, currentGroup, inputIndex using groupLoop.induct generalizing first with
  | case1 withData withoutData groups currentGroup inputIndex hdone =>
    rw [groupLoop_done _ _ hdone, List.length_eq_zero_iff.1 hdone.1, List.length_eq_zero_iff.1 hdone.2]
    refine ⟨fun g hg => ?_, by simp⟩
    rcases List.mem_append.1 hg with hg | hg
    · exact hgroups g hg
    · rw [List.mem_singleton.1 hg]
      exact ⟨⟨first, hsucc⟩, hcomplete⟩
  | case2 withData withoutData groups currentGroup inputIndex hdone connection hw ih =>
    have hm := List.mem_of_find?_eq_some hw
    have hi : connection.inputIndex = inputIndex := by simpa using List.find?_some hw
    rw [groupLoop_withData _ _ hw]
    obtain ⟨hok, hperm⟩ := ih (fun c hc => hdata c (List.mem_of_mem_eraseP hc)) hgroups
      (fun hc c hm' => by
        rcases List.mem_append.1 hm' with hm' | hm'
        · exact hcomplete hc c hm'
        · exact List.mem_singleton.1 hm' ▸ hdata _ hm)
      first (by simp; omega) (hsucc.concat (by omega))
    refine ⟨hok, hperm.trans ?_⟩
    rw [← List.append_assoc, List.append_assoc _ [connection], List.singleton_append]
    exact ((find_perm hw).append_left _).append_right _
  | case3 withData withoutData groups currentGroup inputIndex hdone hw connection ho ih =>
    have hi : connection.inputIndex = inputIndex := by simpa using List.find?_some ho
    rw [groupLoop_withoutData _ _ hw ho]
    obtain ⟨hok, hperm⟩ := ih hdata hgroups (fun hc => nomatch hc)
      first (by simp; omega) (hsucc.concat (by omega))
    refine ⟨hok, hperm.trans ?_⟩
    rw [← List.append_assoc, List.append_assoc _ [connection], List.append_assoc _ _ (withoutData.eraseP _),
      List.append_assoc _ withData withoutData]
    exact (List.perm_middle.symm.trans ((find_perm ho).append_left withData)).append_left _
  | case4 withData withoutData groups currentGroup inputIndex hdone hw ho ih =>
    rw [groupLoop_next _ _ hdone hw ho]
    obtain ⟨hok, hperm⟩ := ih hdata
      (fun g hg => by
        rcases List.mem_append.1 hg with hg | hg
        · exact hgroups g hg
        · rw [List.mem_singleton.1 hg]
          exact ⟨⟨first, hsucc⟩, hcomplete⟩)
      (fun _ c hc => nomatch hc) (minInputIndex withData withoutData) rfl (fun hc => nomatch hc)
    refine ⟨hok, hperm.trans (List.Perm.of_eq ?_)⟩
    simp [newGroup]

omit [DecidableEq N] in
theorem getConnections_nodup (g : DirectedGraph N) : g.getConnections.Nodup := by
  rw [DirectedGraph.getConnections, List.Nodup, List.pairwise_map]
  refine (List.pairwise_map.1 g.connections.nodup).imp_of_mem fun {e f} he hf hne heq => hne ?_
  have hek := g.connections_keyed ((ObjectMap.mem_entries (k := e.1) (v := e.2) _).1 he)
  have hfk := g.connections_keyed ((ObjectMap.mem_entries (k := f.1) (v := f.2) _).1 hf)
  rw [← hek, ← hfk, heq]

theorem mem_connections {g : DirectedGraph N} {node : N} {data : GraphConnection N → Bool} :
    c ∈ connectionsWithData g node data ++ connectionsWithoutData g node data ↔
      c ∈ g.getConnections ∧ c.toNode = node ∧ (data c = true ∨ c.type = "main") := by
  rw [List.mem_append, connectionsWithData, connectionsWithoutData]
  simp only [List.mem_filter, decide_eq_true_eq, Bool.and_eq_true, Bool.not_eq_true']
  by_cases h : data c = true
  · simp [h]
  · simp [h, and_assoc]

theorem connections_nodup (g : DirectedGraph N) (node : N) (data : GraphConnection N → Bool) :
    (connectionsWithData g node data ++ connectionsWithoutData g node data).Nodup := by
  have hto := (getConnections_nodup g).filter (·.toNode = node)
  refine (hto.filter _).append (hto.filter _) fun c hc hc' => ?_
  have h := (List.mem_filter.1 hc).2
  have h' := (List.mem_filter.1 hc').2
  rw [h] at h'
  cases h'

omit [DecidableEq N] in
theorem sortConnections_perm (localeCompare : String → String → Int) (cs : List (GraphConnection N)) :
    (sortConnections localeCompare cs).Perm cs := List.perm_insertionSort _ cs

theorem getSourceDataGroups_spec (localeCompare : String → String → Int) (g : DirectedGraph N) (node : N)
    (runData : RunData) (pinnedData : PinData) :
    (∀ group ∈ getSourceDataGroups localeCompare g node runData pinnedData,
        GroupOk (hasData runData pinnedData · = true) group) ∧
      ((getSourceDataGroups localeCompare g node runData pinnedData).flatMap (·.connections)).Perm
        (connectionsWithData g node (hasData runData pinnedData) ++
          connectionsWithoutData g node (hasData runData pinnedData)) := by
  have hwith := sortConnections_perm localeCompare (connectionsWithData g node (hasData runData pinnedData))
  have hwithout := sortConnections_perm localeCompare (connectionsWithoutData g node (hasData runData pinnedData))
  rw [getSourceDataGroups]
  split
  · next h =>
    refine ⟨(fun group hg => nomatch hg), ?_⟩
    have hw := hwith.length_eq
    have ho := hwithout.length_eq
    rw [List.length_eq_zero_iff.1 (hw.symm.trans h.1), List.length_eq_zero_iff.1 (ho.symm.trans h.2)]
    exact List.Perm.refl _
  · obtain ⟨hok, hperm⟩ := @groupLoop_spec N (hasData runData pinnedData · = true)
      (sortConnections localeCompare (connectionsWithData g node (hasData runData pinnedData)))
      (sortConnections localeCompare (connectionsWithoutData g node (hasData runData pinnedData))) [] newGroup
      (minInputIndex _ _) (fun c hc => (List.mem_filter.1 (hwith.mem_iff.1 hc)).2) (fun group hg => nomatch hg)
      ⟨_, rfl, fun hc => nomatch hc⟩ (fun _ c hc => nomatch hc)
    exact ⟨hok, hperm.trans (hwith.append hwithout)⟩

theorem mem_groups {localeCompare : String → String → Int} {g : DirectedGraph N} {node : N} {runData : RunData}
    {pinnedData : PinData} :
    (∃ group ∈ getSourceDataGroups localeCompare g node runData pinnedData, c ∈ group.connections) ↔
      c ∈ g.getConnections ∧ c.toNode = node ∧ (hasData runData pinnedData c = true ∨ c.type = "main") := by
  rw [← List.mem_flatMap, (getSourceDataGroups_spec localeCompare g node runData pinnedData).2.mem_iff, mem_connections]

theorem groups_nodup (localeCompare : String → String → Int) (g : DirectedGraph N) (node : N) (runData : RunData)
    (pinnedData : PinData) :
    ((getSourceDataGroups localeCompare g node runData pinnedData).flatMap (·.connections)).Nodup :=
  (getSourceDataGroups_spec localeCompare g node runData pinnedData).2.nodup_iff.2 (connections_nodup g node _)

end Groups

end N8n.PartialExecution
