import N8n.Workflow.Connections
import N8n.Lib.Loop

namespace N8n.WorkflowDiff.Connections

open Lib

structure ConnectionValue where
  index : Nat
  connection : IConnection

structure ConnectionEntry where
  sourceIndex : Nat
  value : ConnectionValue

abbrev INodeConnectionsDiff := ObjectMap String (List ConnectionEntry)

structure ConnectionsDiff where
  added : ObjectMap String INodeConnectionsDiff := .empty
  removed : ObjectMap String INodeConnectionsDiff := .empty

inductive DiffFailure where
  | typeError
  /-- The entry is pushed onto a member of `Object.prototype`, or the push throws. -/
  | shared (nodeName inputName : String)
  deriving DecidableEq

section Compare

variable (stringify : IConnection ↪ String)

/-- The connections by their text, in the order in which the texts first occur. -/
def groupByValue (connections : List IConnection) : List (String × List ConnectionValue) :=
  connections.zipIdx.foldl (fun byValue (connection, index) =>
    let key := stringify connection
    Entries.put key (((Entries.lookup key byValue).getD []) ++ [⟨index, connection⟩]) byValue) []

def surplus (groups others : List (String × List ConnectionValue)) : List ConnectionValue :=
  groups.flatMap fun group => group.2.drop (((Entries.lookup group.1 others).map List.length).getD 0)

/-- What `connections[nodeName]?.[inputName] ?? []` evaluates to. A function among the inherited members has
no element at any index, so it is read as the empty list. -/
inductive InputReading where
  | places (places : NodeInputConnections)
  /-- An object with no numeric length. -/
  | sizeless
  /-- A member whose reading throws, or a string, which has no `forEach`. -/
  | throwing

def readInput (connections : IConnections) (nodeName inputName : String) : InputReading :=
  match connections.get? nodeName with
  | some byType =>
    match byType.get? inputName with
    | some places => .places places
    | none => if inputName = "__proto__" then .sizeless else .places []
  | none =>
    if nodeName ∈ inheritedNames then
      -- `Object.prototype` itself has functions only, and no prototype
      if nodeName = "__proto__" then .places []
      else if inputName ∈ ["name", "caller", "arguments"] then .throwing
      else if inputName = "length" ∨ nodeName = "constructor" ∧ inputName = "prototype" then .sizeless
      else .places []
    else if inputName = "__proto__" then .sizeless
    else .places []

/-- The names that `Object.keys` lists. The members of an inherited value are not enumerable. -/
def inputNames (connections : IConnections) (nodeName : String) : List String :=
  ((connections.get? nodeName).map ObjectMap.keys).getD []

/-- `new Set([...names, ...others])`, for names without repetition. -/
def unionNames (names others : List String) : List String := names ++ others.filter (· ∉ names)

def record (nodeName inputName : String) (sourceIndex : Nat) (diff : ObjectMap String INodeConnectionsDiff)
    (value : ConnectionValue) : Except DiffFailure (ObjectMap String INodeConnectionsDiff) :=
  if nodeName ∈ inheritedNames then .error (.shared nodeName inputName)
  else if inputName ∈ inheritedNames then .error .typeError
  else
    let node := (diff.get? nodeName).getD .empty
    .ok (diff.set nodeName (node.set inputName ((node.get? inputName).getD [] ++ [⟨sourceIndex, value⟩])))

def placeAt (places : NodeInputConnections) (sourceIndex : Nat) : List IConnection :=
  (places[sourceIndex]?.join).getD []

def compareIndex (prevInputConnections nextInputConnections : NodeInputConnections) (nodeName inputName : String)
    (diff : ConnectionsDiff) (sourceIndex : Nat) : Except DiffFailure ConnectionsDiff := do
  let prevMap := groupByValue stringify (placeAt prevInputConnections sourceIndex)
  let nextMap := groupByValue stringify (placeAt nextInputConnections sourceIndex)
  let added ← (surplus nextMap prevMap).foldlM (record nodeName inputName sourceIndex) diff.added
  let removed ← (surplus prevMap nextMap).foldlM (record nodeName inputName sourceIndex) diff.removed
  .ok ⟨added, removed⟩

def compareInput (prev next : IConnections) (nodeName : String) (diff : ConnectionsDiff) (inputName : String) :
    Except DiffFailure ConnectionsDiff :=
  match readInput prev nodeName inputName, readInput next nodeName inputName with
  | .throwing, _ => .error .typeError
  | _, .throwing => .error .typeError
  | .places prevInputConnections, .places nextInputConnections =>
    (List.range (max prevInputConnections.length nextInputConnections.length)).foldlM
      (compareIndex stringify prevInputConnections nextInputConnections nodeName inputName) diff
  -- the larger of a number and no number is no number, which no index is below
  | _, _ => .ok diff

def compareConnections (prev next : IConnections) : Except DiffFailure ConnectionsDiff :=
  (unionNames prev.keys next.keys).foldlM (fun diff nodeName =>
    (unionNames (inputNames prev nodeName) (inputNames next nodeName)).foldlM
      (compareInput stringify prev next nodeName) diff) {}

end Compare

section Specification

def bucket (connections : IConnections) (nodeName inputName : String) (sourceIndex : Nat) : List IConnection :=
  placeAt ((((connections.get? nodeName).getD .empty).get? inputName).getD []) sourceIndex

def entriesOf (diff : ObjectMap String INodeConnectionsDiff) (nodeName inputName : String) : List ConnectionEntry :=
  (((diff.get? nodeName).getD .empty).get? inputName).getD []

def entriesAt (diff : ObjectMap String INodeConnectionsDiff) (nodeName inputName : String) (sourceIndex : Nat) :
    List IConnection :=
  ((entriesOf diff nodeName inputName).filter fun entry => entry.sourceIndex = sourceIndex).map fun entry =>
    entry.value.connection

structure ConnectionsDiff.Exact (diff : ConnectionsDiff) (prev next : IConnections) : Prop where
  count : ∀ nodeName inputName sourceIndex c,
    ((bucket next nodeName inputName sourceIndex).count c : Int) = (bucket prev nodeName inputName sourceIndex).count c +
      (entriesAt diff.added nodeName inputName sourceIndex).count c -
      (entriesAt diff.removed nodeName inputName sourceIndex).count c
  disjoint : ∀ nodeName inputName sourceIndex c, c ∈ entriesAt diff.added nodeName inputName sourceIndex →
    c ∉ entriesAt diff.removed nodeName inputName sourceIndex
  empty : diff.added = .empty ∧ diff.removed = .empty ↔ ∀ nodeName inputName sourceIndex,
    (bucket prev nodeName inputName sourceIndex).Perm (bucket next nodeName inputName sourceIndex)

def ExactDifference (stringify : IConnection ↪ String) (prev next : IConnections) : Prop :=
  ∃ diff swapped, compareConnections stringify prev next = .ok diff ∧
    compareConnections stringify next prev = .ok swapped ∧ diff.Exact prev next ∧
    ∀ nodeName inputName, entriesOf swapped.added nodeName inputName = entriesOf diff.removed nodeName inputName ∧
      entriesOf swapped.removed nodeName inputName = entriesOf diff.added nodeName inputName

/-- No inherited name comes between: where a node or an input has one, the buckets are equal, and no node of one
version alone is named like an inherited function and has an input named like a member of it that cannot be read. -/
structure NamesOwn (prev next : IConnections) : Prop where
  equal : ∀ nodeName inputName, nodeName ∈ inheritedNames ∨ inputName ∈ inheritedNames → ∀ sourceIndex,
    (bucket prev nodeName inputName sourceIndex).Perm (bucket next nodeName inputName sourceIndex)
  readable : ∀ nodeName inputName, nodeName ∈ inheritedNames → nodeName ≠ "__proto__" →
    inputName ∈ ["name", "caller", "arguments"] →
    (inputName ∈ inputNames prev nodeName → next.has nodeName) ∧
      (inputName ∈ inputNames next nodeName → prev.has nodeName)

/-- No reading throws, and nothing is to be recorded under an inherited name. -/
structure Comparable (prev next : IConnections) : Prop where
  readable : ∀ nodeName inputName, inputName ∈ inputNames prev nodeName ∨ inputName ∈ inputNames next nodeName →
    readInput prev nodeName inputName ≠ .throwing ∧ readInput next nodeName inputName ≠ .throwing
  equal : ∀ nodeName inputName, nodeName ∈ inheritedNames ∨ inputName ∈ inheritedNames → ∀ ps qs,
    readInput prev nodeName inputName = .places ps → readInput next nodeName inputName = .places qs →
      ∀ sourceIndex, (placeAt ps sourceIndex).Perm (placeAt qs sourceIndex)

end Specification

section Surplus

variable {stringify : IConnection ↪ String} {connections others : List IConnection}
  {groups groups' : List (String × List ConnectionValue)}

structure Groups (stringify : IConnection ↪ String) (connections : List IConnection)
    (groups : List (String × List ConnectionValue)) : Prop where
  keys : (groups.map Prod.fst).Nodup
  named : ∀ group ∈ groups, ∃ c, group.1 = stringify c
  values : ∀ c, ((Entries.lookup (stringify c) groups).getD []).map ConnectionValue.connection =
    List.replicate (connections.count c) c

theorem groupByValue_groups (stringify : IConnection ↪ String) (connections : List IConnection) :
    Groups stringify connections (groupByValue stringify connections) := by
  have h : Groups stringify (connections.zipIdx.map Prod.fst) (groupByValue stringify connections) := by
    apply foldl_rule fun pre groups => Groups stringify (pre.map Prod.fst) groups
    · exact ⟨List.nodup_nil, fun group hg => (by cases hg), fun c => rfl⟩
    · rintro pre ⟨connection, index⟩ - groups hgroups
      refine ⟨Entries.put_nodup _ hgroups.keys, fun group hg => ?_, fun c => ?_⟩
      · rcases Entries.mem_put hgroups.keys hg with rfl | ⟨hg, -⟩
        · exact ⟨connection, rfl⟩
        · exact hgroups.named group hg
      · rw [Entries.lookup_put, List.map_append, List.count_append]
        by_cases hc : c = connection
        · subst hc
          simp [hgroups.values c, List.replicate_add]
        · have hne : stringify c ≠ stringify connection := fun he => hc (stringify.injective he)
          simp [hne, hgroups.values c, Ne.symm hc]
  rwa [List.zipIdx_map_fst] at h

theorem count_groups (stringify : IConnection ↪ String) (f : String × List ConnectionValue → Nat)
    (hkeys : (groups.map Prod.fst).Nodup)
    (hnamed : ∀ group ∈ groups, ∃ c, group.1 = stringify c ∧ ∀ v ∈ group.2, v.connection = c) (c : IConnection) :
    ((groups.flatMap fun group => group.2.drop (f group)).map ConnectionValue.connection).count c =
      ((Entries.lookup (stringify c) groups).map fun values => values.length - f (stringify c, values)).getD 0 := by
  induction groups with
  | nil => rfl
  | cons group groups ih =>
    rw [List.map_cons, List.nodup_cons] at hkeys
    obtain ⟨c', hkey, hvalues⟩ := hnamed group List.mem_cons_self
    have ih := ih hkeys.2 fun group hg => hnamed group (List.mem_cons_of_mem _ hg)
    have hreplicate : (group.2.drop (f group)).map ConnectionValue.connection =
        List.replicate (group.2.length - f group) c' := by
      rw [List.eq_replicate_iff, List.length_map, List.length_drop]
      refine ⟨rfl, fun d hd => ?_⟩
      obtain ⟨v, hv, rfl⟩ := List.mem_map.1 hd
      exact hvalues v (List.mem_of_mem_drop hv)
    rw [List.flatMap_cons, List.map_append, List.count_append, hreplicate, List.count_replicate, ih, Entries.lookup]
    by_cases hc : c' = c
    · subst hc
      have hnone : Entries.lookup (stringify c') groups = none := Entries.lookup_eq_none.2 (hkey ▸ hkeys.1)
      have hgroup : group = (stringify c', group.2) := Prod.ext hkey rfl
      rw [hnone, if_pos hkey, Option.map_none, Option.getD_none, Option.map_some, Option.getD_some, ← hgroup]
      simp
    · have hne : group.1 ≠ stringify c := fun he => hc (stringify.injective (hkey.symm.trans he))
      simp [hne, hc]

theorem Groups.length (h : Groups stringify connections groups) (c : IConnection) :
    ((Entries.lookup (stringify c) groups).map List.length).getD 0 = connections.count c := by
  have hlength := congrArg List.length (h.values c)
  rw [List.length_map, List.length_replicate] at hlength
  cases hl : Entries.lookup (stringify c) groups with
  | none => simpa [hl] using hlength
  | some values => simpa [hl] using hlength

theorem count_surplus (h : Groups stringify connections groups) (h' : Groups stringify others groups') (c : IConnection) :
    ((surplus groups groups').map ConnectionValue.connection).count c = connections.count c - others.count c := by
  rw [surplus, count_groups stringify _ h.keys]
  · have hlength := h.length c
    cases hl : Entries.lookup (stringify c) groups with
    | none =>
      rw [hl] at hlength
      simp only [Option.map_none, Option.getD_none] at hlength ⊢
      omega
    | some values =>
      rw [hl] at hlength
      simp only [Option.map_some, Option.getD_some] at hlength ⊢
      rw [h'.length c, hlength]
  · intro group hg
    obtain ⟨c, hc⟩ := h.named group hg
    refine ⟨c, hc, fun v hv => ?_⟩
    have hvalues := h.values c
    have hlookup : Entries.lookup (stringify c) groups = some group.2 :=
      Entries.lookup_of_mem h.keys (by rw [← hc]; exact hg)
    rw [hlookup, Option.getD_some] at hvalues
    have hmem : v.connection ∈ List.replicate (connections.count c) c := hvalues ▸ List.mem_map_of_mem hv
    exact List.eq_of_mem_replicate hmem

theorem count_surplus_groupByValue (stringify : IConnection ↪ String) (connections others : List IConnection)
    (c : IConnection) :
    ((surplus (groupByValue stringify connections) (groupByValue stringify others)).map
      ConnectionValue.connection).count c = connections.count c - others.count c :=
  count_surplus (groupByValue_groups stringify connections) (groupByValue_groups stringify others) c

theorem surplus_eq_nil_iff (stringify : IConnection ↪ String) (connections others : List IConnection) :
    surplus (groupByValue stringify connections) (groupByValue stringify others) = [] ↔
      ∀ c, connections.count c ≤ others.count c := by
  rw [← List.map_eq_nil_iff (f := ConnectionValue.connection), List.eq_nil_iff_forall_not_mem]
  refine forall_congr' fun c => ?_
  rw [← List.count_eq_zero, count_surplus_groupByValue, Nat.sub_eq_zero_iff_le]

theorem surplus_both_nil_iff (stringify : IConnection ↪ String) (connections others : List IConnection) :
    surplus (groupByValue stringify connections) (groupByValue stringify others) = [] ∧
      surplus (groupByValue stringify others) (groupByValue stringify connections) = [] ↔ connections.Perm others := by
  rw [surplus_eq_nil_iff, surplus_eq_nil_iff, List.perm_iff_count]
  exact ⟨fun h c => Nat.le_antisymm (h.1 c) (h.2 c), fun h => ⟨fun c => (h c).le, fun c => (h c).ge⟩⟩

end Surplus

section Recording

variable {nodeName inputName : String} {sourceIndex : Nat} {diff diff' diff'' : ObjectMap String INodeConnectionsDiff}
  {value : ConnectionValue} {values : List ConnectionValue} {entries entries' : List ConnectionEntry}

/-- No object of the result is empty. -/
def Filled (diff : ObjectMap String INodeConnectionsDiff) : Prop :=
  ∀ nodeName, diff.has nodeName → ∃ inputName, entriesOf diff nodeName inputName ≠ []

theorem Filled.eq_empty_iff (h : Filled diff) :
    diff = .empty ↔ ∀ nodeName inputName, entriesOf diff nodeName inputName = [] := by
  constructor
  · rintro rfl nodeName inputName
    rfl
  · intro hnone
    apply ObjectMap.ext_entries
    apply List.eq_nil_iff_forall_not_mem.2
    rintro ⟨nodeName, node⟩ hmem
    have hget := (ObjectMap.mem_entries diff).1 hmem
    obtain ⟨inputName, hsome⟩ := h nodeName (by rw [ObjectMap.has, hget]; rfl)
    exact hsome (hnone nodeName inputName)

/-- The second result has the entries of the first, and those given for an input of a node. -/
structure Grown (nodeName inputName : String) (entries : List ConnectionEntry)
    (diff diff' : ObjectMap String INodeConnectionsDiff) : Prop where
  entriesOf : ∀ node input, entriesOf diff' node input =
    entriesOf diff node input ++ if node = nodeName ∧ input = inputName then entries else []
  filled : Filled diff → Filled diff'

theorem Grown.refl (nodeName inputName : String) (diff : ObjectMap String INodeConnectionsDiff) :
    Grown nodeName inputName [] diff diff := ⟨fun node input => by simp, id⟩

theorem Grown.trans (h : Grown nodeName inputName entries diff diff')
    (h' : Grown nodeName inputName entries' diff' diff'') : Grown nodeName inputName (entries ++ entries') diff diff'' where
  entriesOf node input := by
    rw [h'.entriesOf, h.entriesOf]
    split
    · rw [List.append_assoc]
    · simp
  filled hd := h'.filled (h.filled hd)

theorem record_ok (hnode : nodeName ∉ inheritedNames) (hinput : inputName ∉ inheritedNames)
    (diff : ObjectMap String INodeConnectionsDiff) (sourceIndex : Nat) (value : ConnectionValue) :
    ∃ diff', record nodeName inputName sourceIndex diff value = .ok diff' ∧
      Grown nodeName inputName [⟨sourceIndex, value⟩] diff diff' := by
  refine ⟨_, by rw [record, if_neg hnode, if_neg hinput], ?_⟩
  have hentries : ∀ node input, entriesOf (diff.set nodeName (((diff.get? nodeName).getD .empty).set inputName
      ((((diff.get? nodeName).getD .empty).get? inputName).getD [] ++ [⟨sourceIndex, value⟩]))) node input =
      entriesOf diff node input ++ if node = nodeName ∧ input = inputName then [⟨sourceIndex, value⟩] else [] := by
    intro node input
    by_cases hn : node = nodeName
    · subst hn
      by_cases hi : input = inputName
      · subst hi
        simp [entriesOf]
      · simp [entriesOf, hi, ObjectMap.get?_set_ne]
    · simp [entriesOf, hn, ObjectMap.get?_set_ne]
  refine ⟨hentries, fun hfilled node hhas => ?_⟩
  by_cases hn : node = nodeName
  · subst hn
    refine ⟨inputName, ?_⟩
    rw [hentries]
    simp
  · rw [ObjectMap.has, ObjectMap.get?_set_ne _ hn] at hhas
    obtain ⟨input, hsome⟩ := hfilled node hhas
    refine ⟨input, ?_⟩
    rw [hentries]
    simpa [hn] using hsome

theorem records_ok (h : values ≠ [] → nodeName ∉ inheritedNames ∧ inputName ∉ inheritedNames)
    (diff : ObjectMap String INodeConnectionsDiff) (sourceIndex : Nat) :
    ∃ diff', values.foldlM (record nodeName inputName sourceIndex) diff = .ok diff' ∧
      Grown nodeName inputName (values.map fun value => ⟨sourceIndex, value⟩) diff diff' := by
  induction values generalizing diff with
  | nil => exact ⟨diff, rfl, .refl _ _ _⟩
  | cons value values ih =>
    obtain ⟨hnode, hinput⟩ := h (List.cons_ne_nil _ _)
    obtain ⟨diff₁, h₁, hgrown₁⟩ := record_ok hnode hinput diff sourceIndex value
    obtain ⟨diff₂, h₂, hgrown₂⟩ := ih (fun _ => ⟨hnode, hinput⟩) diff₁
    refine ⟨diff₂, ?_, hgrown₁.trans hgrown₂⟩
    rw [List.foldlM_cons, h₁]
    exact h₂

def OwnNames (diff : ObjectMap String INodeConnectionsDiff) : Prop :=
  ∀ nodeName inputName, nodeName ∈ inheritedNames ∨ inputName ∈ inheritedNames → entriesOf diff nodeName inputName = []

theorem records_ownNames (hown : OwnNames diff)
    (h : values.foldlM (record nodeName inputName sourceIndex) diff = .ok diff') : OwnNames diff' := by
  refine foldlM_partial_rule (fun _ diff => OwnNames diff) h hown fun _ value diff₁ diff₂ hown₁ hstep => ?_
  have hnames : nodeName ∉ inheritedNames ∧ inputName ∉ inheritedNames := by
    rw [record] at hstep
    split at hstep
    · cases hstep
    · split at hstep
      · cases hstep
      · exact ⟨by assumption, by assumption⟩
  obtain ⟨diff₃, hrecord, hgrown⟩ := record_ok hnames.1 hnames.2 diff₁ sourceIndex value
  obtain rfl := Except.ok.inj (hstep.symm.trans hrecord)
  intro node input hin
  rw [hgrown.entriesOf, hown₁ node input hin, List.nil_append, if_neg]
  rintro ⟨rfl, rfl⟩
  exact hin.elim hnames.1 hnames.2

end Recording

variable {sourceIndex : Nat} {connections : IConnections} {nodeName inputName : String}

section Walk

variable {stringify : IConnection ↪ String} {prev next : IConnections} {nodeName inputName : String}
  {ps qs : NodeInputConnections}

def placesOf (connections : IConnections) (nodeName inputName : String) : NodeInputConnections :=
  (((connections.get? nodeName).getD .empty).get? inputName).getD []

def indexEntries (stringify : IConnection ↪ String) (places others : NodeInputConnections) (sourceIndex : Nat) :
    List ConnectionEntry :=
  (surplus (groupByValue stringify (placeAt places sourceIndex))
    (groupByValue stringify (placeAt others sourceIndex))).map fun value => ⟨sourceIndex, value⟩

def inputEntries (stringify : IConnection ↪ String) (places others : NodeInputConnections) : List ConnectionEntry :=
  (List.range (max places.length others.length)).flatMap (indexEntries stringify places others)

structure Advanced (nodeName inputName : String) (added removed : List ConnectionEntry) (diff diff' : ConnectionsDiff) :
    Prop where
  added : Grown nodeName inputName added diff.added diff'.added
  removed : Grown nodeName inputName removed diff.removed diff'.removed

theorem compareIndex_ok (stringify : IConnection ↪ String)
    (h : ¬ (placeAt ps sourceIndex).Perm (placeAt qs sourceIndex) →
    nodeName ∉ inheritedNames ∧ inputName ∉ inheritedNames) (diff : ConnectionsDiff) :
    ∃ diff', compareIndex stringify ps qs nodeName inputName diff sourceIndex = .ok diff' ∧
      Advanced nodeName inputName (indexEntries stringify qs ps sourceIndex) (indexEntries stringify ps qs sourceIndex)
        diff diff' := by
  have hboth := surplus_both_nil_iff stringify (placeAt ps sourceIndex) (placeAt qs sourceIndex)
  obtain ⟨added, hadded, hgrown⟩ := records_ok (fun hne => h fun hperm => hne (hboth.2 hperm).2) diff.added sourceIndex
  obtain ⟨removed, hremoved, hgrown'⟩ := records_ok (fun hne => h fun hperm => hne (hboth.2 hperm).1) diff.removed
    sourceIndex
  refine ⟨⟨added, removed⟩, ?_, hgrown, hgrown'⟩
  rw [compareIndex, hadded]
  simp only [bind, Except.bind]
  rw [hremoved]

theorem compareIndexes_ok (stringify : IConnection ↪ String) (indexes : List Nat)
    (h : ∀ sourceIndex, ¬ (placeAt ps sourceIndex).Perm (placeAt qs sourceIndex) →
    nodeName ∉ inheritedNames ∧ inputName ∉ inheritedNames) (diff : ConnectionsDiff) :
    ∃ diff', indexes.foldlM (compareIndex stringify ps qs nodeName inputName) diff = .ok diff' ∧
      Advanced nodeName inputName (indexes.flatMap (indexEntries stringify qs ps))
        (indexes.flatMap (indexEntries stringify ps qs)) diff diff' := by
  induction indexes generalizing diff with
  | nil => exact ⟨diff, rfl, .refl _ _ _, .refl _ _ _⟩
  | cons sourceIndex indexes ih =>
    obtain ⟨diff₁, h₁, hstep⟩ := compareIndex_ok stringify (h sourceIndex) diff
    obtain ⟨diff₂, h₂, hrest⟩ := ih diff₁
    refine ⟨diff₂, ?_, hstep.added.trans hrest.added, hstep.removed.trans hrest.removed⟩
    rw [List.foldlM_cons, h₁]
    exact h₂

theorem indexEntries_nil (h : (placeAt ps sourceIndex).Perm (placeAt qs sourceIndex)) :
    indexEntries stringify ps qs sourceIndex = [] := by
  rw [indexEntries, ((surplus_both_nil_iff stringify _ _).2 h).1, List.map_nil]

theorem inputEntries_nil (h : ∀ sourceIndex, (placeAt ps sourceIndex).Perm (placeAt qs sourceIndex)) :
    inputEntries stringify ps qs = [] :=
  List.flatMap_eq_nil_iff.2 fun sourceIndex _ => indexEntries_nil (h sourceIndex)

theorem placeAt_beyond (h : ps.length ≤ sourceIndex) : placeAt ps sourceIndex = [] := by
  rw [placeAt, List.getElem?_eq_none h]
  rfl

theorem filter_inputEntries (stringify : IConnection ↪ String) (ps qs : NodeInputConnections) (sourceIndex : Nat) :
    (inputEntries stringify ps qs).filter (fun entry => entry.sourceIndex = sourceIndex) =
      indexEntries stringify ps qs sourceIndex := by
  have hone : ∀ k, (indexEntries stringify ps qs k).filter (fun entry => entry.sourceIndex = sourceIndex) =
      if k = sourceIndex then indexEntries stringify ps qs sourceIndex else [] := by
    intro k
    by_cases hk : k = sourceIndex
    · subst hk
      simp [indexEntries]
    · simp [indexEntries, hk]
  rw [inputEntries, List.filter_flatMap]
  simp only [hone]
  by_cases hlt : sourceIndex < max ps.length qs.length
  · generalize max ps.length qs.length = n at hlt
    induction n with
    | zero => omega
    | succ n ih =>
      rw [List.range_succ, List.flatMap_append, List.flatMap_singleton]
      by_cases hn : n = sourceIndex
      · subst hn
        have hbefore : (List.range n).flatMap (fun k => if k = n then indexEntries stringify ps qs n else []) = [] :=
          List.flatMap_eq_nil_iff.2 fun k hk => if_neg (List.mem_range.1 hk).ne
        rw [hbefore, if_pos rfl, List.nil_append]
      · rw [ih (by omega), if_neg hn, List.append_nil]
  · have hps : placeAt ps sourceIndex = [] := placeAt_beyond (by omega)
    have hqs : placeAt qs sourceIndex = [] := placeAt_beyond (by omega)
    rw [indexEntries_nil (by rw [hps, hqs])]
    exact List.flatMap_eq_nil_iff.2 fun k _ => ite_self _

theorem readInput_cases (connections : IConnections) (nodeName inputName : String) :
    readInput connections nodeName inputName = .places (placesOf connections nodeName inputName) ∨
      readInput connections nodeName inputName = .sizeless ∧ (nodeName ∈ inheritedNames ∨ inputName ∈ inheritedNames) ∨
      readInput connections nodeName inputName = .throwing ∧ nodeName ∈ inheritedNames ∧ nodeName ≠ "__proto__" ∧
        inputName ∈ ["name", "caller", "arguments"] ∧ connections.has nodeName = false := by
  have hproto : "__proto__" ∈ inheritedNames := by decide
  rw [readInput, placesOf, ObjectMap.has]
  cases connections.get? nodeName with
  | some byType =>
    simp only [Option.getD_some]
    cases hinput : byType.get? inputName with
    | some places => exact .inl rfl
    | none =>
      dsimp only
      by_cases hp : inputName = "__proto__"
      · rw [if_pos hp]
        exact .inr (.inl ⟨rfl, .inr (hp ▸ hproto)⟩)
      · rw [if_neg hp]
        exact .inl rfl
  | none =>
    by_cases hnode : nodeName ∈ inheritedNames
    · simp only [if_pos hnode]
      by_cases hself : nodeName = "__proto__"
      · rw [if_pos hself]
        exact .inl rfl
      · rw [if_neg hself]
        by_cases hthrow : inputName ∈ ["name", "caller", "arguments"]
        · rw [if_pos hthrow]
          exact .inr (.inr ⟨rfl, hnode, hself, hthrow, rfl⟩)
        · rw [if_neg hthrow]
          split
          · exact .inr (.inl ⟨rfl, .inl hnode⟩)
          · exact .inl rfl
    · simp only [if_neg hnode]
      by_cases hp : inputName = "__proto__"
      · rw [if_pos hp]
        exact .inr (.inl ⟨rfl, .inr (hp ▸ hproto)⟩)
      · rw [if_neg hp]
        exact .inl rfl

theorem readInput_throwing (h : NamesOwn prev next) (hvisited : inputName ∈ inputNames prev nodeName ∨
    inputName ∈ inputNames next nodeName) :
    readInput prev nodeName inputName ≠ .throwing ∧ readInput next nodeName inputName ≠ .throwing := by
  have hhas : ∀ connections : IConnections, inputName ∈ inputNames connections nodeName → connections.has nodeName = true := by
    intro connections hin
    rw [ObjectMap.has]
    cases hget : connections.get? nodeName with
    | none => simp [inputNames, hget] at hin
    | some byType => rfl
  constructor
  · intro hread
    obtain he | ⟨he, -⟩ | ⟨-, hnode, hself, hthrow, hnot⟩ := readInput_cases prev nodeName inputName
    · simp [hread] at he
    · simp [hread] at he
    · have hprev : prev.has nodeName = true := hvisited.elim (hhas prev) (h.readable _ _ hnode hself hthrow).2
      simp [hprev] at hnot
  · intro hread
    obtain he | ⟨he, -⟩ | ⟨-, hnode, hself, hthrow, hnot⟩ := readInput_cases next nodeName inputName
    · simp [hread] at he
    · simp [hread] at he
    · have hnext : next.has nodeName = true := hvisited.elim (h.readable _ _ hnode hself hthrow).1 (hhas next)
      simp [hnext] at hnot

def sideEntries (stringify : IConnection ↪ String) (connections others : IConnections) (nodeName inputName : String) :
    List ConnectionEntry :=
  inputEntries stringify (placesOf connections nodeName inputName) (placesOf others nodeName inputName)

theorem compareInput_ok (stringify : IConnection ↪ String) (h : NamesOwn prev next)
    (hvisited : inputName ∈ inputNames prev nodeName ∨
    inputName ∈ inputNames next nodeName) (diff : ConnectionsDiff) :
    ∃ diff', compareInput stringify prev next nodeName diff inputName = .ok diff' ∧
      Advanced nodeName inputName (sideEntries stringify next prev nodeName inputName)
        (sideEntries stringify prev next nodeName inputName) diff diff' := by
  obtain ⟨hprev, hnext⟩ := readInput_throwing h hvisited
  have hnames : ∀ sourceIndex, ¬ (placeAt (placesOf prev nodeName inputName) sourceIndex).Perm
      (placeAt (placesOf next nodeName inputName) sourceIndex) →
        nodeName ∉ inheritedNames ∧ inputName ∉ inheritedNames := by
    intro sourceIndex hne
    constructor
    · exact fun hin => hne (h.equal nodeName inputName (.inl hin) sourceIndex)
    · exact fun hin => hne (h.equal nodeName inputName (.inr hin) sourceIndex)
  have hunsized : nodeName ∈ inheritedNames ∨ inputName ∈ inheritedNames →
      sideEntries stringify next prev nodeName inputName = [] ∧ sideEntries stringify prev next nodeName inputName = [] :=
    fun hin => ⟨inputEntries_nil fun k => (h.equal nodeName inputName hin k).symm,
      inputEntries_nil (h.equal nodeName inputName hin)⟩
  have hskip : nodeName ∈ inheritedNames ∨ inputName ∈ inheritedNames →
      Advanced nodeName inputName (sideEntries stringify next prev nodeName inputName)
        (sideEntries stringify prev next nodeName inputName) diff diff := by
    intro hin
    rw [(hunsized hin).1, (hunsized hin).2]
    exact ⟨.refl _ _ _, .refl _ _ _⟩
  rw [compareInput]
  obtain hp | ⟨hp, hin⟩ | ⟨hp, -⟩ := readInput_cases prev nodeName inputName
  · obtain hn | ⟨hn, hin⟩ | ⟨hn, -⟩ := readInput_cases next nodeName inputName
    · rw [hp, hn]
      obtain ⟨diff', hok, hadvanced⟩ := compareIndexes_ok stringify
        (List.range (max (placesOf prev nodeName inputName).length (placesOf next nodeName inputName).length)) hnames diff
      refine ⟨diff', hok, ?_, hadvanced.removed⟩
      rw [sideEntries, inputEntries, Nat.max_comm]
      exact hadvanced.added
    · rw [hp, hn]
      exact ⟨diff, rfl, hskip hin⟩
    · exact absurd hn hnext
  · obtain hn | ⟨hn, -⟩ | ⟨hn, -⟩ := readInput_cases next nodeName inputName
    · rw [hp, hn]
      exact ⟨diff, rfl, hskip hin⟩
    · rw [hp, hn]
      exact ⟨diff, rfl, hskip hin⟩
    · exact absurd hn hnext
  · exact absurd hp hprev

structure Sides (stringify : IConnection ↪ String) (prev next : IConnections) (visited : String → String → Bool)
    (diff : ConnectionsDiff) : Prop where
  added : ∀ node input, entriesOf diff.added node input =
    if visited node input then sideEntries stringify next prev node input else []
  removed : ∀ node input, entriesOf diff.removed node input =
    if visited node input then sideEntries stringify prev next node input else []
  filled : Filled diff.added ∧ Filled diff.removed

variable {diff diff' : ConnectionsDiff} {visited : String → String → Bool}

theorem Sides.advanced (h : Sides stringify prev next visited diff) (hnew : visited nodeName inputName = false)
    (hstep : Advanced nodeName inputName (sideEntries stringify next prev nodeName inputName)
      (sideEntries stringify prev next nodeName inputName) diff diff') :
    Sides stringify prev next (fun node input => visited node input || (node == nodeName && input == inputName)) diff' where
  added node input := by
    rw [hstep.added.entriesOf, h.added]
    by_cases he : node = nodeName ∧ input = inputName
    · obtain ⟨rfl, rfl⟩ := he
      simp [hnew]
    · rw [if_neg he, List.append_nil]
      have hno : (node == nodeName && input == inputName) = false := by simpa using he
      simp only [hno, Bool.or_false]
  removed node input := by
    rw [hstep.removed.entriesOf, h.removed]
    by_cases he : node = nodeName ∧ input = inputName
    · obtain ⟨rfl, rfl⟩ := he
      simp [hnew]
    · rw [if_neg he, List.append_nil]
      have hno : (node == nodeName && input == inputName) = false := by simpa using he
      simp only [hno, Bool.or_false]
  filled := ⟨hstep.added.filled h.filled.1, hstep.removed.filled h.filled.2⟩

theorem Sides.congr {visited' : String → String → Bool} (h : Sides stringify prev next visited diff)
    (he : ∀ node input, visited node input ≠ visited' node input →
      placesOf prev node input = [] ∧ placesOf next node input = []) : Sides stringify prev next visited' diff := by
  have hentries : ∀ (node input) (connections others : IConnections),
      placesOf connections node input = [] → placesOf others node input = [] →
        sideEntries stringify connections others node input = [] := by
    intro node input connections others hc ho
    rw [sideEntries, hc, ho]
    rfl
  refine ⟨fun node input => ?_, fun node input => ?_, h.filled⟩
  · rw [h.added]
    by_cases hv : visited node input = visited' node input
    · rw [hv]
    · obtain ⟨hp, hn⟩ := he node input hv
      simp [hentries node input next prev hn hp]
  · rw [h.removed]
    by_cases hv : visited node input = visited' node input
    · rw [hv]
    · obtain ⟨hp, hn⟩ := he node input hv
      simp [hentries node input prev next hp hn]

theorem unionNames_nodup {names others : List String} (h : names.Nodup) (h' : others.Nodup) :
    (unionNames names others).Nodup := by
  rw [unionNames, List.nodup_append]
  refine ⟨h, h'.filter _, ?_⟩
  rintro name hname other hother rfl
  have hout := (List.mem_filter.1 hother).2
  simp [hname] at hout

theorem mem_unionNames {names others : List String} {name : String} :
    name ∈ unionNames names others ↔ name ∈ names ∨ name ∈ others := by
  by_cases h : name ∈ names <;> simp [unionNames, h]

theorem inputNames_nodup (connections : IConnections) (nodeName : String) : (inputNames connections nodeName).Nodup := by
  rw [inputNames]
  cases connections.get? nodeName with
  | none => exact List.nodup_nil
  | some byType => exact ObjectMap.keys_nodup byType

theorem placesOf_of_notMem (h : inputName ∉ inputNames connections nodeName) :
    placesOf connections nodeName inputName = [] := by
  rw [placesOf]
  cases hget : connections.get? nodeName with
  | none => rfl
  | some byType =>
    rw [inputNames, hget, Option.map_some, Option.getD_some, ObjectMap.mem_keys, Bool.not_eq_true,
      Option.isSome_eq_false_iff, Option.isNone_iff_eq_none] at h
    rw [Option.getD_some, h]
    rfl

theorem placesOf_of_notKey (h : nodeName ∉ connections.keys) : placesOf connections nodeName inputName = [] := by
  rw [ObjectMap.mem_keys, Bool.not_eq_true, Option.isSome_eq_false_iff, Option.isNone_iff_eq_none] at h
  rw [placesOf, h]
  rfl

theorem notMem_of_prefix {as pre : List String} {a : String} (hnodup : as.Nodup) (h : pre ++ [a] <+: as) : a ∉ pre := by
  obtain ⟨rest, rfl⟩ := h
  have hpre := (List.nodup_append.1 hnodup).1
  exact fun hmem => (List.nodup_append.1 hpre).2.2 a hmem a (List.mem_singleton.2 rfl) rfl

theorem compareNode_ok (nodeName : String) (h : NamesOwn prev next) (hsides : Sides stringify prev next visited diff)
    (hnew : ∀ input, visited nodeName input = false) :
    ∃ diff', (unionNames (inputNames prev nodeName) (inputNames next nodeName)).foldlM
        (compareInput stringify prev next nodeName) diff = .ok diff' ∧
      Sides stringify prev next (fun node input => visited node input || node == nodeName) diff' := by
  have hnodup := unionNames_nodup (inputNames_nodup prev nodeName) (inputNames_nodup next nodeName)
  obtain ⟨diff', hok, hinv⟩ := @foldlM_rule _ _ _ (compareInput stringify prev next nodeName)
    (unionNames (inputNames prev nodeName) (inputNames next nodeName))
    (fun pre diff => Sides stringify prev next (fun node input =>
      visited node input || (node == nodeName && pre.contains input)) diff)
    diff (hsides.congr fun node input hne => absurd (by simp) hne) (by
      intro pre input hpre diff₁ hsides₁
      have hvisited := mem_unionNames.1 (hpre.subset (List.mem_append_right pre (List.mem_singleton.2 rfl)))
      obtain ⟨diff₂, hstep, hadvanced⟩ := compareInput_ok stringify h hvisited diff₁
      have hfresh : input ∉ pre := notMem_of_prefix hnodup hpre
      refine ⟨diff₂, hstep, (hsides₁.advanced (by simp [hnew, hfresh]) hadvanced).congr fun node input' hne => ?_⟩
      refine absurd ?_ hne
      have hone : [input].contains input' = (input' == input) := by rw [List.contains_cons, List.contains_nil, Bool.or_false]
      rw [List.contains_append, Bool.and_or_distrib_left, Bool.or_assoc, hone])
  refine ⟨diff', hok, hinv.congr fun node input hne => ?_⟩
  by_cases hn : node = nodeName
  · subst hn
    have hnot : input ∉ unionNames (inputNames prev node) (inputNames next node) := fun hin => hne (by simp [hin])
    rw [mem_unionNames, not_or] at hnot
    exact ⟨placesOf_of_notMem hnot.1, placesOf_of_notMem hnot.2⟩
  · have hb : (node == nodeName) = false := beq_eq_false_iff_ne.2 hn
    exact absurd (by simp only [hb, Bool.false_and]) hne

theorem compareConnections_ok (stringify : IConnection ↪ String) (h : NamesOwn prev next) :
    ∃ diff, compareConnections stringify prev next = .ok diff ∧ Sides stringify prev next (fun _ _ => true) diff := by
  have hnodup := unionNames_nodup (ObjectMap.keys_nodup prev) (ObjectMap.keys_nodup next)
  obtain ⟨diff, hok, hinv⟩ := @foldlM_rule _ _ DiffFailure (fun diff nodeName =>
      (unionNames (inputNames prev nodeName) (inputNames next nodeName)).foldlM
        (compareInput stringify prev next nodeName) diff) (unionNames prev.keys next.keys)
    (fun pre diff => Sides stringify prev next (fun node _ => pre.contains node) diff) {}
    ⟨fun _ _ => rfl, fun _ _ => rfl, fun _ hhas => (by cases hhas), fun _ hhas => (by cases hhas)⟩ (by
      intro pre nodeName hpre diff₁ hsides
      have hfresh : nodeName ∉ pre := notMem_of_prefix hnodup hpre
      obtain ⟨diff₂, hstep, hsides₂⟩ := compareNode_ok nodeName h hsides fun input => by simpa using hfresh
      exact ⟨diff₂, hstep, hsides₂.congr fun node input hne => absurd (by simp [beq_eq_decide]) hne⟩)
  refine ⟨diff, hok, hinv.congr fun node input hne => ?_⟩
  have hnot : node ∉ unionNames prev.keys next.keys := fun hin => hne (by simp [hin])
  rw [mem_unionNames, not_or] at hnot
  exact ⟨placesOf_of_notKey hnot.1, placesOf_of_notKey hnot.2⟩

theorem Comparable.compareInput_ok (stringify : IConnection ↪ String) (h : Comparable prev next)
    (hvisited : inputName ∈ inputNames prev nodeName ∨ inputName ∈ inputNames next nodeName) (diff : ConnectionsDiff) :
    ∃ diff', compareInput stringify prev next nodeName diff inputName = .ok diff' := by
  obtain ⟨hprev, hnext⟩ := h.readable nodeName inputName hvisited
  rw [compareInput]
  cases hp : readInput prev nodeName inputName with
  | throwing => exact absurd hp hprev
  | sizeless =>
    cases hn : readInput next nodeName inputName with
    | throwing => exact absurd hn hnext
    | sizeless | places => exact ⟨diff, rfl⟩
  | places ps =>
    cases hn : readInput next nodeName inputName with
    | throwing => exact absurd hn hnext
    | sizeless => exact ⟨diff, rfl⟩
    | places qs =>
      have hnames : ∀ sourceIndex, ¬ (placeAt ps sourceIndex).Perm (placeAt qs sourceIndex) →
          nodeName ∉ inheritedNames ∧ inputName ∉ inheritedNames := fun sourceIndex hne =>
        ⟨fun hin => hne (h.equal _ _ (.inl hin) ps qs hp hn sourceIndex),
          fun hin => hne (h.equal _ _ (.inr hin) ps qs hp hn sourceIndex)⟩
      obtain ⟨diff', hok, -⟩ := compareIndexes_ok stringify (List.range (max ps.length qs.length)) hnames diff
      exact ⟨diff', hok⟩

theorem Comparable.compareConnections_ok (stringify : IConnection ↪ String) (h : Comparable prev next) :
    ∃ diff, compareConnections stringify prev next = .ok diff := by
  refine (foldlM_rule (fun _ _ => True) trivial fun _ nodeName _ diff _ => ?_).imp fun _ hdiff => hdiff.1
  refine foldlM_rule (fun _ _ => True) trivial fun pre inputName hpre diff _ => ?_
  have hmem := mem_unionNames.1 (hpre.subset (List.mem_append_right pre List.mem_cons_self))
  exact (h.compareInput_ok stringify hmem diff).imp fun _ hok => ⟨hok, trivial⟩

theorem Comparable.of_own (h : ∀ connections ∈ [prev, next], ∀ nodeName ∈ connections.keys,
    nodeName ∉ inheritedNames ∧ ∀ inputName ∈ inputNames connections nodeName, inputName ∉ inheritedNames) :
    Comparable prev next := by
  have hnil : ∀ connections ∈ [prev, next], ∀ nodeName inputName,
      nodeName ∈ inheritedNames ∨ inputName ∈ inheritedNames → placesOf connections nodeName inputName = [] := by
    intro connections hc nodeName inputName hin
    by_cases hkey : nodeName ∈ connections.keys
    · refine placesOf_of_notMem fun hinput => ?_
      exact hin.elim (h connections hc nodeName hkey).1 ((h connections hc nodeName hkey).2 inputName hinput)
    · exact placesOf_of_notKey hkey
  have hread : ∀ connections ∈ [prev, next], ∀ nodeName inputName,
      nodeName ∈ inheritedNames ∨ inputName ∈ inheritedNames → ∀ places,
        readInput connections nodeName inputName = .places places → places = [] := by
    intro connections hc nodeName inputName hin places hread
    rcases readInput_cases connections nodeName inputName with hp | ⟨hp, -⟩ | ⟨hp, -⟩
    · rw [hnil connections hc nodeName inputName hin] at hp
      exact InputReading.places.inj (hread.symm.trans hp)
    · exact nomatch hread.symm.trans hp
    · exact nomatch hread.symm.trans hp
  refine ⟨fun nodeName inputName hvisited => ?_, fun nodeName inputName hin ps qs hps hqs sourceIndex => ?_⟩
  · have hkey : ∀ connections, inputName ∈ inputNames connections nodeName → nodeName ∈ connections.keys := by
      intro connections hinput
      rw [inputNames] at hinput
      rw [ObjectMap.mem_keys]
      cases hget : connections.get? nodeName with
      | none => simp [hget] at hinput
      | some byType => rfl
    have hnode : nodeName ∉ inheritedNames := hvisited.elim
      (fun hp => (h prev List.mem_cons_self nodeName (hkey prev hp)).1)
      fun hn => (h next (List.mem_cons_of_mem _ List.mem_cons_self) nodeName (hkey next hn)).1
    constructor
    · intro hthrow
      rcases readInput_cases prev nodeName inputName with hp | ⟨hp, -⟩ | ⟨-, hinherited, -⟩
      · exact nomatch hthrow.symm.trans hp
      · exact nomatch hthrow.symm.trans hp
      · exact hnode hinherited
    · intro hthrow
      rcases readInput_cases next nodeName inputName with hp | ⟨hp, -⟩ | ⟨-, hinherited, -⟩
      · exact nomatch hthrow.symm.trans hp
      · exact nomatch hthrow.symm.trans hp
      · exact hnode hinherited
  · rw [hread prev List.mem_cons_self _ _ hin ps hps,
      hread next (List.mem_cons_of_mem _ List.mem_cons_self) _ _ hin qs hqs]

end Walk

section Exactness

variable {stringify : IConnection ↪ String} {prev next : IConnections} {diff : ConnectionsDiff}

theorem Sides.entriesAt (h : Sides stringify prev next (fun _ _ => true) diff) (nodeName inputName : String)
    (sourceIndex : Nat) (c : IConnection) :
    (entriesAt diff.added nodeName inputName sourceIndex).count c =
        (bucket next nodeName inputName sourceIndex).count c - (bucket prev nodeName inputName sourceIndex).count c ∧
      (entriesAt diff.removed nodeName inputName sourceIndex).count c =
        (bucket prev nodeName inputName sourceIndex).count c - (bucket next nodeName inputName sourceIndex).count c := by
  have hconnections : ∀ values : List ConnectionValue, (values.map (ConnectionEntry.mk sourceIndex)).map
      (fun entry => entry.value.connection) = values.map ConnectionValue.connection := fun values => by simp
  constructor
  · rw [Connections.entriesAt, h.added, if_pos rfl, sideEntries, filter_inputEntries, indexEntries, hconnections,
      count_surplus_groupByValue]
    rfl
  · rw [Connections.entriesAt, h.removed, if_pos rfl, sideEntries, filter_inputEntries, indexEntries, hconnections,
      count_surplus_groupByValue]
    rfl

theorem Sides.exact (h : Sides stringify prev next (fun _ _ => true) diff) : diff.Exact prev next where
  count nodeName inputName sourceIndex c := by
    obtain ⟨hadded, hremoved⟩ := h.entriesAt nodeName inputName sourceIndex c
    omega
  disjoint nodeName inputName sourceIndex c hadded hremoved := by
    obtain ⟨hcount, hcount'⟩ := h.entriesAt nodeName inputName sourceIndex c
    have hpos := List.count_pos_iff.2 hadded
    have hpos' := List.count_pos_iff.2 hremoved
    omega
  empty := by
    rw [h.filled.1.eq_empty_iff, h.filled.2.eq_empty_iff]
    constructor
    · rintro ⟨hadded, hremoved⟩ nodeName inputName sourceIndex
      rw [List.perm_iff_count]
      intro c
      obtain ⟨hcount, hcount'⟩ := h.entriesAt nodeName inputName sourceIndex c
      rw [Connections.entriesAt, hadded] at hcount
      rw [Connections.entriesAt, hremoved] at hcount'
      simp only [List.filter_nil, List.map_nil, List.count_nil] at hcount hcount'
      omega
    · intro hperm
      constructor
      · intro nodeName inputName
        rw [h.added, if_pos rfl]
        exact inputEntries_nil fun sourceIndex => (hperm nodeName inputName sourceIndex).symm
      · intro nodeName inputName
        rw [h.removed, if_pos rfl]
        exact inputEntries_nil (hperm nodeName inputName)

theorem NamesOwn.symm (h : NamesOwn prev next) : NamesOwn next prev where
  equal nodeName inputName hin sourceIndex := (h.equal nodeName inputName hin sourceIndex).symm
  readable nodeName inputName hnode hself hthrow := (h.readable nodeName inputName hnode hself hthrow).symm

theorem compareIndex_ownNames {ps qs : NodeInputConnections}
    {diff' : ConnectionsDiff} (hown : OwnNames diff.added ∧ OwnNames diff.removed)
    (h : compareIndex stringify ps qs nodeName inputName diff sourceIndex = .ok diff') :
    OwnNames diff'.added ∧ OwnNames diff'.removed := by
  rw [compareIndex] at h
  cases hadded : (surplus (groupByValue stringify (placeAt qs sourceIndex))
      (groupByValue stringify (placeAt ps sourceIndex))).foldlM (record nodeName inputName sourceIndex) diff.added with
  | error e => simp [hadded, bind, Except.bind] at h
  | ok added =>
    cases hremoved : (surplus (groupByValue stringify (placeAt ps sourceIndex))
        (groupByValue stringify (placeAt qs sourceIndex))).foldlM (record nodeName inputName sourceIndex) diff.removed with
    | error e => simp [hadded, hremoved, bind, Except.bind] at h
    | ok removed =>
      simp only [hadded, hremoved, bind, Except.bind, Except.ok.injEq] at h
      subst h
      exact ⟨records_ownNames hown.1 hadded, records_ownNames hown.2 hremoved⟩

theorem compareInput_ownNames {diff' : ConnectionsDiff} (hown : OwnNames diff.added ∧ OwnNames diff.removed)
    (h : compareInput stringify prev next nodeName diff inputName = .ok diff') :
    OwnNames diff'.added ∧ OwnNames diff'.removed := by
  rw [compareInput] at h
  split at h
  · cases h
  · cases h
  · exact foldlM_partial_rule (fun _ diff => OwnNames diff.added ∧ OwnNames diff.removed) h hown
      fun _ _ _ _ hown₁ hstep => compareIndex_ownNames hown₁ hstep
  · cases h
    exact hown

theorem compareConnections_ownNames (h : compareConnections stringify prev next = .ok diff) :
    OwnNames diff.added ∧ OwnNames diff.removed :=
  foldlM_partial_rule (fun _ diff => OwnNames diff.added ∧ OwnNames diff.removed) h
    ⟨fun _ _ _ => rfl, fun _ _ _ => rfl⟩ fun _ _ _ _ hown hnode =>
      foldlM_partial_rule (fun _ diff => OwnNames diff.added ∧ OwnNames diff.removed) hnode hown
        fun _ _ _ _ hown₁ hstep => compareInput_ownNames hown₁ hstep

theorem compareInput_of_ok (h : compareConnections stringify prev next = .ok diff)
    (hvisited : inputName ∈ inputNames prev nodeName ∨ inputName ∈ inputNames next nodeName) :
    ∃ diff₁ diff₂, compareInput stringify prev next nodeName diff₁ inputName = .ok diff₂ := by
  have hkey : ∀ connections : IConnections, inputName ∈ inputNames connections nodeName → nodeName ∈ connections.keys := by
    intro connections hin
    rw [ObjectMap.mem_keys]
    cases hget : connections.get? nodeName with
    | none => simp [inputNames, hget] at hin
    | some byType => rfl
  obtain ⟨diff₁, diff₂, hnode⟩ := foldlM_turn h (mem_unionNames.2 (hvisited.imp (hkey prev) (hkey next)))
  exact foldlM_turn hnode (mem_unionNames.2 hvisited)

theorem readInput_unreadable (hnode : nodeName ∈ inheritedNames)
    (hself : nodeName ≠ "__proto__") (hthrow : inputName ∈ ["name", "caller", "arguments"])
    (hnot : connections.has nodeName = false) : readInput connections nodeName inputName = .throwing := by
  rw [ObjectMap.has, Option.isSome_eq_false_iff, Option.isNone_iff_eq_none] at hnot
  rw [readInput, hnot]
  simp only [if_pos hnode, if_neg hself, if_pos hthrow]

/-- The comparison is an exact difference of multisets if and only if no inherited name comes between. -/
theorem exactDifference_iff (stringify : IConnection ↪ String) (prev next : IConnections) :
    ExactDifference stringify prev next ↔ NamesOwn prev next := by
  constructor
  · rintro ⟨diff, -, hok, -, hexact, -⟩
    obtain ⟨hadded, hremoved⟩ := compareConnections_ownNames hok
    refine ⟨fun nodeName inputName hin sourceIndex => ?_, fun nodeName inputName hnode hself hthrow => ⟨?_, ?_⟩⟩
    · rw [List.perm_iff_count]
      intro c
      have hcount := hexact.count nodeName inputName sourceIndex c
      rw [entriesAt, entriesAt, hadded nodeName inputName hin, hremoved nodeName inputName hin] at hcount
      simp only [List.filter_nil, List.map_nil, List.count_nil] at hcount
      omega
    · intro hin
      by_contra hnot
      obtain ⟨diff₁, diff₂, hstep⟩ := compareInput_of_ok hok (.inl hin)
      have hmissing : next.has nodeName = false := by simpa using hnot
      rw [compareInput, readInput_unreadable hnode hself hthrow hmissing] at hstep
      cases hread : readInput prev nodeName inputName <;> simp [hread] at hstep
    · intro hin
      by_contra hnot
      obtain ⟨diff₁, diff₂, hstep⟩ := compareInput_of_ok hok (.inr hin)
      have hmissing : prev.has nodeName = false := by simpa using hnot
      rw [compareInput, readInput_unreadable hnode hself hthrow hmissing] at hstep
      simp at hstep
  · intro h
    obtain ⟨diff, hok, hsides⟩ := compareConnections_ok stringify h
    obtain ⟨swapped, hswapped, hsides'⟩ := compareConnections_ok stringify h.symm
    refine ⟨diff, swapped, hok, hswapped, hsides.exact, fun nodeName inputName => ⟨?_, ?_⟩⟩
    · rw [hsides'.added, hsides.removed]
    · rw [hsides'.removed, hsides.added]

/-- A new node with the name of an inherited member: its connection is on neither side. -/
theorem constructor_node_lost : ¬ ∃ stringify : IConnection ↪ String, ExactDifference stringify .empty
    (ObjectMap.ofList [("constructor", ObjectMap.ofList [("main", [some [⟨"Set", "main", 0⟩]])])]) := by
  rintro ⟨stringify, diff, -, hok, -, hexact, -⟩
  have hcount := hexact.count "constructor" "main" 0 ⟨"Set", "main", 0⟩
  obtain ⟨hadded, hremoved⟩ := compareConnections_ownNames hok
  rw [entriesAt, entriesAt, hadded _ _ (.inl (by decide)), hremoved _ _ (.inl (by decide))] at hcount
  revert hcount
  decide

end Exactness

end N8n.WorkflowDiff.Connections
