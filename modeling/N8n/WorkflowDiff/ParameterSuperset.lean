import Mathlib.Data.List.Dedup
import Mathlib.Data.List.Perm.Subperm
import N8n.Lib.CodeUnits
import N8n.Workflow.Interfaces

namespace N8n.WorkflowDiff

open Lib

/-- A value as JSON has it. Of several fields of an object with one key the first counts. -/
inductive ParameterValue where
  | null
  | bool (b : Bool)
  | num (q : Rat)
  | str (s : CodeUnits)
  | arr (items : List ParameterValue)
  | obj (fields : List (String × ParameterValue))

abbrev Fields := List (String × ParameterValue)

def fieldKeys (fields : Fields) : List String := (fields.map Prod.fst).dedup

/-- `Object.keys`, of an array too. -/
def ParameterValue.keys : ParameterValue → List String
  | .arr items => (List.range items.length).map toString
  | .obj fields => fieldKeys fields
  | _ => []

/-- An array has its items and its `length` as properties of its own. -/
def ParameterValue.ownProperty : ParameterValue → String → Option ParameterValue
  | .arr items, key =>
    if key = "length" then some (.num items.length)
    else (arrayIndex key).bind fun i => items[i]?
  | .obj fields, key => Entries.lookup key fields
  | _, _ => none

/-- The loop over `s`, with the units of `substr` that were found before. -/
def containsPartsLoop (substr : CodeUnits) (diffSize : Nat) : CodeUnits → Nat → Nat → Bool
  | [], _, marker => decide (marker ≥ substr.length)
  | c :: rest, i, marker =>
    let marker := if substr[marker]? = some c then marker + 1 else marker
    if (i : Int) - marker > diffSize then false else containsPartsLoop substr diffSize rest (i + 1) marker

def stringContainsParts (s substr : CodeUnits) : Bool :=
  if substr.length > s.length then false
  else containsPartsLoop substr (s.length - substr.length) s 0 0

def hasKeysOf (fields : Fields) (next : ParameterValue) : Bool :=
  (fieldKeys fields).length == next.keys.length &&
    !(fieldKeys fields).any fun key => (next.ownProperty key).isNone

mutual

@[grind =] def parametersAreSuperset : ParameterValue → ParameterValue → Bool
  | .str s, .str t => stringContainsParts t s
  | .null, .null => true
  | .bool b, .bool b' => b == b'
  | .num q, .num q' => decide (q = q')
  | .arr items, .arr items' => items.length == items'.length && everyItem items items'
  | .obj fields, .arr items => hasKeysOf fields (.arr items) && everyField fields [] (.arr items)
  | .obj fields, .obj fields' => hasKeysOf fields (.obj fields') && everyField fields [] (.obj fields')
  | _, _ => false

def everyItem : List ParameterValue → List ParameterValue → Bool
  | v :: items, w :: items' => parametersAreSuperset v w && everyItem items items'
  | _, _ => true

def everyField : Fields → List String → ParameterValue → Bool
  | [], _, _ => true
  | (key, v) :: fields, seen, next =>
    (key ∈ seen || (next.ownProperty key).any fun w => parametersAreSuperset v w) &&
      everyField fields (key :: seen) next

end

theorem drop_sublist_cons {substr rest : CodeUnits} {marker : Nat} {c : UInt16} (hm : marker ≤ substr.length) :
    (if substr[marker]? = some c then marker + 1 else marker) ≤ substr.length ∧
      ((substr.drop marker).Sublist (c :: rest) ↔
        (substr.drop (if substr[marker]? = some c then marker + 1 else marker)).Sublist rest) := by
  split
  · next hc =>
    obtain ⟨hlt, hget⟩ := List.getElem?_eq_some_iff.1 hc
    refine ⟨hlt, ?_⟩
    rw [List.drop_eq_getElem_cons hlt, hget]
    exact List.cons_sublist_cons
  · next hc =>
    refine ⟨hm, fun h => ?_, fun h => h.cons c⟩
    rcases Nat.lt_or_eq_of_le hm with hlt | rfl
    · rw [List.drop_eq_getElem_cons hlt] at h ⊢
      refine List.Sublist.of_cons_of_ne (fun he => hc ?_) h
      rw [List.getElem?_eq_getElem hlt, he]
    · rw [List.drop_length]
      exact List.nil_sublist rest

theorem containsPartsLoop_iff {substr rest : CodeUnits} {n i marker : Nat} (hn : substr.length ≤ n)
    (hm : marker ≤ substr.length) (hi : i + rest.length = n) :
    containsPartsLoop substr (n - substr.length) rest i marker = true ↔ (substr.drop marker).Sublist rest := by
  induction rest generalizing i marker with
  | nil => simp [containsPartsLoop, List.drop_eq_nil_iff]
  | cons c rest ih =>
    obtain ⟨hm', hiff⟩ := @drop_sublist_cons substr rest marker c hm
    rw [hiff, containsPartsLoop]
    rw [List.length_cons] at hi
    generalize (if substr[marker]? = some c then marker + 1 else marker) = marker' at hm'
    split
    · next hover =>
      refine iff_of_false Bool.false_ne_true fun h => ?_
      have hlen := h.length_le
      rw [List.length_drop] at hlen
      omega
    · exact ih hm' (by omega)

theorem stringContainsParts_iff (s substr : CodeUnits) : stringContainsParts s substr = true ↔ substr.Sublist s := by
  rw [stringContainsParts]
  split
  · next hlong => exact iff_of_false Bool.false_ne_true fun h => absurd h.length_le (Nat.not_le.2 hlong)
  · next hshort =>
    have hloop := @containsPartsLoop_iff substr s _ 0 0 (Nat.not_lt.1 hshort) (Nat.zero_le _) (Nat.zero_add s.length)
    rwa [List.drop_zero] at hloop

/-- The values have one shape, and each string of the first is a subsequence of its counterpart. If `asObjects` holds,
an array may also stand for an object whose keys are properties of the array. -/
inductive Matches (asObjects : Prop) : ParameterValue → ParameterValue → Prop where
  | null : Matches asObjects .null .null
  | bool (b) : Matches asObjects (.bool b) (.bool b)
  | num (q) : Matches asObjects (.num q) (.num q)
  | str {s t : CodeUnits} (h : s.Sublist t) : Matches asObjects (.str s) (.str t)
  | arr {items items' : List ParameterValue} (hlength : items.length = items'.length)
      (h : ∀ (i : Nat) v w, items[i]? = some v → items'[i]? = some w → Matches asObjects v w) :
      Matches asObjects (.arr items) (.arr items')
  | obj {fields fields' : Fields} (hkeys : ∀ key, key ∈ fieldKeys fields ↔ key ∈ fieldKeys fields')
      (h : ∀ key v w, Entries.lookup key fields = some v → Entries.lookup key fields' = some w →
        Matches asObjects v w) :
      Matches asObjects (.obj fields) (.obj fields')
  | array {fields : Fields} {items : List ParameterValue} (has : asObjects)
      (hlength : (fieldKeys fields).length = items.length)
      (hkeys : ∀ key ∈ fieldKeys fields, ((ParameterValue.arr items).ownProperty key).isSome = true)
      (h : ∀ key v w, Entries.lookup key fields = some v → (ParameterValue.arr items).ownProperty key = some w →
        Matches asObjects v w) :
      Matches asObjects (.obj fields) (.arr items)

/-- `next` loses nothing of `prev`. -/
abbrev IsSuperset (prev next : ParameterValue) : Prop := Matches False prev next

/-- At some place the first value has an object where the second has an array. -/
inductive ObjectAgainstArray : ParameterValue → ParameterValue → Prop where
  | here (fields items) : ObjectAgainstArray (.obj fields) (.arr items)
  | item {items items' : List ParameterValue} (i : Nat) {v w : ParameterValue} (hv : items[i]? = some v)
      (hw : items'[i]? = some w) (h : ObjectAgainstArray v w) : ObjectAgainstArray (.arr items) (.arr items')
  | field {fields fields' : Fields} (key : String) {v w : ParameterValue} (hv : Entries.lookup key fields = some v)
      (hw : Entries.lookup key fields' = some w) (h : ObjectAgainstArray v w) :
      ObjectAgainstArray (.obj fields) (.obj fields')

theorem mem_fieldKeys {fields : Fields} {key : String} :
    key ∈ fieldKeys fields ↔ (Entries.lookup key fields).isSome = true := by
  rw [fieldKeys, List.mem_dedup, ← not_iff_not, Bool.not_eq_true, Option.isSome_eq_false_iff,
    Option.isNone_iff_eq_none, Entries.lookup_eq_none]

theorem everyItem_iff {items items' : List ParameterValue} :
    everyItem items items' = true ↔
      ∀ (i : Nat) v w, items[i]? = some v → items'[i]? = some w → parametersAreSuperset v w = true := by
  induction items generalizing items' with
  | nil => simp [everyItem]
  | cons v items ih =>
    cases items' with
    | nil => simp [everyItem]
    | cons w items' =>
      rw [everyItem, Bool.and_eq_true, ih]
      constructor
      · rintro ⟨hvw, hrest⟩ (_ | i) v' w' hv hw
        · cases hv
          cases hw
          exact hvw
        · exact hrest i v' w' hv hw
      · intro h
        exact ⟨h 0 v w rfl rfl, fun i v' w' hv hw => h (i + 1) v' w' hv hw⟩

theorem everyField_iff {fields : Fields} {seen : List String} {next : ParameterValue} :
    everyField fields seen next = true ↔ ∀ key v, key ∉ seen → Entries.lookup key fields = some v →
      ∃ w, next.ownProperty key = some w ∧ parametersAreSuperset v w = true := by
  induction fields generalizing seen with
  | nil => simp [everyField, Entries.lookup]
  | cons e fields ih =>
    obtain ⟨k, u⟩ := e
    rw [everyField, Bool.and_eq_true, ih, Bool.or_eq_true, decide_eq_true_eq, Option.any_eq_true]
    constructor
    · rintro ⟨hfirst, hrest⟩ key v hseen hv
      rw [Entries.lookup] at hv
      split at hv
      · next he =>
        cases hv
        subst he
        exact hfirst.resolve_left hseen
      · next hne =>
        refine hrest key v (fun hm => ?_) hv
        exact (List.mem_cons.1 hm).elim (fun he => hne he.symm) hseen
    · intro h
      refine ⟨or_iff_not_imp_left.2 fun hseen => h k u hseen (by simp [Entries.lookup]), fun key v hseen hv => ?_⟩
      have hne : key ≠ k := fun he => hseen (he ▸ List.mem_cons_self)
      exact h key v (fun hm => hseen (List.mem_cons_of_mem _ hm)) (by rwa [Entries.lookup, if_neg hne.symm])

theorem superset_arr {items items' : List ParameterValue} :
    parametersAreSuperset (.arr items) (.arr items') = true ↔ items.length = items'.length ∧
      ∀ (i : Nat) v w, items[i]? = some v → items'[i]? = some w → parametersAreSuperset v w = true := by
  rw [parametersAreSuperset, Bool.and_eq_true, beq_iff_eq, everyItem_iff]

theorem hasKeysOf_iff {fields : Fields} {next : ParameterValue} :
    hasKeysOf fields next = true ↔ (fieldKeys fields).length = next.keys.length ∧
      ∀ key ∈ fieldKeys fields, (next.ownProperty key).isSome = true := by
  simp [hasKeysOf, Option.isSome_iff_ne_none]

theorem everyField_of_keys {fields : Fields} {next : ParameterValue}
    (hkeys : ∀ key ∈ fieldKeys fields, (next.ownProperty key).isSome = true) :
    everyField fields [] next = true ↔ ∀ key v w, Entries.lookup key fields = some v →
      next.ownProperty key = some w → parametersAreSuperset v w = true := by
  rw [everyField_iff]
  constructor
  · intro h key v w hv hw
    obtain ⟨w', hw', hs⟩ := h key v List.not_mem_nil hv
    cases hw.symm.trans hw'
    exact hs
  · intro h key v _ hv
    obtain ⟨w, hw⟩ := Option.isSome_iff_exists.1 (hkeys key (mem_fieldKeys.2 (hv ▸ rfl)))
    exact ⟨w, hw, h key v w hv hw⟩

theorem superset_array {fields : Fields} {items : List ParameterValue} :
    parametersAreSuperset (.obj fields) (.arr items) = true ↔ ((fieldKeys fields).length = items.length ∧
      ∀ key ∈ fieldKeys fields, ((ParameterValue.arr items).ownProperty key).isSome = true) ∧
      ∀ key v w, Entries.lookup key fields = some v → (ParameterValue.arr items).ownProperty key = some w →
        parametersAreSuperset v w = true := by
  rw [parametersAreSuperset, Bool.and_eq_true, hasKeysOf_iff, ParameterValue.keys, List.length_map, List.length_range]
  exact and_congr_right fun h => everyField_of_keys h.2

theorem same_keys_iff {fields fields' : Fields} :
    ((fieldKeys fields).length = (fieldKeys fields').length ∧ ∀ key ∈ fieldKeys fields, key ∈ fieldKeys fields') ↔
      ∀ key, key ∈ fieldKeys fields ↔ key ∈ fieldKeys fields' := by
  have hnodup : (fieldKeys fields).Nodup := List.nodup_dedup _
  have hnodup' : (fieldKeys fields').Nodup := List.nodup_dedup _
  constructor
  · rintro ⟨hlength, hsub⟩ key
    exact ((List.subperm_of_subset hnodup hsub).perm_of_length_le hlength.ge).mem_iff
  · intro h
    exact ⟨((List.perm_ext_iff_of_nodup hnodup hnodup').2 h).length_eq, fun key hk => (h key).1 hk⟩

theorem superset_obj {fields fields' : Fields} :
    parametersAreSuperset (.obj fields) (.obj fields') = true ↔
      (∀ key, key ∈ fieldKeys fields ↔ key ∈ fieldKeys fields') ∧
      ∀ key v w, Entries.lookup key fields = some v → Entries.lookup key fields' = some w →
        parametersAreSuperset v w = true := by
  have hown : (∀ key ∈ fieldKeys fields, ((ParameterValue.obj fields').ownProperty key).isSome = true) ↔
      ∀ key ∈ fieldKeys fields, key ∈ fieldKeys fields' := by
    simp only [mem_fieldKeys, ParameterValue.ownProperty]
  rw [parametersAreSuperset, Bool.and_eq_true, hasKeysOf_iff, ParameterValue.keys, ← same_keys_iff, ← hown]
  exact and_congr_right fun h => everyField_of_keys h.2

theorem sizeOf_item {items : List ParameterValue} {i : Nat} {v : ParameterValue} (h : items[i]? = some v) :
    sizeOf v < sizeOf (ParameterValue.arr items) := by
  have hlt := List.sizeOf_lt_of_mem (List.mem_of_getElem? h)
  rw [ParameterValue.arr.sizeOf_spec]
  omega

theorem sizeOf_field {fields : Fields} {key : String} {v : ParameterValue} (h : Entries.lookup key fields = some v) :
    sizeOf v < sizeOf (ParameterValue.obj fields) := by
  have hlt := List.sizeOf_lt_of_mem (Entries.lookup_mem h)
  rw [Prod.mk.sizeOf_spec] at hlt
  rw [ParameterValue.obj.sizeOf_spec]
  omega

theorem matches_of_superset {prev next : ParameterValue} (h : parametersAreSuperset prev next = true) :
    Matches True prev next := by
  induction hn : sizeOf prev using Nat.strongRecOn generalizing prev next with
  | ind n ih =>
    subst hn
    cases prev with
    | arr items =>
      cases next with
      | arr items' =>
        obtain ⟨hlength, hitems⟩ := superset_arr.1 h
        exact .arr hlength fun i v w hv hw => ih _ (sizeOf_item hv) (hitems i v w hv hw) rfl
      | _ => simp [parametersAreSuperset] at h
    | obj fields =>
      cases next with
      | arr items =>
        obtain ⟨⟨hlength, hkeys⟩, hfields⟩ := superset_array.1 h
        exact .array trivial hlength hkeys fun key v w hv hw => ih _ (sizeOf_field hv) (hfields key v w hv hw) rfl
      | obj fields' =>
        obtain ⟨hkeys, hfields⟩ := superset_obj.1 h
        exact .obj hkeys fun key v w hv hw => ih _ (sizeOf_field hv) (hfields key v w hv hw) rfl
      | _ => simp [parametersAreSuperset] at h
    | str s =>
      cases next with
      | str t =>
        rw [parametersAreSuperset, stringContainsParts_iff] at h
        exact .str h
      | _ => simp [parametersAreSuperset] at h
    | null =>
      cases next with
      | null => exact .null
      | _ => simp [parametersAreSuperset] at h
    | bool b =>
      cases next with
      | bool b' =>
        rw [parametersAreSuperset, beq_iff_eq] at h
        exact h ▸ .bool b
      | _ => simp [parametersAreSuperset] at h
    | num q =>
      cases next with
      | num q' =>
        rw [parametersAreSuperset, decide_eq_true_eq] at h
        exact h ▸ .num q
      | _ => simp [parametersAreSuperset] at h

theorem superset_of_matches {prev next : ParameterValue} (h : Matches True prev next) :
    parametersAreSuperset prev next = true := by
  induction h with
  | null => rfl
  | bool b => simp [parametersAreSuperset]
  | num q => simp [parametersAreSuperset]
  | str h => rwa [parametersAreSuperset, stringContainsParts_iff]
  | arr hlength _ ih => exact superset_arr.2 ⟨hlength, ih⟩
  | obj hkeys _ ih => exact superset_obj.2 ⟨hkeys, ih⟩
  | array _ hlength hkeys _ ih => exact superset_array.2 ⟨⟨hlength, hkeys⟩, ih⟩

theorem superset_iff_matches {prev next : ParameterValue} :
    parametersAreSuperset prev next = true ↔ Matches True prev next :=
  ⟨matches_of_superset, superset_of_matches⟩

theorem Matches.weaken {prev next : ParameterValue} (h : IsSuperset prev next) : Matches True prev next := by
  induction h with
  | null => exact .null
  | bool b => exact .bool b
  | num q => exact .num q
  | str h => exact .str h
  | arr hlength _ ih => exact .arr hlength ih
  | obj hkeys _ ih => exact .obj hkeys ih
  | array has => exact has.elim

theorem IsSuperset.not_objectAgainstArray {prev next : ParameterValue} (h : IsSuperset prev next) :
    ¬ ObjectAgainstArray prev next := by
  intro hagainst
  induction hagainst with
  | here fields items =>
    cases h with
    | array has => exact has
  | item i hv hw _ ih =>
    cases h with
    | arr _ hitems => exact ih (hitems i _ _ hv hw)
  | field key hv hw _ ih =>
    cases h with
    | obj _ hfields => exact ih (hfields key _ _ hv hw)

theorem isSuperset_of_matches {prev next : ParameterValue} (h : Matches True prev next)
    (hn : ¬ ObjectAgainstArray prev next) : IsSuperset prev next := by
  induction h with
  | null => exact .null
  | bool b => exact .bool b
  | num q => exact .num q
  | str h => exact .str h
  | arr hlength _ ih => exact .arr hlength fun i v w hv hw => ih i v w hv hw fun ha => hn (.item i hv hw ha)
  | obj hkeys _ ih => exact .obj hkeys fun key v w hv hw => ih key v w hv hw fun ha => hn (.field key hv hw ha)
  | array => exact absurd (.here _ _) hn

theorem Matches.refl (v : ParameterValue) : Matches True v v := by
  induction hn : sizeOf v using Nat.strongRecOn generalizing v with
  | ind n ih =>
    subst hn
    cases v with
    | null => exact .null
    | bool b => exact .bool b
    | num q => exact .num q
    | str s => exact .str (List.Sublist.refl s)
    | arr items =>
      refine .arr rfl fun i u w hu hw => ?_
      cases hu.symm.trans hw
      exact ih _ (sizeOf_item hu) u rfl
    | obj fields =>
      refine .obj (fun _ => Iff.rfl) fun key u w hu hw => ?_
      cases hu.symm.trans hw
      exact ih _ (sizeOf_field hu) u rfl

theorem ownProperty_arr {items items' : List ParameterValue} (hlength : items.length = items'.length) {key : String}
    {w : ParameterValue} (hw : (ParameterValue.arr items').ownProperty key = some w) :
    (ParameterValue.arr items).ownProperty key = some w ∨ ∃ (i : Nat) (u : ParameterValue),
      (ParameterValue.arr items).ownProperty key = some u ∧ items[i]? = some u ∧ items'[i]? = some w := by
  rw [ParameterValue.ownProperty] at hw ⊢
  by_cases hkey : key = "length"
  · rw [if_pos hkey] at hw ⊢
    exact .inl (by rw [hlength, hw])
  · rw [if_neg hkey] at hw ⊢
    obtain ⟨i, hi, hget⟩ := Option.bind_eq_some_iff.1 hw
    have hlt := hlength ▸ (List.getElem?_eq_some_iff.1 hget).1
    refine .inr ⟨i, items[i], ?_, List.getElem?_eq_getElem hlt, hget⟩
    rw [hi, Option.bind_some, List.getElem?_eq_getElem hlt]

theorem Matches.trans {a b c : ParameterValue} (h : Matches True a b) (h' : Matches True b c) : Matches True a c := by
  induction h generalizing c with
  | null | bool | num => exact h'
  | str h =>
    cases h' with
    | str h' => exact .str (h.trans h')
  | arr hlength _ ih =>
    cases h' with
    | arr hlength' hitems =>
      refine .arr (hlength.trans hlength') fun i v w hv hw => ?_
      have hlt := hlength' ▸ (List.getElem?_eq_some_iff.1 hw).1
      exact ih i v _ hv (List.getElem?_eq_getElem hlt) (hitems i _ w (List.getElem?_eq_getElem hlt) hw)
  | obj hkeys _ ih =>
    have hmiddle : ∀ {key v}, Entries.lookup key _ = some v → ∃ u, Entries.lookup key _ = some u := fun {key v} hv =>
      Option.isSome_iff_exists.1 (mem_fieldKeys.1 ((hkeys key).1 (mem_fieldKeys.2 (hv ▸ rfl))))
    cases h' with
    | obj hkeys' hfields =>
      refine .obj (fun key => (hkeys key).trans (hkeys' key)) fun key v w hv hw => ?_
      obtain ⟨u, hu⟩ := hmiddle hv
      exact ih key v u hv hu (hfields key u w hu hw)
    | array has hlength hown hfields =>
      refine .array has ((same_keys_iff.2 hkeys).1.trans hlength) (fun key hk => hown key ((hkeys key).1 hk))
        fun key v w hv hw => ?_
      obtain ⟨u, hu⟩ := hmiddle hv
      exact ih key v u hv hu (hfields key u w hu hw)
  | array has hlength hown hfields ih =>
    cases h' with
    | arr hlength' hitems =>
      refine .array has (hlength.trans hlength') (fun key hk => ?_) fun key v w hv hw => ?_
      · obtain ⟨u, hu⟩ := Option.isSome_iff_exists.1 (hown key hk)
        obtain h | ⟨i, w, h, -, -⟩ := ownProperty_arr hlength'.symm hu
        · exact h ▸ rfl
        · exact h ▸ rfl
      · obtain h | ⟨i, u, hu, hi, hi'⟩ := ownProperty_arr hlength' hw
        · exact hfields key v w hv h
        · exact ih key v u hv hu (hitems i u w hi hi')

/-- The comparison finds the supersets, unless an array of `next` matches where `prev` has an object. -/
theorem superset_iff (prev next : ParameterValue) :
    ((parametersAreSuperset prev next = true ↔ IsSuperset prev next) ↔
        ¬ (ObjectAgainstArray prev next ∧ Matches True prev next)) ∧
      parametersAreSuperset prev prev = true ∧
      (∀ middle, parametersAreSuperset prev middle = true → parametersAreSuperset middle next = true →
        parametersAreSuperset prev next = true) ∧
      ∀ s substr, stringContainsParts s substr = true ↔ substr.Sublist s := by
  refine ⟨?_, superset_of_matches (.refl prev), fun middle h h' => ?_, stringContainsParts_iff⟩
  · rw [superset_iff_matches]
    constructor
    · rintro h ⟨hagainst, hm⟩
      exact (h.1 hm).not_objectAgainstArray hagainst
    · intro h
      exact ⟨fun hm => isSuperset_of_matches hm fun ha => h ⟨ha, hm⟩, Matches.weaken⟩
  · exact superset_of_matches ((matches_of_superset h).trans (matches_of_superset h'))

/-- The object is taken for the array whose indices are its keys. -/
theorem array_for_object : ¬ ∀ prev next, parametersAreSuperset prev next = true ↔ IsSuperset prev next := by
  intro h
  have hsuper := (h (.obj [("0", .num 1)]) (.arr [.num 1])).1 (by decide +kernel)
  exact hsuper.not_objectAgainstArray (.here _ _)

end N8n.WorkflowDiff
