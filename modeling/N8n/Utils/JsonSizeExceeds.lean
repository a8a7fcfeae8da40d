import N8n.Lib.JsonBytes
import Mathlib.Data.Fintype.Card
import Mathlib.Logic.Relation

namespace N8n.JsonSize

open N8n.Lib N8n.Lib.JsonText N8n.Lib.Utf16

inductive JsNumber where
  | nonFinite
  | finite (x : Decimal)

inductive JsValue (ρ : Type) where
  | undefined
  | function
  | symbol
  | null
  | boolean (b : Bool)
  | number (x : JsNumber)
  | string (s : CodeUnits)
  | container (r : ρ)

inductive Members (ρ : Type) where
  | elements (elements : List (JsValue ρ))
  | entries (entries : List (CodeUnits × JsValue ρ))

/-- An array or an object. Its `toJSON`, if it has one, is given the key that holds it. -/
structure Container (ρ : Type) where
  members : Members ρ
  toJSON : Option (CodeUnits → JsValue ρ)

abbrev Heap (ρ : Type) := ρ → Container ρ

inductive Key where
  | index (i : Nat)
  | name (name : CodeUnits)

def Key.text : Key → CodeUnits
  | .index i => units (Nat.toDigits 10 i)
  | .name text => text

variable {ρ : Type}

def Members.list : Members ρ → List (Key × JsValue ρ)
  | .elements vs => vs.zipIdx.map fun e => (.index e.2, e.1)
  | .entries es => es.map fun e => (.name e.1, e.2)

/-- The value serialization puts in place of this one. -/
def replacedValue (heap : Heap ρ) (v : JsValue ρ) (key : CodeUnits) : JsValue ρ :=
  match v with
  | .container r =>
    match (heap r).toJSON with
    | none => .container r
    | some f => f key
  | v => v

def isDroppedFromObjects : JsValue ρ → Bool
  | .undefined => true
  | .function => true
  | .symbol => true
  | _ => false

def rootKey : CodeUnits := []

def leaf : JsValue ρ → Value
  | .boolean b => .bool b
  | .number (.finite x) => .num x
  | .string s => .str s
  | _ => .null

section Serialization

variable [DecidableEq ρ] (heap : Heap ρ)

/-- What is written for a replaced value inside the containers of the stack; nothing if one of them is met again. There
are at most as many turns as containers. -/
def serialize : Nat → List ρ → JsValue ρ → Option Value
  | 0, _, .container _ => none
  | turns + 1, stack, .container r =>
    if r ∈ stack then none
    else
      match (heap r).members with
      | .elements vs =>
        (vs.zipIdx.mapM fun e =>
          serialize turns (r :: stack) (replacedValue heap e.1 (Key.index e.2).text)).map .arr
      | .entries es =>
        (((es.map fun e => (e.1, replacedValue heap e.2 e.1)).filter
          fun e => !isDroppedFromObjects e.2).mapM fun e =>
            (serialize turns (r :: stack) e.2).map fun v => (e.1, v)).map .obj
  | _, _, v => some (leaf v)

/-- `JSON.stringify`, whose text is that of the value here: nothing if it throws, and no text for what it drops. -/
def jsonStringify [Fintype ρ] (value : JsValue ρ) : Option (Option Value) :=
  if isDroppedFromObjects (replacedValue heap value rootKey) then some none
  else (serialize heap (Fintype.card ρ) [] (replacedValue heap value rootKey)).map some

end Serialization

structure Log10 where
  floor : Nat → Nat
  le : ∀ n, 0 < n → floor n ≤ Nat.log 10 n
  lt : ∀ n, 0 < n → Nat.log 10 n ≤ floor n + 1

def decimalDigits (log10 : Log10) (magnitude : Nat) : Nat :=
  let digits := if magnitude < 1 then 1 else log10.floor magnitude + 1
  if magnitude < 10 ^ digits then digits else digits + 1

theorem decimalDigits_eq (log10 : Log10) (magnitude : Nat) :
    decimalDigits log10 magnitude = (Nat.toDigits 10 magnitude).length := by
  rw [decimalDigits]
  by_cases h : magnitude < 1
  · have hzero : magnitude = 0 := by omega
    subst hzero
    rfl
  · have hpos : 0 < magnitude := by omega
    have hlog := Nat.pow_log_le_self 10 hpos.ne'
    have hlog' := Nat.lt_pow_succ_log_self (b := 10) (by decide) magnitude
    simp only [if_neg h]
    rw [length_toDigits hlog hlog']
    rcases Nat.lt_or_ge (log10.floor magnitude) (Nat.log 10 magnitude) with hlt | hge
    · have hfloor : log10.floor magnitude + 1 = Nat.log 10 magnitude := by
        have hle := log10.lt magnitude hpos
        omega
      rw [hfloor, if_neg (Nat.not_lt.2 hlog)]
    · rw [Nat.le_antisymm (log10.le magnitude hpos) hge, if_pos hlog']

def isPlainInteger (x : Decimal) : Bool := 0 ≤ x.exponent && x.digits * 10 ^ x.exponent.toNat < 10 ^ 21

def numberSize (log10 : Log10) : JsNumber → Nat
  | .nonFinite => 4
  | .finite x =>
    if isPlainInteger x then
      (if x.negative && x.digits ≠ 0 then 1 else 0) + decimalDigits log10 (x.digits * 10 ^ x.exponent.toNat)
    else x.toText.length

theorem numberSize_finite (log10 : Log10) (x : Decimal) : numberSize log10 (.finite x) = byteCount x.toText := by
  rw [byteCount_toText, numberSize]
  split
  · next h =>
    simp only [isPlainInteger, Bool.and_eq_true, decide_eq_true_eq] at h
    rw [decimalDigits_eq]
    by_cases hdigits : x.digits = 0
    · rw [Decimal.toText, if_pos hdigits, hdigits, Nat.zero_mul]
      simp
    · rw [length_toText_plain h.1 (Nat.pos_of_ne_zero hdigits) h.2, Decimal.sign]
      cases x.negative <;> simp [hdigits]
  · rfl

def codeUnitSize (code : Nat) : Nat :=
  if code = 0x22 ∨ code = 0x5C then 2
  else if code ≤ 0x1F then if code ∈ [0x08, 0x09, 0x0A, 0x0C, 0x0D] then 2 else 6
  else if code ≤ 0x7F then 1
  else if code ≤ 0x7FF then 2
  else if 0xD800 ≤ code ∧ code ≤ 0xDFFF then 6
  else 3

/-- The loop over the code units, which ends when the budget is gone. -/
def escapedContentSize (budget : Int) : Nat → CodeUnits → Nat
  | size, [] => size
  | size, [c] => if size ≤ budget then size + codeUnitSize c.toNat else size
  | size, c :: d :: s =>
    if size ≤ budget then
      if isHighSurrogate c && isLowSurrogate d then escapedContentSize budget (size + 4) s
      else escapedContentSize budget (size + codeUnitSize c.toNat) (d :: s)
    else size

def stringSize (s : CodeUnits) (budget : Int) : Nat := 2 + escapedContentSize (budget - 2) 0 s

def leafSize (log10 : Log10) (v : JsValue ρ) (budget : Int) : Nat :=
  match v with
  | .string s => stringSize s budget
  | .number x => numberSize log10 x
  | .boolean b => if b then 4 else 5
  | _ => 4

structure CutSize (budget : Int) (exact size : Nat) : Prop where
  le : size ≤ exact
  cut : size = exact ∨ budget < size

theorem ite_ascii {p : Prop} [Decidable p] {c d : Char} (hc : c.toNat ≤ 0x7F) (hd : d.toNat ≤ 0x7F) :
    (if p then c else d).toNat ≤ 0x7F := by
  split
  · exact hc
  · exact hd

theorem digitChar_ascii (n : Nat) : (Nat.digitChar n).toNat ≤ 0x7F := by
  rw [Nat.digitChar]
  repeat' apply ite_ascii
  all_goals decide

theorem byteCount_unicodeEscape (n : Nat) : byteCount (unicodeEscape n) = 6 := by
  apply Ascii.byteCount
  intro c hc
  simp only [unicodeEscape, List.mem_cons, List.not_mem_nil, or_false] at hc
  rcases hc with rfl | rfl | rfl | rfl | rfl | rfl
  · decide
  · decide
  all_goals exact digitChar_ascii _

theorem escapeChar_size (c : Char) :
    byteCount (escapeChar c) = if c.toNat = 0x22 ∨ c.toNat = 0x5C then 2
      else if c.toNat ≤ 0x1F then if c.toNat ∈ [0x08, 0x09, 0x0A, 0x0C, 0x0D] then 2 else 6
      else c.utf8Size := by
  have hquote : c = '"' ↔ c.toNat = 0x22 := ⟨fun h => by rw [h]; rfl, fun h => Char.toNat_inj.1 h⟩
  have hslash : c = '\\' ↔ c.toNat = 0x5C := ⟨fun h => by rw [h]; rfl, fun h => Char.toNat_inj.1 h⟩
  have hletter : ∀ {d : Char}, d.toNat ≤ 0x7F → byteCount ['\\', d] = 2 := by
    intro d hd
    exact Ascii.byteCount ((Ascii.cons hd ascii_nil).cons (by decide))
  simp only [escapeChar, shortEscape, hquote, hslash]
  by_cases h : c.toNat = 0x22 ∨ c.toNat = 0x5C
  · rw [if_pos h, if_pos h]
    exact hletter (by omega)
  rw [if_neg h, if_neg h]
  by_cases hcontrol : c.toNat ≤ 0x1F
  · rw [if_pos hcontrol]
    by_cases hmem : c.toNat ∈ [0x08, 0x09, 0x0A, 0x0C, 0x0D]
    · rw [if_pos hmem]
      simp only [List.mem_cons, List.not_mem_nil, or_false] at hmem
      rcases hmem with hc | hc | hc | hc | hc
      all_goals
        rw [hc]
        exact hletter (by decide)
    · rw [if_neg hmem]
      simp only [List.mem_cons, List.not_mem_nil, or_false, not_or] at hmem
      obtain ⟨h8, h9, hA, hC, hD⟩ := hmem
      rw [if_neg h8, if_neg h9, if_neg hA, if_neg hC, if_neg hD]
      simp only [if_pos (Nat.lt_succ_of_le hcontrol)]
      exact byteCount_unicodeEscape _
  · rw [if_neg hcontrol, if_neg (by omega), if_neg (by omega), if_neg (by omega), if_neg (by omega), if_neg (by omega)]
    simp only [if_neg (show ¬ c.toNat < 0x20 by omega)]
    rw [byteCount_cons, byteCount_nil, Nat.add_zero]

theorem toNat_ofNat {n : Nat} (h : n.isValidChar) : (Char.ofNat n).toNat = n := by
  rw [Char.ofNat, dif_pos h]
  rfl

theorem escape_ofUnit (c : UInt16) : byteCount (escape (CodePoint.ofUnit c)) = codeUnitSize c.toNat := by
  have hlt := c.toNat_lt
  have hsurrogate : isSurrogate c = true ↔ 0xD800 ≤ c.toNat ∧ c.toNat ≤ 0xDFFF := by
    simp only [isSurrogate, Bool.and_eq_true, decide_eq_true_eq, UInt16.le_iff_toNat_le]
    rfl
  rw [CodePoint.ofUnit, codeUnitSize]
  by_cases h : isSurrogate c = true
  · rw [if_pos h, escape, byteCount_unicodeEscape]
    have hrange := hsurrogate.1 h
    rw [if_neg (by omega), if_neg (by omega), if_neg (by omega), if_neg (by omega), if_pos hrange]
  · have hrange := mt hsurrogate.2 h
    have hvalid : c.toNat.isValidChar := by
      rw [Nat.isValidChar]
      omega
    rw [if_neg h, escape, escapeChar_size, utf8Size_eq, toNat_ofNat hvalid, if_neg hrange,
      if_pos (show c.toNat ≤ 0xFFFF by omega)]

theorem escape_paired {c d : UInt16} (h : (isHighSurrogate c && isLowSurrogate d) = true) :
    byteCount (escape (.scalar (paired c d))) = 4 := by
  simp only [isHighSurrogate, isLowSurrogate, Bool.and_eq_true, decide_eq_true_eq, UInt16.le_iff_toNat_le] at h
  obtain ⟨⟨hc, hc'⟩, hd, hd'⟩ := h
  change 0xD800 ≤ c.toNat at hc
  change c.toNat ≤ 0xDBFF at hc'
  change 0xDC00 ≤ d.toNat at hd
  change d.toNat ≤ 0xDFFF at hd'
  have hvalid : (0x10000 + (c.toNat - 0xD800) * 0x400 + (d.toNat - 0xDC00)).isValidChar := by
    rw [Nat.isValidChar]
    omega
  rw [escape, escapeChar_size, utf8Size_eq, paired, toNat_ofNat hvalid, if_neg (by omega), if_neg (by omega),
    if_neg (by omega), if_neg (by omega), if_neg (by omega)]

theorem escapedContentSize_cut (budget : Int) (size : Nat) (s : CodeUnits) :
    CutSize budget (size + byteCount (content s)) (escapedContentSize budget size s) := by
  have hstop : ∀ {size exact : Nat}, ¬ (size : Int) ≤ budget → CutSize budget (size + exact) size := by
    intro size exact h
    exact ⟨Nat.le_add_right _ _, .inr (by omega)⟩
  induction size, s using escapedContentSize.induct budget with
  | case1 size => exact ⟨Nat.le_refl _, .inl rfl⟩
  | case2 size c h =>
    rw [escapedContentSize, if_pos h, content, codePoints, List.flatMap_cons, List.flatMap_nil, List.append_nil,
      escape_ofUnit]
    exact ⟨Nat.le_refl _, .inl rfl⟩
  | case3 size c h =>
    rw [escapedContentSize, if_neg h]
    exact hstop h
  | case4 size c d s h hpair ih =>
    rw [escapedContentSize, if_pos h, if_pos hpair, content, codePoints, if_pos hpair, List.flatMap_cons,
      byteCount_append, escape_paired hpair, ← Nat.add_assoc]
    exact ih
  | case5 size c d s h hpair ih =>
    rw [escapedContentSize, if_pos h, if_neg hpair, content, codePoints, if_neg hpair, List.flatMap_cons,
      byteCount_append, escape_ofUnit, ← Nat.add_assoc]
    exact ih
  | case6 size c d s h =>
    rw [escapedContentSize, if_neg h]
    exact hstop h

theorem stringSize_cut (s : CodeUnits) (budget : Int) : CutSize budget (byteCount (quote s)) (stringSize s budget) := by
  have hmark : ('"' : Char).utf8Size = 1 := rfl
  have hquote : byteCount (quote s) = 2 + (0 + byteCount (content s)) := by
    rw [quote, byteCount_cons, byteCount_append, byteCount_cons, byteCount_nil, hmark]
    omega
  obtain ⟨hle, hcut⟩ := escapedContentSize_cut (budget - 2) 0 s
  rw [hquote, stringSize]
  constructor
  · omega
  · omega

theorem leafSize_cut (log10 : Log10) {v : JsValue ρ} (budget : Int) :
    CutSize budget (paddedSize (leaf v)) (leafSize log10 v budget) := by
  have hexact : ∀ {exact size : Nat}, size = exact → CutSize budget exact size := by
    intro exact size h
    exact ⟨h.le, .inl h⟩
  cases v with
  | number x =>
    cases x with
    | nonFinite => exact hexact rfl
    | finite x => exact hexact (numberSize_finite log10 x)
  | string s => exact stringSize_cut s budget
  | boolean b => cases b <;> exact hexact rfl
  | undefined => exact hexact rfl
  | function => exact hexact rfl
  | symbol => exact hexact rfl
  | null => exact hexact rfl
  | container r => exact hexact rfl

structure Frame (ρ : Type) where
  container : ρ
  left : List (Key × JsValue ρ)

structure Walk (ρ : Type) where
  frames : List (Frame ρ)
  ancestors : List ρ
  size : Nat

section Walk

variable [DecidableEq ρ] (heap : Heap ρ) (log10 : Log10) (maxBytes : Int)

def remaining (walk : Walk ρ) : Int := maxBytes - walk.size

def frameFor (r : ρ) : Frame ρ := ⟨r, (heap r).members.list⟩

def openContainer (walk : Walk ρ) (r : ρ) : Walk ρ :=
  if r ∈ walk.ancestors then walk else ⟨frameFor heap r :: walk.frames, r :: walk.ancestors, walk.size + 2⟩

def addValue (walk : Walk ρ) (v : JsValue ρ) : Walk ρ :=
  match v with
  | .container r => openContainer heap walk r
  | v => { walk with size := walk.size + leafSize log10 v (remaining maxBytes walk) }

def addEntry (walk : Walk ρ) (key : CodeUnits) (v : JsValue ρ) : Walk ρ :=
  if isDroppedFromObjects v then walk
  else
    addValue heap log10 maxBytes { walk with size := walk.size + (1 + 1 + stringSize key (remaining maxBytes walk)) } v

def close (walk : Walk ρ) (r : ρ) : Walk ρ :=
  { walk with frames := walk.frames.tail, ancestors := walk.ancestors.erase r }

def advance (walk : Walk ρ) : Walk ρ :=
  match walk.frames with
  | [] => walk
  | frame :: frames =>
    match frame.left with
    | [] => close walk frame.container
    | (.index i, v) :: left =>
      addValue heap log10 maxBytes ⟨⟨frame.container, left⟩ :: frames, walk.ancestors, walk.size + 1⟩
        (replacedValue heap v (Key.index i).text)
    | (.name key, v) :: left =>
      addEntry heap log10 maxBytes { walk with frames := ⟨frame.container, left⟩ :: frames } key
        (replacedValue heap v key)

def walkLoop : Nat → Walk ρ → Option (Walk ρ)
  | 0, _ => none
  | turns + 1, walk =>
    if walk.frames ≠ [] ∧ walk.size ≤ maxBytes then walkLoop turns (advance heap log10 maxBytes walk) else some walk

def start (value : JsValue ρ) : Walk ρ :=
  addValue heap log10 maxBytes ⟨[], [], 0⟩ (replacedValue heap value rootKey)

def jsonSizeExceeds (value : JsValue ρ) (turns : Nat) : Option Bool :=
  (walkLoop heap log10 maxBytes turns (start heap log10 maxBytes value)).map fun walk => maxBytes < walk.size

end Walk

structure Tariff (ρ : Type) where
  opening : Nat
  closing : Nat
  member : Key → JsValue ρ → Nat
  leaf : JsValue ρ → Nat

def Omitted : Key → JsValue ρ → Bool
  | .index _, _ => false
  | .name _, v => isDroppedFromObjects v

section Charge

variable (heap : Heap ρ) (tariff : Tariff ρ)

def chargeMember (charge : JsValue ρ → Nat) (m : Key × JsValue ρ) : Nat :=
  let v := replacedValue heap m.2 m.1.text
  tariff.member m.1 v + if Omitted m.1 v then 0 else charge v

def charge : Nat → JsValue ρ → Nat
  | 0, .container _ => 0
  | levels + 1, .container r =>
    tariff.opening + ((heap r).members.list.map (chargeMember heap tariff (charge levels))).sum + tariff.closing
  | _, v => tariff.leaf v

/-- The charge for what the frames have left, the outermost of them at the last level. -/
def pending (levels : Nat) : List (Frame ρ) → Nat
  | [] => 0
  | frame :: frames =>
    (frame.left.map (chargeMember heap tariff (charge heap tariff (levels - (frames.length + 1))))).sum +
      tariff.closing + pending levels frames

end Charge

section Steps

variable [DecidableEq ρ] {heap : Heap ρ} {log10 : Log10} {maxBytes : Int} {tariff : Tariff ρ} {walk : Walk ρ}
  {total : Nat}

structure Walk.Ancestors (walk : Walk ρ) : Prop where
  frames : walk.ancestors = walk.frames.map Frame.container
  nodup : walk.ancestors.Nodup

theorem addValue_ancestors (h : walk.Ancestors) (v : JsValue ρ) : (addValue heap log10 maxBytes walk v).Ancestors := by
  cases v with
  | container r =>
    rw [addValue, openContainer]
    split
    · exact h
    · next hr => exact ⟨congrArg (r :: ·) h.frames, List.nodup_cons.2 ⟨hr, h.nodup⟩⟩
  | _ => exact ⟨h.frames, h.nodup⟩

theorem addEntry_ancestors (h : walk.Ancestors) (key : CodeUnits) (v : JsValue ρ) :
    (addEntry heap log10 maxBytes walk key v).Ancestors := by
  rw [addEntry]
  split
  · exact h
  · have h' : ({ walk with size := walk.size + (1 + 1 + stringSize key (remaining maxBytes walk)) } : Walk ρ).Ancestors :=
      ⟨h.frames, h.nodup⟩
    exact addValue_ancestors h' v

theorem advance_ancestors (h : walk.Ancestors) : (advance heap log10 maxBytes walk).Ancestors := by
  rcases walk with ⟨_ | ⟨⟨r, _ | ⟨⟨key, v⟩, left⟩⟩, frames⟩, ancestors, size⟩
  · exact h
  · obtain ⟨hframes, hnodup⟩ := h
    change ancestors = r :: frames.map Frame.container at hframes
    subst hframes
    have herase : (r :: frames.map Frame.container).erase r = frames.map Frame.container := List.erase_cons_head r _
    constructor
    · exact herase
    · change ((r :: frames.map Frame.container).erase r).Nodup
      rw [herase]
      exact (List.nodup_cons.1 hnodup).2
  · have h' : ∀ size, (⟨⟨r, left⟩ :: frames, ancestors, size⟩ : Walk ρ).Ancestors := fun _ => ⟨h.frames, h.nodup⟩
    cases key with
    | index i => exact addValue_ancestors (h' _) _
    | name key => exact addEntry_ancestors (h' _) key _

variable [Fintype ρ]

omit [DecidableEq ρ] in
theorem pending_open (h : walk.Ancestors) {r : ρ} (hr : r ∉ walk.ancestors) :
    pending heap tariff (Fintype.card ρ) (frameFor heap r :: walk.frames) + tariff.opening =
      charge heap tariff (Fintype.card ρ - walk.frames.length) (.container r) +
        pending heap tariff (Fintype.card ρ) walk.frames := by
  have hlevel : walk.frames.length < Fintype.card ρ := by
    have hcard := (List.nodup_cons.2 ⟨hr, h.nodup⟩).length_le_card
    rw [List.length_cons, h.frames, List.length_map] at hcard
    exact hcard
  obtain ⟨levels, hlevels⟩ : ∃ levels, Fintype.card ρ - walk.frames.length = levels + 1 :=
    ⟨Fintype.card ρ - (walk.frames.length + 1), by omega⟩
  have hnext : Fintype.card ρ - (walk.frames.length + 1) = levels := by omega
  simp only [pending, frameFor, hnext, hlevels, charge]
  omega

def turns : Tariff ρ := ⟨0, 1, fun _ _ => 1, fun _ => 0⟩

theorem addValue_turns (h : walk.Ancestors) (v : JsValue ρ) :
    pending heap turns (Fintype.card ρ) (addValue heap log10 maxBytes walk v).frames ≤
      charge heap turns (Fintype.card ρ - walk.frames.length) v + pending heap turns (Fintype.card ρ) walk.frames := by
  cases v with
  | container r =>
    rw [addValue, openContainer]
    split
    · exact Nat.le_add_left _ _
    · next hr =>
      have hopen : pending heap turns _ (frameFor heap r :: walk.frames) + turns.opening = _ := pending_open h hr
      exact hopen.le
  | _ => exact Nat.le_add_left _ _

theorem advance_turns (h : walk.Ancestors) (hframes : walk.frames ≠ []) :
    pending heap turns (Fintype.card ρ) (advance heap log10 maxBytes walk).frames <
      pending heap turns (Fintype.card ρ) walk.frames := by
  rcases walk with ⟨_ | ⟨⟨r, _ | ⟨⟨key, v⟩, left⟩⟩, frames⟩, ancestors, size⟩
  · exact absurd rfl hframes
  · change pending heap turns _ frames < 0 + 1 + pending heap turns _ frames
    omega
  · have hstep : ∀ w : Walk ρ, w.frames = ⟨r, left⟩ :: frames → w.Ancestors →
        pending heap turns (Fintype.card ρ) (addValue heap log10 maxBytes w (replacedValue heap v key.text)).frames <
          1 + charge heap turns (Fintype.card ρ - (frames.length + 1)) (replacedValue heap v key.text) +
            pending heap turns (Fintype.card ρ) (⟨r, left⟩ :: frames) := by
      intro w hw ha
      have hadd : pending heap turns _ (addValue heap log10 maxBytes w (replacedValue heap v key.text)).frames ≤ _ :=
        addValue_turns ha _
      rw [hw, List.length_cons] at hadd
      omega
    have hpending : pending heap turns (Fintype.card ρ) (⟨r, (key, v) :: left⟩ :: frames) =
        1 + (if Omitted key (replacedValue heap v key.text) then 0 else
          charge heap turns (Fintype.card ρ - (frames.length + 1)) (replacedValue heap v key.text)) +
            pending heap turns (Fintype.card ρ) (⟨r, left⟩ :: frames) := by
      simp only [pending, List.map_cons, List.sum_cons, chargeMember, turns]
      omega
    cases key with
    | index i =>
      rw [hpending]
      exact hstep _ rfl ⟨h.frames, h.nodup⟩
    | name key =>
      rw [hpending]
      change pending heap turns (Fintype.card ρ) (addEntry heap log10 maxBytes _ key (replacedValue heap v key)).frames < _
      rw [addEntry]
      by_cases hdropped : isDroppedFromObjects (replacedValue heap v key) = true
      · rw [if_pos hdropped]
        change pending heap turns (Fintype.card ρ) (⟨r, left⟩ :: frames) < _
        omega
      · rw [if_neg hdropped, Omitted, Key.text, if_neg hdropped]
        exact hstep _ rfl ⟨h.frames, h.nodup⟩

theorem walkLoop_ends (walk : Walk ρ) (h : walk.Ancestors) :
    ∃ turns, (walkLoop heap log10 maxBytes turns walk).isSome := by
  induction hn : pending heap turns (Fintype.card ρ) walk.frames using Nat.strong_induction_on generalizing walk with
  | _ n ih =>
    by_cases hgo : walk.frames ≠ [] ∧ walk.size ≤ maxBytes
    · obtain ⟨turns, hturns⟩ := ih _ (hn ▸ advance_turns h hgo.1) (advance heap log10 maxBytes walk)
        (advance_ancestors h) rfl
      refine ⟨turns + 1, ?_⟩
      rw [walkLoop, if_pos hgo]
      exact hturns
    · refine ⟨1, ?_⟩
      rw [walkLoop, if_neg hgo]
      rfl

omit [DecidableEq ρ] in
theorem pending_member (r : ρ) (m : Key × JsValue ρ) (left : List (Key × JsValue ρ)) (frames : List (Frame ρ)) :
    pending heap tariff (Fintype.card ρ) (⟨r, m :: left⟩ :: frames) =
      chargeMember heap tariff (charge heap tariff (Fintype.card ρ - (frames.length + 1))) m +
        pending heap tariff (Fintype.card ρ) (⟨r, left⟩ :: frames) := by
  simp only [pending, List.map_cons, List.sum_cons]
  omega

def sizes : Tariff ρ where
  opening := 2
  closing := 0
  member := fun key v =>
    match key with
    | .index _ => 1
    | .name text => if isDroppedFromObjects v then 0 else 2 + byteCount (quote text)
  leaf := fun v => paddedSize (leaf v)

omit [DecidableEq ρ] [Fintype ρ] in
theorem chargeMember_index (c : JsValue ρ → Nat) (i : Nat) (v : JsValue ρ) :
    chargeMember heap sizes c (.index i, v) = 1 + c (replacedValue heap v (Key.index i).text) := rfl

omit [DecidableEq ρ] [Fintype ρ] in
theorem chargeMember_name (c : JsValue ρ → Nat) (key : CodeUnits) (v : JsValue ρ) :
    chargeMember heap sizes c (.name key, v) =
      if isDroppedFromObjects (replacedValue heap v key) then 0
      else 2 + byteCount (quote key) + c (replacedValue heap v key) := by
  by_cases h : isDroppedFromObjects (replacedValue heap v key) = true <;> simp [chargeMember, sizes, Omitted, Key.text, h]

/-- The size so far and what is before the walk add up to the total, unless the limit is crossed already. -/
def Due (maxBytes : Int) (total size ahead : Nat) : Prop :=
  size + ahead ≤ total ∧ (size + ahead = total ∨ maxBytes < size)

omit [DecidableEq ρ] [Fintype ρ] in
theorem Due.add {exact charged ahead : Nat} (h : Due maxBytes total walk.size (exact + ahead))
    (hsize : CutSize (remaining maxBytes walk) exact charged) : Due maxBytes total (walk.size + charged) ahead := by
  obtain ⟨hle, hdue⟩ := h
  obtain ⟨hsize, hcut⟩ := hsize
  rw [remaining] at hcut
  constructor <;> omega

theorem addValue_due (ha : walk.Ancestors) {v : JsValue ρ} (hv : ∀ r, v = .container r → r ∉ walk.ancestors)
    (h : Due maxBytes total walk.size (charge heap sizes (Fintype.card ρ - walk.frames.length) v +
      pending heap sizes (Fintype.card ρ) walk.frames)) :
    let walk' := addValue heap log10 maxBytes walk v
    Due maxBytes total walk'.size (pending heap sizes (Fintype.card ρ) walk'.frames) := by
  cases v with
  | container r =>
    have hr := hv r rfl
    rw [← pending_open ha hr, Nat.add_comm] at h
    rw [addValue, openContainer, if_neg hr]
    exact h.add ⟨Nat.le_refl 2, .inl rfl⟩
  | _ => exact Due.add (by simpa [charge, sizes, addValue] using h) (leafSize_cut log10 _)

end Steps

section Acyclic

open Relation

variable {heap : Heap ρ} {value : JsValue ρ} {walk : Walk ρ}

def Holds (heap : Heap ρ) (r r' : ρ) : Prop :=
  ∃ m ∈ (heap r).members.list, replacedValue heap m.2 m.1.text = .container r'

def Reaches (heap : Heap ρ) (value : JsValue ρ) (r : ρ) : Prop :=
  ∃ r₀, replacedValue heap value rootKey = .container r₀ ∧ ReflTransGen (Holds heap) r₀ r

def Acyclic (heap : Heap ρ) (value : JsValue ρ) : Prop := ∀ r, Reaches heap value r → ¬ TransGen (Holds heap) r r

structure Nested (heap : Heap ρ) (value : JsValue ρ) (walk : Walk ρ) : Prop where
  left : ∀ frame ∈ walk.frames, ∀ m ∈ frame.left, m ∈ (heap frame.container).members.list
  around : walk.ancestors.Pairwise fun r r' => TransGen (Holds heap) r' r
  reached : ∀ r ∈ walk.ancestors, Reaches heap value r

def Fits (heap : Heap ρ) (value : JsValue ρ) (ancestors : List ρ) (v : JsValue ρ) : Prop :=
  ∀ r, v = .container r → Reaches heap value r ∧ ∀ r' ∈ ancestors, TransGen (Holds heap) r' r

theorem Fits.notMem {ancestors : List ρ} {v : JsValue ρ} (hacyclic : Acyclic heap value)
    (h : Fits heap value ancestors v) (r : ρ) (hv : v = .container r) : r ∉ ancestors := by
  intro hr
  exact hacyclic r (h r hv).1 ((h r hv).2 r hr)

theorem Nested.fits (h : Nested heap value walk) {frame : Frame ρ} {ancestors : List ρ} {m : Key × JsValue ρ}
    (hframe : frame ∈ walk.frames) (hancestors : walk.ancestors = frame.container :: ancestors) (hm : m ∈ frame.left) :
    Fits heap value walk.ancestors (replacedValue heap m.2 m.1.text) := by
  intro r hr
  have hholds : Holds heap frame.container r := ⟨m, h.left frame hframe m hm, hr⟩
  have haround := h.around
  rw [hancestors, List.pairwise_cons] at haround
  obtain ⟨r₀, hroot, hpath⟩ := h.reached frame.container (hancestors ▸ List.mem_cons_self)
  refine ⟨⟨r₀, hroot, hpath.tail hholds⟩, ?_⟩
  intro r' hr'
  rw [hancestors] at hr'
  rcases List.mem_cons.1 hr' with rfl | hr'
  · exact TransGen.single hholds
  · exact (haround.1 r' hr').tail hholds

variable [DecidableEq ρ] {log10 : Log10} {maxBytes : Int}

theorem addValue_nested (h : Nested heap value walk) {v : JsValue ρ} (hv : Fits heap value walk.ancestors v) :
    Nested heap value (addValue heap log10 maxBytes walk v) := by
  cases v with
  | container r =>
    obtain ⟨hreach, haround⟩ := hv r rfl
    rw [addValue, openContainer]
    split
    · exact h
    · constructor
      · intro frame hframe m hm
        rcases List.mem_cons.1 hframe with rfl | hframe
        · exact hm
        · exact h.left frame hframe m hm
      · exact List.pairwise_cons.2 ⟨haround, h.around⟩
      · intro r' hr'
        rcases List.mem_cons.1 hr' with rfl | hr'
        · exact hreach
        · exact h.reached r' hr'
  | _ => exact ⟨h.left, h.around, h.reached⟩

variable [Fintype ρ] {total : Nat}

structure Measuring (heap : Heap ρ) (value : JsValue ρ) (maxBytes : Int) (total : Nat) (walk : Walk ρ) : Prop where
  ancestors : walk.Ancestors
  nested : Nested heap value walk
  due : Due maxBytes total walk.size (pending heap sizes (Fintype.card ρ) walk.frames)

theorem addValue_measuring (hacyclic : Acyclic heap value) (ha : walk.Ancestors) (hn : Nested heap value walk)
    {v : JsValue ρ} (hv : Fits heap value walk.ancestors v)
    (hdue : Due maxBytes total walk.size (charge heap sizes (Fintype.card ρ - walk.frames.length) v +
      pending heap sizes (Fintype.card ρ) walk.frames)) :
    Measuring heap value maxBytes total (addValue heap log10 maxBytes walk v) :=
  ⟨addValue_ancestors ha v, addValue_nested hn hv, addValue_due ha (hv.notMem hacyclic) hdue⟩

theorem advance_measuring (hacyclic : Acyclic heap value) (h : Measuring heap value maxBytes total walk) :
    Measuring heap value maxBytes total (advance heap log10 maxBytes walk) := by
  obtain ⟨ha, hn, hdue⟩ := h
  rcases walk with ⟨_ | ⟨⟨r, _ | ⟨⟨key, v⟩, left⟩⟩, frames⟩, ancestors, size⟩
  · exact ⟨ha, hn, hdue⟩
  · obtain rfl : ancestors = r :: frames.map Frame.container := ha.frames
    have herase : (r :: frames.map Frame.container).erase r = frames.map Frame.container := List.erase_cons_head r _
    have hclosed : advance heap log10 maxBytes ⟨⟨r, []⟩ :: frames, r :: frames.map Frame.container, size⟩ =
        ⟨frames, frames.map Frame.container, size⟩ := congrArg (fun l => Walk.mk frames l size) herase
    have hpending : pending heap sizes (Fintype.card ρ) (⟨r, []⟩ :: frames) =
        pending heap sizes (Fintype.card ρ) frames := by
      simp [pending, sizes]
    simp only [hpending] at hdue
    rw [hclosed]
    refine ⟨⟨rfl, (List.nodup_cons.1 ha.nodup).2⟩, ⟨?_, (List.pairwise_cons.1 hn.around).2, ?_⟩, hdue⟩
    · exact fun frame hframe => hn.left frame (List.mem_cons_of_mem _ hframe)
    · exact fun r' hr' => hn.reached r' (List.mem_cons_of_mem _ hr')
  · obtain rfl : ancestors = r :: frames.map Frame.container := ha.frames
    have ha' : ∀ size, (⟨⟨r, left⟩ :: frames, r :: frames.map Frame.container, size⟩ : Walk ρ).Ancestors :=
      fun _ => ⟨rfl, ha.nodup⟩
    have hn' : ∀ size, Nested heap value ⟨⟨r, left⟩ :: frames, r :: frames.map Frame.container, size⟩ := by
      intro size
      refine ⟨?_, hn.around, hn.reached⟩
      intro frame hframe m hm
      rcases List.mem_cons.1 hframe with rfl | hframe
      · exact hn.left _ List.mem_cons_self m (List.mem_cons_of_mem _ hm)
      · exact hn.left frame (List.mem_cons_of_mem _ hframe) m hm
    have hfits := hn.fits List.mem_cons_self rfl (List.mem_cons_self (a := (key, v)) (l := left))
    simp only [pending_member] at hdue
    cases key with
    | index i =>
      rw [chargeMember_index, Nat.add_assoc] at hdue
      exact addValue_measuring hacyclic (ha' _) (hn' _) hfits (hdue.add ⟨Nat.le_refl 1, .inl rfl⟩)
    | name key =>
      rw [chargeMember_name] at hdue
      change Measuring heap value maxBytes total (addEntry heap log10 maxBytes
        ⟨⟨r, left⟩ :: frames, r :: frames.map Frame.container, size⟩ key (replacedValue heap v key))
      rw [addEntry]
      by_cases hdropped : isDroppedFromObjects (replacedValue heap v key) = true
      · rw [if_pos hdropped, Nat.zero_add] at hdue
        rw [if_pos hdropped]
        exact ⟨ha' _, hn' _, hdue⟩
      · rw [if_neg hdropped, Nat.add_assoc] at hdue
        rw [if_neg hdropped]
        obtain ⟨hkey, hcut⟩ := stringSize_cut key (remaining maxBytes
          (⟨⟨r, left⟩ :: frames, r :: frames.map Frame.container, size⟩ : Walk ρ))
        apply addValue_measuring hacyclic (ha' _) (hn' _) hfits (hdue.add ⟨?_, ?_⟩)
        · omega
        · omega

theorem walkLoop_measuring (hacyclic : Acyclic heap value) (h : Measuring heap value maxBytes total walk)
    {turns : Nat} {walk' : Walk ρ} (hloop : walkLoop heap log10 maxBytes turns walk = some walk') :
    maxBytes < walk'.size ↔ maxBytes < total := by
  induction turns generalizing walk with
  | zero => cases hloop
  | succ turns ih =>
    rw [walkLoop] at hloop
    split at hloop
    · exact ih (advance_measuring hacyclic h) hloop
    · next hstop =>
      rw [Option.some.injEq] at hloop
      obtain ⟨hle, hdue⟩ := h.due
      rw [← hloop]
      by_cases hframes : walk.frames = []
      · rw [hframes, pending] at hle hdue
        omega
      · have hsize : maxBytes < walk.size := by
          by_contra hlt
          exact hstop ⟨hframes, by omega⟩
        omega

omit [DecidableEq ρ] [Fintype ρ] in
theorem sum_mapM {α β : Type} {f : α → Option β} {l : List α} {bs : List β} (h : l.mapM f = some bs) {g : α → Nat}
    {g' : β → Nat} (hg : ∀ a b, f a = some b → g a = g' b) : (l.map g).sum = (bs.map g').sum := by
  induction l generalizing bs with
  | nil =>
    cases h
    rfl
  | cons a l ih =>
    rw [List.mapM_cons, Option.bind_eq_bind, Option.bind_eq_some_iff] at h
    obtain ⟨b, hb, h⟩ := h
    rw [Option.bind_eq_bind, Option.bind_eq_some_iff] at h
    obtain ⟨bs, hbs, h⟩ := h
    cases h
    rw [List.map_cons, List.map_cons, List.sum_cons, List.sum_cons, hg a b hb, ih hbs]

omit [DecidableEq ρ] [Fintype ρ] in
theorem isSome_mapM {α β : Type} {f : α → Option β} {l : List α} (h : ∀ a ∈ l, (f a).isSome) : (l.mapM f).isSome := by
  induction l with
  | nil => rfl
  | cons a l ih =>
    obtain ⟨b, hb⟩ := Option.isSome_iff_exists.1 (h a List.mem_cons_self)
    obtain ⟨bs, hbs⟩ := Option.isSome_iff_exists.1 (ih fun a ha => h a (List.mem_cons_of_mem _ ha))
    rw [List.mapM_cons, hb, hbs]
    rfl

omit [DecidableEq ρ] [Fintype ρ] in
theorem sum_entries (c : JsValue ρ → Nat) (es : List (CodeUnits × JsValue ρ)) :
    (es.map fun e => chargeMember heap sizes c (.name e.1, e.2)).sum =
      (((es.map fun e => (e.1, replacedValue heap e.2 e.1)).filter fun e => !isDroppedFromObjects e.2).map
        fun e => 2 + byteCount (quote e.1) + c e.2).sum := by
  induction es with
  | nil => rfl
  | cons e es ih =>
    rw [List.map_cons, List.sum_cons, ih, chargeMember_name, List.map_cons, List.filter_cons]
    by_cases hdropped : isDroppedFromObjects (replacedValue heap e.2 e.1) = true
    · simp [hdropped]
    · simp [hdropped]

omit [Fintype ρ] in
theorem charge_serialize (levels : Nat) (stack : List ρ) (v : JsValue ρ) (json : Value)
    (h : serialize heap levels stack v = some json) : charge heap sizes levels v = paddedSize json := by
  induction levels generalizing stack v json with
  | zero => cases v <;> cases h <;> rfl
  | succ levels ih =>
    cases v with
    | container r =>
      rw [serialize] at h
      split at h
      · cases h
      · cases hmembers : (heap r).members with
        | elements vs =>
          rw [hmembers] at h
          obtain ⟨items, hitems, rfl⟩ := Option.map_eq_some_iff.1 h
          rw [paddedSize_arr, charge, hmembers, Members.list, List.map_map, sum_mapM hitems]
          · rfl
          · intro e item hitem
            rw [← ih _ _ _ hitem]
            rfl
        | entries es =>
          rw [hmembers] at h
          obtain ⟨entries, hentries, rfl⟩ := Option.map_eq_some_iff.1 h
          rw [paddedSize_obj, charge, hmembers, Members.list, List.map_map]
          change 2 + (es.map fun e => chargeMember heap sizes _ (.name e.1, e.2)).sum = _
          rw [sum_entries, sum_mapM hentries]
          intro e entry hentry
          obtain ⟨item, hitem, rfl⟩ := Option.map_eq_some_iff.1 hentry
          rw [ih _ _ _ hitem]
    | _ => cases h; rfl

theorem serialize_isSome (hacyclic : Acyclic heap value) (levels : Nat) (stack : List ρ)
    (hlevels : levels + stack.length = Fintype.card ρ) (hnodup : stack.Nodup) (v : JsValue ρ)
    (hv : Fits heap value stack v) : (serialize heap levels stack v).isSome := by
  induction levels generalizing stack v with
  | zero =>
    cases v with
    | container r =>
      have hcard := (List.nodup_cons.2 ⟨hv.notMem hacyclic r rfl, hnodup⟩).length_le_card
      rw [List.length_cons] at hcard
      omega
    | _ => rfl
  | succ levels ih =>
    cases v with
    | container r =>
      have hr := hv.notMem hacyclic r rfl
      obtain ⟨⟨r₀, hroot, hpath⟩, haround⟩ := hv r rfl
      have hmember : ∀ m ∈ (heap r).members.list,
          (serialize heap levels (r :: stack) (replacedValue heap m.2 m.1.text)).isSome := by
        intro m hm
        apply ih (r :: stack) (by rw [List.length_cons]; omega) (List.nodup_cons.2 ⟨hr, hnodup⟩)
        intro r' hr'
        have hholds : Holds heap r r' := ⟨m, hm, hr'⟩
        refine ⟨⟨r₀, hroot, hpath.tail hholds⟩, ?_⟩
        intro a ha
        rcases List.mem_cons.1 ha with rfl | ha
        · exact TransGen.single hholds
        · exact (haround a ha).tail hholds
      rw [serialize, if_neg hr]
      cases hmembers : (heap r).members with
      | elements vs =>
        rw [hmembers] at hmember
        rw [Option.isSome_map]
        apply isSome_mapM
        intro e he
        exact hmember (.index e.2, e.1) (List.mem_map_of_mem he)
      | entries es =>
        rw [hmembers] at hmember
        rw [Option.isSome_map]
        apply isSome_mapM
        intro e he
        rw [Option.isSome_map]
        obtain ⟨e', he', rfl⟩ := List.mem_map.1 (List.mem_filter.1 he).1
        exact hmember (.name e'.1, e'.2) (List.mem_map_of_mem he')
    | _ => rfl

/-- The walk ends on every value. On one without cycles it tells whether the text is longer than the limit, up to one
byte for each container in it that holds something. -/
theorem jsonSizeExceeds_twoSided (heap : Heap ρ) (log10 : Log10) (maxBytes : Int) (value : JsValue ρ) :
    (∃ turns, (jsonSizeExceeds heap log10 maxBytes value turns).isSome) ∧
    (Acyclic heap value →
      ∃ written, jsonStringify heap value = some written ∧
        ∀ turns exceeds json, jsonSizeExceeds heap log10 maxBytes value turns = some exceeds → written = some json →
          (exceeds = false → byteCount (stringify json) ≤ maxBytes) ∧
          (exceeds = true → maxBytes < byteCount (stringify json) + nonEmptyContainers json)) := by
  have hancestors : (⟨[], [], 0⟩ : Walk ρ).Ancestors := ⟨rfl, List.nodup_nil⟩
  constructor
  · obtain ⟨turns, hturns⟩ : ∃ turns, (walkLoop heap log10 maxBytes turns (start heap log10 maxBytes value)).isSome :=
      walkLoop_ends _ (addValue_ancestors hancestors _)
    exact ⟨turns, by rw [jsonSizeExceeds, Option.isSome_map]; exact hturns⟩
  · intro hacyclic
    have hfits : Fits heap value [] (replacedValue heap value rootKey) :=
      fun r hr => ⟨⟨r, hr, ReflTransGen.refl⟩, fun _ h => nomatch h⟩
    rw [jsonStringify]
    split
    · exact ⟨none, rfl, fun _ _ _ _ h => by cases h⟩
    · obtain ⟨json, hjson⟩ := Option.isSome_iff_exists.1
        (serialize_isSome hacyclic (Fintype.card ρ) [] (Nat.add_zero _) List.nodup_nil _ hfits)
      refine ⟨some json, by rw [hjson]; rfl, ?_⟩
      rintro turns exceeds json hexceeds hwritten
      cases hwritten
      obtain ⟨walk, hloop, rfl⟩ := Option.map_eq_some_iff.1 hexceeds
      have hstart : Measuring heap value maxBytes (paddedSize json) (start heap log10 maxBytes value) := by
        have hnested : Nested heap value ⟨[], [], 0⟩ :=
          ⟨fun _ h _ _ => absurd h List.not_mem_nil, List.Pairwise.nil, fun _ h => absurd h List.not_mem_nil⟩
        have htotal := charge_serialize _ _ _ _ hjson
        exact addValue_measuring hacyclic hancestors hnested hfits
          ⟨by simp [pending, htotal], .inl (by simp [pending, htotal])⟩
      have hiff := walkLoop_measuring hacyclic hstart hloop
      rw [paddedSize] at hiff
      constructor
      · intro h
        have hnot := of_decide_eq_false h
        omega
      · intro h
        have hlt := hiff.1 (of_decide_eq_true h)
        omega

end Acyclic

section Shared

open Relation

def exactLog10 : Log10 := ⟨Nat.log 10, fun _ _ => le_rfl, fun _ _ => Nat.le_succ _⟩

/-- The value `[s, s, s]` with `s = {"a": 1}`, its two containers named `false` and `true`. -/
def sharedHeap : Heap Bool
  | false => ⟨.elements (List.replicate 3 (.container true)), none⟩
  | true => ⟨.entries [(units ['a'], .number (.finite ⟨false, 1, 0, .inl (by decide)⟩))], none⟩

theorem sharedHeap_holds {r r' : Bool} (h : Holds sharedHeap r r') : r = false ∧ r' = true := by
  obtain ⟨m, hm, hr⟩ := h
  cases r with
  | false =>
    simp only [sharedHeap, Members.list, List.zipIdx, List.replicate, List.map_cons, List.map_nil, List.mem_cons,
      List.not_mem_nil, or_false] at hm
    refine ⟨rfl, ?_⟩
    rcases hm with rfl | rfl | rfl <;> exact (JsValue.container.inj hr).symm
  | true =>
    simp only [sharedHeap, Members.list, List.map_cons, List.map_nil, List.mem_cons, List.not_mem_nil, or_false] at hm
    subst hm
    cases hr

theorem sharedHeap_acyclic (value : JsValue Bool) : Acyclic sharedHeap value := by
  intro r _ hcycle
  obtain ⟨r₁, hfirst, -⟩ := TransGen.head'_iff.1 hcycle
  obtain ⟨r₂, -, hlast⟩ := TransGen.tail'_iff.1 hcycle
  have hroot := (sharedHeap_holds hfirst).1
  rw [(sharedHeap_holds hlast).2] at hroot
  cases hroot

theorem jsonSizeExceeds_twoSided_shared : ∃ json, jsonStringify sharedHeap (.container false) = some (some json) ∧
    (byteCount (stringify json) : Int) ≤ 29 ∧ (28 : Int) < byteCount (stringify json) + nonEmptyContainers json := by
  obtain ⟨written, hwritten, hfits⟩ :=
    (jsonSizeExceeds_twoSided sharedHeap exactLog10 29 (.container false)).2 (sharedHeap_acyclic _)
  obtain ⟨written', hwritten', hexceeds⟩ :=
    (jsonSizeExceeds_twoSided sharedHeap exactLog10 28 (.container false)).2 (sharedHeap_acyclic _)
  have hsome : (jsonStringify sharedHeap (.container false)).join.isSome = true := by decide +kernel
  rw [hwritten] at hwritten' hsome
  obtain rfl := Option.some.inj hwritten'
  obtain ⟨json, rfl⟩ := Option.isSome_iff_exists.1 hsome
  exact ⟨json, hwritten, (hfits 12 false json (by decide +kernel) rfl).1 rfl,
    (hexceeds 12 true json (by decide +kernel) rfl).2 rfl⟩

/-- The text of the value has 25 bytes, and there are two containers; yet it is said to be longer than 27. -/
theorem shared_object_counted_thrice : Acyclic sharedHeap (.container false) ∧
    jsonSizeExceeds sharedHeap exactLog10 27 (.container false) 12 = some true ∧
    ∃ json, jsonStringify sharedHeap (.container false) = some (some json) ∧
      ¬ (27 : Int) < byteCount (stringify json) + Fintype.card Bool := by
  have hsize : ((jsonStringify sharedHeap (.container false)).join.map fun json => byteCount (stringify json)) =
      some 25 := by decide +kernel
  refine ⟨sharedHeap_acyclic _, by decide +kernel, ?_⟩
  cases hwritten : jsonStringify sharedHeap (.container false) with
  | none =>
    rw [hwritten] at hsize
    cases hsize
  | some written =>
    rw [hwritten] at hsize
    obtain ⟨json, hjson, hbytes⟩ := Option.map_eq_some_iff.1 hsize
    obtain rfl : written = some json := hjson
    exact ⟨json, rfl, by rw [hbytes]; decide⟩

end Shared

end N8n.JsonSize
