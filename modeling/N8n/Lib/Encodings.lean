import Mathlib.Data.Char
import N8n.Lib.CodeUnits

/-!
Strings as UTF-8 bytes, with the decoder of the web platform: it takes off one byte order mark and puts a replacement
character for each maximal malformed part.
-/

namespace N8n.Lib.Utf8

def encode (s : List Char) : List UInt8 := s.flatMap String.utf8EncodeChar

def byteOrderMark : Char := Char.ofNat 0xFEFF
def replacement : Char := Char.ofNat 0xFFFD

def IsContinuation (b : UInt8) : Prop := 0x80 ≤ b ∧ b ≤ 0xBF

instance (b : UInt8) : Decidable (IsContinuation b) := inferInstanceAs (Decidable (_ ∧ _))

def Seconds (lead b : UInt8) : Prop :=
  (if lead = 0xE0 then 0xA0 else if lead = 0xF0 then 0x90 else 0x80) ≤ b ∧
    b ≤ (if lead = 0xED then 0x9F else if lead = 0xF4 then 0x8F else 0xBF)

instance (lead b : UInt8) : Decidable (Seconds lead b) := inferInstanceAs (Decidable (_ ∧ _))

def malformed : List UInt8 → Nat
  | [] => 0
  | [_] => 1
  | lead :: b :: rest =>
    if lead < 0xE0 ∨ 0xF4 < lead ∨ ¬ Seconds lead b then 1
    else if lead < 0xF0 ∨ ¬ (∃ c ∈ rest.head?, IsContinuation c) then 2
    else 3

/-- The characters of the bytes; the first argument bounds the turns. -/
def decodeLoop : Nat → List UInt8 → List Char
  | 0, _ => []
  | _, [] => []
  | turns + 1, b :: rest =>
    match (b :: rest).toByteArray.utf8DecodeChar? 0 with
    | some c => c :: decodeLoop turns ((b :: rest).drop c.utf8Size)
    | none => replacement :: decodeLoop turns ((b :: rest).drop (malformed (b :: rest)))

def decodeChars (bytes : List UInt8) : List Char := decodeLoop bytes.length bytes

def decode (bytes : List UInt8) : List Char :=
  if String.utf8EncodeChar byteOrderMark <+: bytes then decodeChars (bytes.drop 3) else decodeChars bytes

theorem encode_cons (c : Char) (s : List Char) : encode (c :: s) = String.utf8EncodeChar c ++ encode s :=
  List.flatMap_cons

theorem decodeChar_encode (c : Char) (bytes : List UInt8) :
    (String.utf8EncodeChar c ++ bytes).toByteArray.utf8DecodeChar? 0 = some c := by
  rw [List.toByteArray_append]
  exact ByteArray.utf8DecodeChar?_utf8EncodeChar_append

theorem decodeLoop_encode (turns : Nat) (s : List Char) (h : (encode s).length ≤ turns) :
    decodeLoop turns (encode s) = s := by
  induction s generalizing turns with
  | nil => cases turns <;> rfl
  | cons c s ih =>
    have hsize := String.length_utf8EncodeChar c
    have hpos := c.utf8Size_pos
    rw [encode_cons, List.length_append, hsize] at h
    obtain ⟨turns, rfl⟩ : ∃ n, turns = n + 1 := ⟨turns - 1, by omega⟩
    have hdecode := decodeChar_encode c (encode s)
    have hdrop : (String.utf8EncodeChar c ++ encode s).drop c.utf8Size = encode s := by
      rw [← hsize, List.drop_left]
    rw [encode_cons]
    match hbytes : String.utf8EncodeChar c ++ encode s with
    | [] =>
      rw [List.append_eq_nil_iff] at hbytes
      exact absurd hbytes.1 String.utf8EncodeChar_ne_nil
    | b :: rest =>
      rw [hbytes] at hdecode hdrop
      simp only [decodeLoop, hdecode, hdrop]
      rw [ih turns (by omega)]

theorem decodeChars_encode (s : List Char) : decodeChars (encode s) = s := decodeLoop_encode _ s (le_refl _)

theorem mark_at_head (s : List Char) :
    String.utf8EncodeChar byteOrderMark <+: encode s ↔ s.head? = some byteOrderMark := by
  cases s with
  | nil => simp [encode, String.utf8EncodeChar_ne_nil]
  | cons c s =>
    rw [List.head?_cons, Option.some.injEq]
    constructor
    · rintro ⟨rest, hrest⟩
      have hmark := decodeChar_encode byteOrderMark rest
      rw [hrest, encode_cons, decodeChar_encode] at hmark
      exact Option.some.inj hmark
    · rintro rfl
      rw [encode_cons]
      exact List.prefix_append _ _

theorem decode_encode_iff (s : List Char) : decode (encode s) = s ↔ s.head? ≠ some byteOrderMark := by
  rw [decode]
  by_cases hs : s.head? = some byteOrderMark
  · obtain ⟨t, rfl⟩ : ∃ t, s = byteOrderMark :: t := by
      cases s with
      | nil => simp at hs
      | cons c t => exact ⟨t, by rw [List.head?_cons] at hs; rw [Option.some.inj hs]⟩
    have hdrop : (encode (byteOrderMark :: t)).drop 3 = encode t := rfl
    rw [if_pos ((mark_at_head _).2 hs), hdrop, decodeChars_encode]
    exact iff_of_false (fun h => List.cons_ne_self _ _ h.symm) (fun h => h hs)
  · rw [if_neg (mt (mark_at_head s).1 hs), decodeChars_encode]
    exact iff_of_true rfl hs

def Canonical (bytes : List UInt8) : Prop := ∃ s : List Char, s.head? ≠ some byteOrderMark ∧ encode s = bytes

theorem encode_decode_iff (bytes : List UInt8) : encode (decode bytes) = bytes ↔ Canonical bytes := by
  constructor
  · intro h
    refine ⟨decode bytes, ?_, h⟩
    rw [← decode_encode_iff, h]
  · rintro ⟨s, hs, rfl⟩
    rw [(decode_encode_iff s).2 hs]

end N8n.Lib.Utf8

/-!
Strings of UTF-16 code units as code points, and their UTF-8 bytes: a surrogate without its other half stays a code
point of its own, and the bytes have the replacement character for it.
-/

namespace N8n.Lib.Utf16

def isHighSurrogate (c : UInt16) : Bool := 0xD800 ≤ c && c ≤ 0xDBFF

def isLowSurrogate (c : UInt16) : Bool := 0xDC00 ≤ c && c ≤ 0xDFFF

def isSurrogate (c : UInt16) : Bool := 0xD800 ≤ c && c ≤ 0xDFFF

inductive CodePoint where
  | scalar (c : Char)
  | surrogate (c : UInt16)

def CodePoint.ofUnit (c : UInt16) : CodePoint := if isSurrogate c then .surrogate c else .scalar (Char.ofNat c.toNat)

def paired (high low : UInt16) : Char :=
  Char.ofNat (0x10000 + (high.toNat - 0xD800) * 0x400 + (low.toNat - 0xDC00))

def codePoints : CodeUnits → List CodePoint
  | [] => []
  | [c] => [.ofUnit c]
  | c :: d :: s =>
    if isHighSurrogate c && isLowSurrogate d then .scalar (paired c d) :: codePoints s
    else .ofUnit c :: codePoints (d :: s)

def charUnits (c : Char) : CodeUnits :=
  if c.toNat < 0x10000 then [c.toNat.toUInt16]
  else [(0xD800 + (c.toNat - 0x10000) / 0x400).toUInt16, (0xDC00 + (c.toNat - 0x10000) % 0x400).toUInt16]

def CodePoint.char : CodePoint → Char
  | .scalar c => c
  | .surrogate _ => Utf8.replacement

def chars (s : CodeUnits) : List Char := (codePoints s).map CodePoint.char

def units (text : List Char) : CodeUnits := text.flatMap charUnits

end N8n.Lib.Utf16
