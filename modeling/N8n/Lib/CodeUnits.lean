import Mathlib.Data.List.DropRight
import Mathlib.Data.List.Infix

namespace N8n.Lib

abbrev CodeUnits := List UInt16

instance : LawfulBEq CodeUnits := inferInstance

/-- Decided at the one unit there may be, not by trying all of them. -/
instance decidableForallUnit (o : Option UInt16) (p : UInt16 → Prop) [DecidablePred p] : Decidable (∀ c ∈ o, p c) :=
  Option.decidableForallMem o

def ascii (text : String) : CodeUnits := text.toList.map (fun c => c.toNat.toUInt16)

def doubleQuote : UInt16 := 0x22
def dollar : UInt16 := 0x24
def singleQuote : UInt16 := 0x27
def backslash : UInt16 := 0x5C
def backtick : UInt16 := 0x60
def openBrace : UInt16 := 0x7B
def closeBrace : UInt16 := 0x7D

def isQuote (c : UInt16) : Bool := c ∈ [singleQuote, doubleQuote, backtick]

/-- The class `\s` of regular expressions: white space and line terminators, as `trim` takes them off. -/
def isSpace (c : UInt16) : Bool :=
  c ∈ [0x09, 0x0A, 0x0B, 0x0C, 0x0D, 0x20, 0xA0, 0x1680, 0x2028, 0x2029, 0x202F, 0x205F, 0x3000, 0xFEFF] ||
    0x2000 ≤ c && c ≤ 0x200A

def isDigit (c : UInt16) : Bool := 0x30 ≤ c && c ≤ 0x39

def isLetter (c : UInt16) : Bool := 0x41 ≤ c && c ≤ 0x5A || 0x61 ≤ c && c ≤ 0x7A

/-- A letter in lower case, another unit as it is. -/
def lower (c : UInt16) : UInt16 := if 0x41 ≤ c && c ≤ 0x5A then c + 0x20 else c

def hexDigit (c : UInt16) : Option Nat :=
  if isDigit c then some (c.toNat - 0x30)
  else if 0x61 ≤ lower c ∧ lower c ≤ 0x66 then some ((lower c).toNat - 0x57)
  else none

def hexValue (digits : CodeUnits) : Option Nat :=
  if digits = [] then none else digits.foldlM (fun n c => (hexDigit c).map fun d => 16 * n + d) 0

def trim (s : CodeUnits) : CodeUnits := (s.dropWhile isSpace).rdropWhile isSpace

/-- Only white space. -/
def Blank (s : CodeUnits) : Prop := ∀ c ∈ s, isSpace c = true

theorem trim_eq_nil_iff (s : CodeUnits) : trim s = [] ↔ Blank s := by
  rw [trim, List.rdropWhile_eq_nil_iff]
  constructor
  · intro h
    by_contra hb
    have hne : s.dropWhile isSpace ≠ [] := fun hnil => hb (List.dropWhile_eq_nil_iff.1 hnil)
    have hhead := List.head_dropWhile_not isSpace hne
    rw [h _ (List.head_mem hne)] at hhead
    exact Bool.noConfusion hhead
  · intro h c hc
    exact h c (List.dropWhile_subset _ hc)

end N8n.Lib
