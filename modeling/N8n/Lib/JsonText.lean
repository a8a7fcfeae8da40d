import N8n.Lib.ObjectMap
import N8n.Lib.Encodings
import N8n.Lib.Decimal

namespace N8n.Lib.JsonText

open Utf16

/-- The values that serialization takes: those of JSON, and the binary buffers that it replaces. An object is held as
its entries, in the order in which it lists them. -/
inductive Value where
  | null
  | bool (b : Bool)
  | num (x : Decimal)
  | str (s : CodeUnits)
  | arr (items : List Value)
  | obj (entries : List (CodeUnits × Value))
  | buffer (bytes : List UInt8)

def unicodeEscape (n : Nat) : List Char :=
  ['\\', 'u', (n / 4096).digitChar, (n / 256 % 16).digitChar, (n / 16 % 16).digitChar, (n % 16).digitChar]

def shortEscape (c : Char) : Option Char :=
  if c = '"' ∨ c = '\\' then some c
  else if c.toNat = 0x08 then some 'b'
  else if c.toNat = 0x09 then some 't'
  else if c.toNat = 0x0A then some 'n'
  else if c.toNat = 0x0C then some 'f'
  else if c.toNat = 0x0D then some 'r'
  else none

def escapeChar (c : Char) : List Char :=
  match shortEscape c with
  | some letter => ['\\', letter]
  | none => if c.toNat < 0x20 then unicodeEscape c.toNat else [c]

def escape : CodePoint → List Char
  | .scalar c => escapeChar c
  | .surrogate c => unicodeEscape c.toNat

def content (s : CodeUnits) : List Char := (codePoints s).flatMap escape

def quote (s : CodeUnits) : List Char := '"' :: (content s ++ ['"'])

def separator {α : Type} (rest : List α) : List Char := if rest.isEmpty then [] else [',']

def octetTexts : List UInt8 → List Char
  | [] => []
  | b :: bytes => Nat.toDigits 10 b.toNat ++ separator bytes ++ octetTexts bytes

def bufferText (bytes : List UInt8) : List Char :=
  '{' :: ("\"type\":\"Buffer\",\"data\":[".toList ++ octetTexts bytes ++ [']', '}'])

mutual

def stringify : Value → List Char
  | .null => ['n', 'u', 'l', 'l']
  | .bool true => ['t', 'r', 'u', 'e']
  | .bool false => ['f', 'a', 'l', 's', 'e']
  | .num x => x.toText
  | .str s => quote s
  | .arr items => '[' :: (elementTexts items ++ [']'])
  | .obj entries => '{' :: (memberTexts entries ++ ['}'])
  | .buffer bytes => bufferText bytes

def elementTexts : List Value → List Char
  | [] => []
  | v :: items => stringify v ++ separator items ++ elementTexts items

def memberTexts : List (CodeUnits × Value) → List Char
  | [] => []
  | (k, v) :: entries => quote k ++ ':' :: stringify v ++ separator entries ++ memberTexts entries

end

def isSpace (c : Char) : Bool := c == ' ' || c == '\t' || c == '\n' || c == '\r'

def skip (text : List Char) : List Char := text.dropWhile isSpace

def hexDigit (c : Char) : Option Nat :=
  if '0' ≤ c ∧ c ≤ '9' then some (c.toNat - 48)
  else if 'a' ≤ c ∧ c ≤ 'f' then some (c.toNat - 87)
  else if 'A' ≤ c ∧ c ≤ 'F' then some (c.toNat - 55)
  else none

def hexUnit (a b c d : Char) : Option UInt16 :=
  (hexDigit a).bind fun p => (hexDigit b).bind fun q => (hexDigit c).bind fun r => (hexDigit d).map fun s =>
    (p * 4096 + q * 256 + r * 16 + s).toUInt16

def letterEscape (c : Char) : Option UInt16 :=
  if c = '"' ∨ c = '\\' ∨ c = '/' then some c.toNat.toUInt16
  else if c = 'b' then some 0x08
  else if c = 't' then some 0x09
  else if c = 'n' then some 0x0A
  else if c = 'f' then some 0x0C
  else if c = 'r' then some 0x0D
  else none

def contentUnits : List Char → Option (CodeUnits × List Char)
  | '\\' :: 'u' :: a :: b :: c :: d :: rest => (hexUnit a b c d).map fun unit => ([unit], rest)
  | '\\' :: c :: rest => (letterEscape c).map fun unit => ([unit], rest)
  | c :: rest => if c = '\\' ∨ c.toNat < 0x20 then none else some (charUnits c, rest)
  | [] => none

/-- A string after its opening quotation mark; the first argument bounds the turns here and below. -/
def string : Nat → List Char → Option (CodeUnits × List Char)
  | 0, _ => none
  | turns + 1, text =>
    if text.head? = some '"' then some ([], text.tail)
    else (contentUnits text).bind fun head => (string turns head.2).map fun tail => (head.1 ++ tail.1, tail.2)

def literal (word : List Char) (v : Value) (text : List Char) : Option (Value × List Char) :=
  if word <+: text then some (v, text.drop word.length) else none

def arrayIndex (key : CodeUnits) : Option Nat :=
  let n := Nat.ofDigitChars 10 (chars key) 0
  if key.all Lib.isDigit && units (Nat.toDigits 10 n) = key && n < 2 ^ 32 - 1 then some n else none

instance : PropertyKey CodeUnits := ⟨arrayIndex⟩

/-- The keys of an object in the order it lists them: the indexes first. -/
def listedKeys (keys : List CodeUnits) : List CodeUnits :=
  (ObjectMap.indexKeys keys).map Prod.snd ++ keys.filter (fun k => (PropertyKey.arrayIndex k).isNone)

/-- The object that the members of a text make: the last one of a key counts. -/
def assemble (members : List (CodeUnits × Value)) : List (CodeUnits × Value) :=
  let entries := members.foldl (fun entries e => Entries.put e.1 e.2 entries) []
  (listedKeys (entries.map Prod.fst)).filterMap fun k => (Entries.lookup k entries).map fun v => (k, v)

mutual

def value : Nat → List Char → Option (Value × List Char)
  | 0, _ => none
  | turns + 1, text =>
    match skip text with
    | [] => none
    | c :: rest =>
      if c = 'n' then literal ['n', 'u', 'l', 'l'] .null (c :: rest)
      else if c = 't' then literal ['t', 'r', 'u', 'e'] (.bool true) (c :: rest)
      else if c = 'f' then literal ['f', 'a', 'l', 's', 'e'] (.bool false) (c :: rest)
      else if c = '"' then (string rest.length rest).map fun s => (.str s.1, s.2)
      else if c = '[' then
        if (skip rest).head? = some ']' then some (.arr [], (skip rest).tail)
        else (elements turns rest).map fun items => (.arr items.1, items.2)
      else if c = '{' then
        if (skip rest).head? = some '}' then some (.obj [], (skip rest).tail)
        else (members turns rest).map fun entries => (.obj (assemble entries.1), entries.2)
      else (Decimal.ofText (c :: rest)).map fun x => (.num x.1, x.2)

def elements : Nat → List Char → Option (List Value × List Char)
  | 0, _ => none
  | turns + 1, text =>
    (value turns text).bind fun v =>
      match skip v.2 with
      | [] => none
      | c :: rest =>
        if c = ']' then some ([v.1], rest)
        else if c = ',' then (elements turns rest).map fun items => (v.1 :: items.1, items.2)
        else none

def members : Nat → List Char → Option (List (CodeUnits × Value) × List Char)
  | 0, _ => none
  | turns + 1, text =>
    match skip text with
    | [] => none
    | q :: rest =>
      if q = '"' then
        (string rest.length rest).bind fun k =>
          if (skip k.2).head? = some ':' then
            (value turns (skip k.2).tail).bind fun v =>
              match skip v.2 with
              | [] => none
              | c :: rest =>
                if c = '}' then some ([(k.1, v.1)], rest)
                else if c = ',' then (members turns rest).map fun entries => ((k.1, v.1) :: entries.1, entries.2)
                else none
          else none
      else none

end

def parse (text : List Char) : Option Value :=
  (value text.length text).bind fun v => if (skip v.2).isEmpty then some v.1 else none

end N8n.Lib.JsonText
