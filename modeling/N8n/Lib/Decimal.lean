import Mathlib.Data.Nat.Log
import Mathlib.Tactic.Ring

namespace N8n.Lib

structure Decimal where
  negative : Bool
  digits : Nat
  exponent : Int
  normal : digits % 10 ≠ 0 ∨ digits = 0 ∧ exponent = 0
  deriving DecidableEq

namespace Decimal

/-- The trailing zeros of a number taken into the exponent; the first argument bounds the turns. -/
def dropZeros : Nat → Nat → Int → Nat × Int
  | 0, m, e => (m, e)
  | turns + 1, m, e => if m % 10 = 0 then dropZeros turns (m / 10) (e + 1) else (m, e)

theorem dropZeros_normal (turns : Nat) {m : Nat} (e : Int) (hpos : 0 < m) (hm : m < 10 ^ turns) :
    (dropZeros turns m e).1 % 10 ≠ 0 := by
  induction turns generalizing m e with
  | zero => rw [pow_zero] at hm; omega
  | succ turns ih =>
    rw [dropZeros]
    split
    · next h =>
      rw [pow_succ] at hm
      exact ih (e + 1) (by omega) (by omega)
    · next h => exact h

def ofScaled (negative : Bool) (m : Nat) (e : Int) : Decimal :=
  if h : m = 0 then ⟨negative, 0, 0, .inr ⟨rfl, rfl⟩⟩
  else ⟨negative, (dropZeros m m e).1, (dropZeros m m e).2,
    .inl (dropZeros_normal m e (Nat.pos_of_ne_zero h) (Nat.lt_pow_self (by decide)))⟩

def scientific (ds : List Char) (e : Int) : List Char :=
  ds.take 1 ++ (if ds.length = 1 then [] else '.' :: ds.drop 1) ++
    'e' :: (if e < 0 then '-' else '+') :: Nat.toDigits 10 e.natAbs

/-- The layout of digits with the decimal point after the first `n`: plainly up to a magnitude of 10 ^ 21 and down to
10 ^ -6, else with an exponent. -/
def layout (ds : List Char) (n : Int) : List Char :=
  if ds.length ≤ n ∧ n ≤ 21 then ds ++ List.replicate (n - ds.length).toNat '0'
  else if 0 < n ∧ n ≤ 21 then ds.take n.toNat ++ '.' :: ds.drop n.toNat
  else if -6 < n ∧ n ≤ 0 then '0' :: '.' :: (List.replicate (-n).toNat '0' ++ ds)
  else scientific ds (n - 1)

def significant (x : Decimal) : List Char := Nat.toDigits 10 x.digits

def sign (negative : Bool) : List Char := if negative then ['-'] else []

def toText (x : Decimal) : List Char :=
  if x.digits = 0 then ['0'] else sign x.negative ++ layout x.significant (x.significant.length + x.exponent)

def integerPart : List Char → Option (List Char × List Char)
  | [] => none
  | c :: rest =>
    if c = '0' then some (['0'], rest)
    else if c.isDigit then some ((c :: rest).takeWhile Char.isDigit, (c :: rest).dropWhile Char.isDigit)
    else none

def digitRun (text : List Char) : Option (List Char × List Char) :=
  if text.takeWhile Char.isDigit = [] then none
  else some (text.takeWhile Char.isDigit, text.dropWhile Char.isDigit)

def fractionPart : List Char → Option (List Char × List Char)
  | [] => some ([], [])
  | c :: rest => if c = '.' then digitRun rest else some ([], c :: rest)

def exponentSign : List Char → Bool × List Char
  | [] => (false, [])
  | c :: rest => if c = '-' then (true, rest) else if c = '+' then (false, rest) else (false, c :: rest)

def exponentPart : List Char → Option (Int × List Char)
  | [] => some (0, [])
  | c :: rest =>
    if c = 'e' ∨ c = 'E' then
      (digitRun (exponentSign rest).2).map fun run =>
        let magnitude : Int := Nat.ofDigitChars 10 run.1 0
        (if (exponentSign rest).1 then -magnitude else magnitude, run.2)
    else some (0, c :: rest)

def unsigned (negative : Bool) (text : List Char) : Option (Decimal × List Char) :=
  (integerPart text).bind fun whole =>
    (fractionPart whole.2).bind fun fraction =>
      (exponentPart fraction.2).map fun power =>
        (ofScaled negative (Nat.ofDigitChars 10 (whole.1 ++ fraction.1) 0) (power.1 - fraction.1.length), power.2)

/-- A number at the head of a text, by the grammar of JSON, and what follows it. -/
def ofText : List Char → Option (Decimal × List Char)
  | [] => none
  | c :: rest => if c = '-' then unsigned true rest else unsigned false (c :: rest)

end Decimal

end N8n.Lib
