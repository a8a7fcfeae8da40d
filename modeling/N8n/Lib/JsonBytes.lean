import N8n.Lib.JsonText
import N8n.Lib.FreshName

namespace N8n.Lib.JsonText

open Utf16

def byteCount (text : List Char) : Nat := (Utf8.encode text).length

@[simp]
theorem byteCount_nil : byteCount [] = 0 := rfl

@[simp]
theorem byteCount_cons (c : Char) (text : List Char) : byteCount (c :: text) = c.utf8Size + byteCount text := by
  rw [byteCount, Utf8.encode_cons, List.length_append, String.length_utf8EncodeChar]
  rfl

@[simp]
theorem byteCount_append (text text' : List Char) : byteCount (text ++ text') = byteCount text + byteCount text' := by
  induction text with
  | nil => simp
  | cons c text ih => simp [ih, Nat.add_assoc]

theorem utf8Size_eq (c : Char) :
    c.utf8Size = if c.toNat ≤ 0x7F then 1 else if c.toNat ≤ 0x7FF then 2 else if c.toNat ≤ 0xFFFF then 3 else 4 := by
  simp only [Char.utf8Size, UInt32.le_iff_toNat_le]
  rfl

def Ascii (text : List Char) : Prop := ∀ c ∈ text, c.toNat ≤ 0x7F

theorem ascii_nil : Ascii [] := fun _ h => nomatch h

theorem Ascii.append {text text' : List Char} (h : Ascii text) (h' : Ascii text') : Ascii (text ++ text') := by
  intro c hc
  exact (List.mem_append.1 hc).elim (h c) (h' c)

theorem Ascii.cons {c : Char} {text : List Char} (hc : c.toNat ≤ 0x7F) (h : Ascii text) : Ascii (c :: text) := by
  intro d hd
  rcases List.mem_cons.1 hd with rfl | hd
  · exact hc
  · exact h d hd

theorem Ascii.mono {text text' : List Char} (h : Ascii text) (hsub : ∀ c ∈ text', c ∈ text) : Ascii text' :=
  fun c hc => h c (hsub c hc)

theorem Ascii.byteCount {text : List Char} (h : Ascii text) : byteCount text = text.length := by
  induction text with
  | nil => rfl
  | cons c text ih =>
    rw [byteCount_cons, ih (h.mono fun _ => List.mem_cons_of_mem c), utf8Size_eq, if_pos (h c List.mem_cons_self),
      List.length_cons, Nat.add_comm]

theorem toDigits_ascii (n : Nat) : Ascii (Nat.toDigits 10 n) := by
  intro c hc
  have hdigit : c.isDigit = true := by
    by_contra h
    exact not_mem_toDigits (Bool.eq_false_iff.2 h) hc
  simp only [Char.isDigit, Bool.and_eq_true, decide_eq_true_eq, UInt32.le_iff_toNat_le] at hdigit
  have hle : c.toNat ≤ 57 := hdigit.2
  omega

theorem replicate_ascii (n : Nat) : Ascii (List.replicate n '0') := by
  intro c hc
  rw [List.eq_of_mem_replicate hc]
  decide

theorem scientific_ascii {ds : List Char} (h : Ascii ds) (e : Int) : Ascii (Decimal.scientific ds e) := by
  apply Ascii.append
  · apply (h.mono fun _ => List.mem_of_mem_take).append
    split
    · exact ascii_nil
    · exact (h.mono fun _ => List.mem_of_mem_drop).cons (by decide)
  · apply Ascii.cons (by decide)
    apply Ascii.cons _ (toDigits_ascii _)
    split <;> decide

theorem layout_ascii {ds : List Char} (h : Ascii ds) (n : Int) : Ascii (Decimal.layout ds n) := by
  rw [Decimal.layout]
  split
  · exact h.append (replicate_ascii _)
  split
  · exact (h.mono fun _ => List.mem_of_mem_take).append ((h.mono fun _ => List.mem_of_mem_drop).cons (by decide))
  split
  · exact (((replicate_ascii _).append h).cons (by decide)).cons (by decide)
  · exact scientific_ascii h _

theorem byteCount_toText (x : Decimal) : byteCount x.toText = x.toText.length := by
  apply Ascii.byteCount
  rw [Decimal.toText]
  split
  · exact Ascii.cons (by decide) ascii_nil
  · apply Ascii.append _ (layout_ascii (toDigits_ascii _) _)
    rw [Decimal.sign]
    split
    · exact Ascii.cons (by decide) ascii_nil
    · exact ascii_nil

theorem length_toDigits {n k : Nat} (h : 10 ^ k ≤ n) (h' : n < 10 ^ (k + 1)) : (Nat.toDigits 10 n).length = k + 1 := by
  apply Nat.le_antisymm
  · exact (Nat.length_toDigits_le_iff (by decide) (Nat.succ_pos k)).2 h'
  · cases k with
    | zero => exact Nat.length_toDigits_pos
    | succ k =>
      by_contra hlt
      exact absurd ((Nat.length_toDigits_le_iff (by decide) (Nat.succ_pos k)).1 (by omega)) (Nat.not_lt.2 h)

theorem toDigits_bounds {n : Nat} (hn : 0 < n) :
    10 ^ ((Nat.toDigits 10 n).length - 1) ≤ n ∧ n < 10 ^ (Nat.toDigits 10 n).length := by
  have hlog := Nat.pow_log_le_self 10 hn.ne'
  have hlog' := Nat.lt_pow_succ_log_self (b := 10) (by decide) n
  rw [length_toDigits hlog hlog']
  exact ⟨hlog, hlog'⟩

theorem length_toText_plain {x : Decimal} (he : 0 ≤ x.exponent) (hdigits : 0 < x.digits)
    (hlt : x.digits * 10 ^ x.exponent.toNat < 10 ^ 21) :
    x.toText.length = (Decimal.sign x.negative).length + (Nat.toDigits 10 (x.digits * 10 ^ x.exponent.toNat)).length := by
  obtain ⟨hle, hlt'⟩ := toDigits_bounds hdigits
  obtain ⟨k, hk⟩ : ∃ k, x.significant.length = k + 1 := ⟨x.significant.length - 1, by
    have : 0 < x.significant.length := Nat.length_toDigits_pos
    omega⟩
  change 10 ^ (x.significant.length - 1) ≤ x.digits at hle
  change x.digits < 10 ^ x.significant.length at hlt'
  rw [hk] at hle hlt'
  have hpow : 0 < 10 ^ x.exponent.toNat := Nat.pow_pos (by decide)
  have hmag : 10 ^ (k + x.exponent.toNat) ≤ x.digits * 10 ^ x.exponent.toNat := by
    rw [Nat.pow_add]
    exact Nat.mul_le_mul_right _ hle
  have hmag' : x.digits * 10 ^ x.exponent.toNat < 10 ^ (k + x.exponent.toNat + 1) := by
    rw [Nat.add_right_comm, Nat.pow_add]
    exact Nat.mul_lt_mul_of_pos_right hlt' hpow
  have hk21 : k + x.exponent.toNat < 21 := (Nat.pow_lt_pow_iff_right (by decide)).1 (hmag.trans_lt hlt)
  have hn : (x.significant.length : Int) + x.exponent = (k + x.exponent.toNat + 1 : Nat) := by omega
  rw [Decimal.toText, if_neg hdigits.ne', List.length_append, length_toDigits hmag hmag', hn, Decimal.layout,
    if_pos (by omega), List.length_append, List.length_replicate]
  omega

mutual

def nonEmptyContainers : Value → Nat
  | .arr items => (if items = [] then 0 else 1) + nonEmptyElements items
  | .obj entries => (if entries = [] then 0 else 1) + nonEmptyMembers entries
  | _ => 0

def nonEmptyElements : List Value → Nat
  | [] => 0
  | v :: items => nonEmptyContainers v + nonEmptyElements items

def nonEmptyMembers : List (CodeUnits × Value) → Nat
  | [] => 0
  | (_, v) :: entries => nonEmptyContainers v + nonEmptyMembers entries

end

def paddedSize (v : Value) : Nat := byteCount (stringify v) + nonEmptyContainers v

theorem byteCount_separator {α : Type} (rest : List α) : byteCount (separator rest) = if rest = [] then 0 else 1 := by
  cases rest <;> rfl

theorem elements_size (items : List Value) :
    (items.map fun v => 1 + paddedSize v).sum =
      byteCount (elementTexts items) + (if items = [] then 0 else 1) + nonEmptyElements items := by
  induction items with
  | nil => rfl
  | cons v items ih =>
    rw [List.map_cons, List.sum_cons, ih, elementTexts, nonEmptyElements, byteCount_append, byteCount_append,
      byteCount_separator, if_neg (List.cons_ne_nil v items), paddedSize]
    omega

theorem members_size (entries : List (CodeUnits × Value)) :
    (entries.map fun e => 2 + byteCount (quote e.1) + paddedSize e.2).sum =
      byteCount (memberTexts entries) + (if entries = [] then 0 else 1) + nonEmptyMembers entries := by
  induction entries with
  | nil => rfl
  | cons e entries ih =>
    have hcolon : (':' : Char).utf8Size = 1 := rfl
    rw [List.map_cons, List.sum_cons, ih, memberTexts, nonEmptyMembers, byteCount_append, byteCount_append,
      byteCount_append, byteCount_cons, byteCount_separator, hcolon, if_neg (List.cons_ne_nil e entries), paddedSize]
    omega

theorem paddedSize_arr (items : List Value) : paddedSize (.arr items) = 2 + (items.map fun v => 1 + paddedSize v).sum := by
  have hopen : ('[' : Char).utf8Size = 1 := rfl
  have hclose : (']' : Char).utf8Size = 1 := rfl
  rw [elements_size, paddedSize, stringify, nonEmptyContainers, byteCount_cons, byteCount_append, byteCount_cons, hopen,
    hclose, byteCount_nil]
  omega

theorem paddedSize_obj (entries : List (CodeUnits × Value)) :
    paddedSize (.obj entries) = 2 + (entries.map fun e => 2 + byteCount (quote e.1) + paddedSize e.2).sum := by
  have hopen : ('{' : Char).utf8Size = 1 := rfl
  have hclose : ('}' : Char).utf8Size = 1 := rfl
  rw [members_size, paddedSize, stringify, nonEmptyContainers, byteCount_cons, byteCount_append, byteCount_cons, hopen,
    hclose, byteCount_nil]
  omega

end N8n.Lib.JsonText
