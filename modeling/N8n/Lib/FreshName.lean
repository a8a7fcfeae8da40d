import Mathlib.Data.List.Infix
import Mathlib.Data.List.TakeWhile

namespace N8n.Lib

variable {α : Type}

theorem toDigits_injective {m n : Nat} (h : Nat.toDigits 10 m = Nat.toDigits 10 n) : m = n := by
  rw [← Nat.ofDigitChars_toDigits (b := 10) (n := m) (by omega) (by omega), h,
    Nat.ofDigitChars_toDigits (by omega) (by omega)]

theorem not_mem_toDigits {c : Char} (hc : c.isDigit = false) {n : Nat} : c ∉ Nat.toDigits 10 n := by
  intro h
  rw [Nat.isDigit_of_mem_toDigits (by omega) (by omega) h] at hc
  cases hc

theorem append_cons_inj_of_not_mem [DecidableEq α] {a : α} {xs xs' ys ys' : List α} (hy : a ∉ ys)
    (hy' : a ∉ ys') (h : xs ++ a :: ys = xs' ++ a :: ys') : xs = xs' ∧ ys = ys' := by
  have htake : ∀ {xs ys : List α}, a ∉ ys → (xs ++ a :: ys).reverse.takeWhile (· ≠ a) = ys.reverse := by
    intro xs ys hy
    rw [List.reverse_append, List.reverse_cons, List.append_assoc, List.takeWhile_append_of_pos]
    · simp
    · intro b hb
      simpa using fun hba : b = a => hy (hba ▸ List.mem_reverse.1 hb)
  have hys : ys = ys' := List.reverse_injective ((htake hy).symm.trans ((congrArg _ (congrArg _ h)).trans (htake hy')))
  exact ⟨List.append_cancel_right (hys ▸ h), hys⟩

end N8n.Lib
