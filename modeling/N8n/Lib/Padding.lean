import Mathlib.Data.List.Basic

namespace N8n.Lib

variable {α : Type} {fill : Nat → α} {f : Nat → Option α} {xs : List α} {a : α} {i : Nat}

def padTo (fill : Nat → α) (n : Nat) (xs : List α) : List α :=
  xs ++ (List.range (n - xs.length)).map fun i => fill (xs.length + i)

def writeAt (xs : List α) (i : Nat) (a : α) : List α := if i < xs.length then xs.set i a else xs ++ [a]

def padWrite (fill : Nat → α) (xs : List α) (i : Nat) (a : α) : List α := writeAt (padTo fill i xs) i a

@[simp] theorem length_padTo (fill : Nat → α) (n : Nat) (xs : List α) : (padTo fill n xs).length = max xs.length n := by
  simp only [padTo, List.length_append, List.length_map, List.length_range]
  omega

theorem getElem?_padTo (fill : Nat → α) (n : Nat) (xs : List α) (j : Nat) :
    (padTo fill n xs)[j]? = if j < xs.length then xs[j]? else if j < n then some (fill j) else none := by
  rw [padTo, List.getElem?_append]
  split
  · rfl
  · next hj =>
    rw [List.getElem?_map]
    split
    · next hn =>
      rw [List.getElem?_range (by omega), Option.map_some]
      congr 2
      omega
    · next hn => rw [List.getElem?_eq_none (by rw [List.length_range]; omega), Option.map_none]

@[simp] theorem length_padWrite (fill : Nat → α) (xs : List α) (i : Nat) (a : α) :
    (padWrite fill xs i a).length = max xs.length (i + 1) := by
  rw [padWrite, writeAt]
  split
  · next h =>
    rw [List.length_set, length_padTo]
    rw [length_padTo] at h
    omega
  · next h =>
    rw [List.length_append, length_padTo, List.length_singleton]
    rw [length_padTo] at h
    omega

theorem getElem?_padWrite (fill : Nat → α) (xs : List α) (i j : Nat) (a : α) :
    (padWrite fill xs i a)[j]? =
      if j = i then some a else if j < xs.length then xs[j]? else if j < i then some (fill j) else none := by
  rw [padWrite, writeAt]
  split
  · next h =>
    rw [List.getElem?_set, getElem?_padTo]
    by_cases hij : i = j
    · rw [if_pos hij, if_pos hij.symm, if_pos (hij ▸ h)]
    · rw [if_neg hij, if_neg (Ne.symm hij)]
  · next h =>
    have hlength : (padTo fill i xs).length = i := by
      rw [length_padTo] at h ⊢
      omega
    rw [List.getElem?_append, hlength, getElem?_padTo]
    by_cases hij : j = i
    · rw [if_pos hij, if_neg (by omega), hij, Nat.sub_self]
      rfl
    · rw [if_neg hij]
      split
      · rfl
      · next hj =>
        rw [length_padTo] at hlength
        rw [if_neg (by omega)]
        exact List.getElem?_eq_none (by rw [List.length_singleton]; omega)

/-- The list holds what has been written, with padding in the gaps and none at the end. -/
structure Padded (fill : Nat → α) (f : Nat → Option α) (xs : List α) : Prop where
  entries : ∀ i a, f i = some a → xs[i]? = some a
  gaps : ∀ i, i < xs.length → f i = none → xs[i]? = some (fill i)
  last : ∀ n, xs.length = n + 1 → (f n).isSome = true

theorem padded_nil (fill : Nat → α) : Padded fill (fun _ => none) [] where
  entries _ _ h := nomatch h
  gaps _ h := absurd h (Nat.not_lt_zero _)
  last _ h := nomatch h

theorem Padded.write (h : Padded fill f xs) (i : Nat) (a : α) :
    Padded fill (Function.update f i (some a)) (padWrite fill xs i a) where
  entries j b hj := by
    rw [getElem?_padWrite]
    by_cases hij : j = i
    · rw [hij, Function.update_self] at hj
      rw [if_pos hij, hj]
    · rw [Function.update_of_ne hij] at hj
      have hb := h.entries j b hj
      rw [if_neg hij, if_pos (List.getElem?_eq_some_iff.1 hb).1, hb]
  gaps j hj hnone := by
    rw [length_padWrite] at hj
    rw [getElem?_padWrite]
    by_cases hij : j = i
    · rw [hij, Function.update_self] at hnone
      cases hnone
    · rw [Function.update_of_ne hij] at hnone
      rw [if_neg hij]
      split
      · next hlt => exact h.gaps j hlt hnone
      · rw [if_pos (by omega)]
  last n hn := by
    rw [length_padWrite] at hn
    by_cases hni : n = i
    · rw [hni, Function.update_self]
      rfl
    · rw [Function.update_of_ne hni]
      exact h.last n (by omega)

theorem Padded.lt_length (h : Padded fill f xs) (hi : f i = some a) : i < xs.length :=
  (List.getElem?_eq_some_iff.1 (h.entries i a hi)).1

end N8n.Lib
