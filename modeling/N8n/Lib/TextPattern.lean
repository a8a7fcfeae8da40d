import Mathlib.Data.List.Forall2
import Mathlib.Data.List.Infix

namespace N8n.Lib

inductive PatternToken
  | any
  | one
  | among (p : Char → Bool)

namespace PatternToken

/-- Some text for `any`, and one character for another token. -/
def covers : List PatternToken → List Char → Bool
  | [], text => text.isEmpty
  | .any :: tokens, text => text.tails.any (covers tokens)
  | .one :: _, [] | .among _ :: _, [] => false
  | .one :: tokens, _ :: text => covers tokens text
  | .among p :: tokens, c :: text => p c && covers tokens text

/-- A pattern whose only special character is `%`. -/
def wild (same : Char → Char → Bool) (pattern : List Char) : List PatternToken :=
  pattern.map fun c => if c = '%' then .any else .among (same c)

/-- The tokens of a pattern of `LIKE` with the escape character `\`. -/
def like (same : Char → Char → Bool) : List Char → List PatternToken
  | [] => []
  | '\\' :: c :: pattern => .among (same c) :: like same pattern
  | '%' :: pattern => .any :: like same pattern
  | '_' :: pattern => .one :: like same pattern
  | c :: pattern => .among (same c) :: like same pattern

/-- Where a reader of a `GLOB` pattern is: outside of a class, after its bracket, or between its members. -/
inductive GlobState
  | outside
  | opened
  | inside (inverted : Bool) (members : Char → Bool) (prior : Option Char)

/-- The tokens of a pattern of `GLOB`. A class that is not closed matches nothing. -/
def globFrom : GlobState → List Char → List PatternToken
  | .outside, [] => []
  | .outside, '*' :: pattern => .any :: globFrom .outside pattern
  | .outside, '?' :: pattern => .one :: globFrom .outside pattern
  | .outside, '[' :: pattern => globFrom .opened pattern
  | .outside, c :: pattern => .among (fun d => d = c) :: globFrom .outside pattern
  | .opened, '^' :: ']' :: pattern => globFrom (.inside true (fun d => d = ']') none) pattern
  | .opened, '^' :: pattern => globFrom (.inside true (fun _ => false) none) pattern
  | .opened, ']' :: pattern => globFrom (.inside false (fun d => d = ']') none) pattern
  | .opened, c :: pattern => globFrom (.inside false (fun d => d = c) (some c)) pattern
  | .inside inverted members _, ']' :: pattern =>
    .among (fun d => members d != inverted) :: globFrom .outside pattern
  | .inside inverted members (some low), '-' :: high :: pattern =>
    if high = ']' then .among (fun d => (members d || d = '-') != inverted) :: globFrom .outside pattern
    else globFrom (.inside inverted (fun d => members d || (low ≤ d && d ≤ high)) none) pattern
  | .inside inverted members _, c :: pattern =>
    globFrom (.inside inverted (fun d => members d || d = c) (some c)) pattern
  | .opened, [] | .inside _ _ _, [] => [.among fun _ => false]

def glob (pattern : List Char) : List PatternToken := globFrom .outside pattern

def comap (f : Char → Char) : PatternToken → PatternToken
  | .any => .any
  | .one => .one
  | .among p => .among (p ∘ f)

variable {same : Char → Char → Bool} {tokens : List PatternToken} {f : Char → Char} {text pattern : List Char}

theorem tails_map : (text.map f).tails = text.tails.map (List.map f) := by
  induction text with
  | nil => rfl
  | cons c text ih => rw [List.map_cons, List.tails_cons, List.tails_cons, List.map_cons, ih, List.map_cons]

theorem covers_map : covers tokens (text.map f) = covers (tokens.map (comap f)) text := by
  induction tokens generalizing text with
  | nil => cases text <;> rfl
  | cons token tokens ih =>
    cases token with
    | any =>
      simp only [covers, List.map_cons, comap]
      rw [tails_map, List.any_map]
      exact congrArg (fun p => text.tails.any p) (funext fun t => ih)
    | one =>
      cases text with
      | nil => rfl
      | cons c text => exact ih
    | among p =>
      cases text with
      | nil => rfl
      | cons c text => exact congrArg (p (f c) && ·) ih

theorem covers_contains (h : '%' ∉ pattern) : covers (wild same ('%' :: pattern ++ ['%'])) text = true ↔
    ∃ before found after, text = before ++ found ++ after ∧
      List.Forall₂ (fun c d => same c d = true) pattern found := by
  have hrest : ∀ rest, covers (wild same (pattern ++ ['%'])) rest = true ↔
      ∃ found after, rest = found ++ after ∧ List.Forall₂ (fun c d => same c d = true) pattern found := by
    intro rest
    induction pattern generalizing rest with
    | nil =>
      constructor
      · intro _
        exact ⟨[], rest, rfl, .nil⟩
      · intro _
        show rest.tails.any (fun t => t.isEmpty) = true
        exact List.any_eq_true.2 ⟨[], by simp, rfl⟩
    | cons c pattern ih =>
      obtain ⟨hc, hp⟩ := List.ne_and_not_mem_of_not_mem_cons h
      have hw : wild same (c :: pattern ++ ['%']) = .among (same c) :: wild same (pattern ++ ['%']) := by
        simp [wild, Ne.symm hc]
      rw [hw]
      cases rest with
      | nil =>
        constructor
        · intro hm
          cases hm
        · rintro ⟨found, after, hrest, hf⟩
          cases hf
          cases hrest
      | cons d rest =>
        rw [covers, Bool.and_eq_true, ih hp]
        constructor
        · rintro ⟨hd, found, after, rfl, hf⟩
          exact ⟨d :: found, after, rfl, .cons hd hf⟩
        · rintro ⟨found, after, hrest, hf⟩
          cases hf with
          | cons hd hf =>
            cases hrest
            exact ⟨hd, _, after, rfl, hf⟩
  have hw : wild same ('%' :: pattern ++ ['%']) = .any :: wild same (pattern ++ ['%']) := rfl
  rw [hw, covers, List.any_eq_true]
  constructor
  · rintro ⟨rest, ht, hm⟩
    obtain ⟨before, rfl⟩ := (List.mem_tails _ _).1 ht
    obtain ⟨found, after, rfl, hf⟩ := (hrest rest).1 hm
    exact ⟨before, found, after, (List.append_assoc ..).symm, hf⟩
  · rintro ⟨before, found, after, rfl, hf⟩
    refine ⟨found ++ after, (List.mem_tails _ _).2 ⟨before, (List.append_assoc ..).symm⟩, ?_⟩
    exact (hrest _).2 ⟨found, after, rfl, hf⟩

/-- The text in one part for each character of the pattern: any part for `%`, and for another character itself. -/
def Splits (pattern text : List Char) : Prop :=
  ∃ parts : List (List Char), text = parts.flatten ∧ List.Forall₂ (fun c part => c ≠ '%' → part = [c]) pattern parts

theorem covers_wild_iff :
    covers (wild (fun c d => d = c) pattern) text = true ↔ Splits pattern text := by
  induction pattern generalizing text with
  | nil =>
    constructor
    · intro h
      exact ⟨[], List.isEmpty_iff.mp h, .nil⟩
    · rintro ⟨parts, rfl, hparts⟩
      cases hparts
      rfl
  | cons c pattern ih =>
    by_cases hc : c = '%'
    · subst hc
      show text.tails.any (covers (wild _ pattern)) = true ↔ _
      rw [List.any_eq_true]
      constructor
      · rintro ⟨rest, hrest, hcovers⟩
        obtain ⟨part, rfl⟩ := (List.mem_tails _ _).mp hrest
        obtain ⟨parts, rfl, hparts⟩ := ih.mp hcovers
        exact ⟨part :: parts, rfl, .cons (absurd rfl) hparts⟩
      · rintro ⟨_, rfl, hparts⟩
        cases hparts with
        | @cons _ part _ parts _ hparts =>
          exact ⟨parts.flatten, (List.mem_tails _ _).mpr ⟨part, rfl⟩, ih.mpr ⟨parts, rfl, hparts⟩⟩
    · have hwild : wild (fun c d => d = c) (c :: pattern) =
          .among (fun d => d = c) :: wild (fun c d => d = c) pattern := by
        simp only [wild, List.map_cons, if_neg hc]
      rw [hwild]
      constructor
      · intro h
        cases text with
        | nil => cases h
        | cons d text =>
          rw [covers, Bool.and_eq_true, decide_eq_true_eq] at h
          obtain ⟨rfl, hcovers⟩ := h
          obtain ⟨parts, rfl, hparts⟩ := ih.mp hcovers
          exact ⟨[d] :: parts, rfl, .cons (fun _ => rfl) hparts⟩
      · rintro ⟨_, rfl, hparts⟩
        cases hparts with
        | @cons _ part _ parts hpart hparts =>
          rw [hpart hc, List.flatten_cons, List.singleton_append, covers, Bool.and_eq_true, decide_eq_true_eq]
          exact ⟨rfl, ih.mpr ⟨parts, rfl, hparts⟩⟩

end PatternToken

end N8n.Lib
