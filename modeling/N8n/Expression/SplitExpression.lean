import N8n.Lib.CodeUnits
import N8n.Lib.Substring

namespace N8n.ExpressionParser

open N8n.Lib

inductive ExpressionChunk where
  | text (text : CodeUnits)
  | code (text : CodeUnits) (hasClosingBrackets : Bool)
  deriving DecidableEq

inductive SearchingFor where
  | open
  | close
  deriving DecidableEq

/-- The unit that the regex `OPEN_BRACKET` or `CLOSE_BRACKET` looks for twice in a row. -/
def SearchingFor.brace : SearchingFor → UInt16
  | .open => openBrace
  | .close => closeBrace

@[grind =] def SearchingFor.brackets (searchingFor : SearchingFor) : CodeUnits := [searchingFor.brace, searchingFor.brace]

/-- A match of the regex: where it begins, and whether its group `escape` took a backslash. -/
structure BracketMatch where
  index : Nat
  escape : Bool
  deriving DecidableEq

/-- The regex `(\\|)` followed by the two braces, at the first place where it matches. -/
@[grind =] def SearchingFor.exec (searchingFor : SearchingFor) : CodeUnits → Option BracketMatch
  | [] => none
  | c :: rest =>
    if c = backslash ∧ searchingFor.brackets <+: rest then some ⟨0, true⟩
    else if searchingFor.brackets <+: c :: rest then some ⟨0, false⟩
    else (searchingFor.exec rest).map (fun res => { res with index := res.index + 1 })

def escapeCode (text : CodeUnits) : CodeUnits :=
  replaceFirst (backslash :: SearchingFor.close.brackets) SearchingFor.close.brackets text

/-- The loop of `splitExpression`. The slice `expr` stands for `index`; the first argument bounds the turns. -/
def splitLoop : Nat → List ExpressionChunk → SearchingFor → CodeUnits → CodeUnits → List ExpressionChunk
  | 0, chunks, _, _, _ => chunks
  | turns + 1, chunks, searchingFor, buffer, expr =>
    if expr = [] then chunks
    else
      match searchingFor.exec expr, searchingFor with
      -- No more brackets: an unclosed code chunk is accepted, and marked.
      | none, .open => chunks ++ [.text (buffer ++ expr)]
      | none, .close => chunks ++ [.code (escapeCode (buffer ++ expr)) false]
      | some ⟨index, true⟩, _ =>
        splitLoop turns chunks searchingFor (buffer ++ expr.take (index + 3)) (expr.drop (index + 3))
      | some ⟨index, false⟩, .open =>
        splitLoop turns (chunks ++ [.text (buffer ++ expr.take index)]) .close [] (expr.drop (index + 2))
      | some ⟨index, false⟩, .close =>
        splitLoop turns (chunks ++ [.code (escapeCode (buffer ++ expr.take index)) true]) .open []
          (expr.drop (index + 2))

def splitExpression (expression : CodeUnits) : List ExpressionChunk :=
  if expression = [] then [.text []] else splitLoop expression.length [] .open [] expression

def escapeTmplExpression (part : CodeUnits) : CodeUnits :=
  replaceFirst SearchingFor.close.brackets (backslash :: SearchingFor.close.brackets) part

def ExpressionChunk.source : ExpressionChunk → CodeUnits
  | .text content => content
  | .code content hasClosingBrackets =>
    SearchingFor.open.brackets ++ escapeTmplExpression content ++
      (if hasClosingBrackets then SearchingFor.close.brackets else [])

def joinExpression (parts : List ExpressionChunk) : CodeUnits := parts.flatMap ExpressionChunk.source

@[simp]
theorem joinExpression_append (parts more : List ExpressionChunk) :
    joinExpression (parts ++ more) = joinExpression parts ++ joinExpression more :=
  List.flatMap_append

@[simp]
theorem joinExpression_single (chunk : ExpressionChunk) : joinExpression [chunk] = chunk.source := by
  simp [joinExpression]

theorem exec_none {searchingFor : SearchingFor} : ∀ {expr : CodeUnits}, searchingFor.exec expr = none →
    ∀ k, ¬ searchingFor.brackets <+: expr.drop k
  | [], _, k => by simp [SearchingFor.brackets]
  | c :: rest, h, k => by
      rw [SearchingFor.exec] at h
      split_ifs at h with hesc hhead
      have hrest : searchingFor.exec rest = none := Option.map_eq_none_iff.1 h
      cases k with
      | zero => exact hhead
      | succ k => exact exec_none hrest k

def BracketMatch.token (searchingFor : SearchingFor) (res : BracketMatch) : CodeUnits :=
  if res.escape then backslash :: searchingFor.brackets else searchingFor.brackets

theorem exec_some {searchingFor : SearchingFor} : ∀ {expr : CodeUnits} {res : BracketMatch},
    searchingFor.exec expr = some res →
      res.index ≤ expr.length ∧
      (∃ post, expr.drop res.index = res.token searchingFor ++ post) ∧
      ∀ k < res.index, ¬ searchingFor.brackets <+: expr.drop k
  | [], res, h => by simp [SearchingFor.exec] at h
  | c :: rest, res, h => by
      rw [SearchingFor.exec] at h
      split_ifs at h with hesc hhead
      · cases h
        obtain ⟨rfl, post, hpost⟩ := hesc
        exact ⟨Nat.zero_le _, ⟨post, by simp [BracketMatch.token, ← hpost]⟩,
          fun k hk => absurd hk k.not_lt_zero⟩
      · cases h
        obtain ⟨post, hpost⟩ := hhead
        exact ⟨Nat.zero_le _, ⟨post, by simp [BracketMatch.token, ← hpost]⟩,
          fun k hk => absurd hk k.not_lt_zero⟩
      · obtain ⟨found, hfound, rfl⟩ := Option.map_eq_some_iff.1 h
        obtain ⟨hle, hpost, hbefore⟩ := exec_some hfound
        refine ⟨Nat.succ_le_succ hle, hpost, fun k hk => ?_⟩
        cases k with
        | zero => exact hhead
        | succ k => exact hbefore k (Nat.lt_of_succ_lt_succ hk)

end N8n.ExpressionParser
