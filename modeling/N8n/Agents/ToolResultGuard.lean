import Mathlib.Data.Rat.Floor
import Mathlib.Tactic.Positivity
import N8n.Lib.JsonText

namespace N8n.ToolResultGuard

open N8n.Lib N8n.Lib.JsonText

/-- How a quotient of lengths is rounded: within the unit roundoff of binary64, and to no negative number. -/
structure Rounding where
  round : ℚ → ℚ
  nonneg : ∀ x, 0 ≤ x → 0 ≤ round x
  error : ∀ x, 0 ≤ x → round x ≤ x * (1 + 1 / 2 ^ 53)

def byteLength (text : CodeUnits) : Nat := (Utf8.encode (Utf16.chars text)).length

structure TokenCounter where
  count : CodeUnits → Nat
  le_bytes : ∀ text, count text ≤ byteLength text

inductive ToolResultKind
  | result | error | message

/-- What stores a text and answers with its path; without storage, or where it is only read, there is none. -/
abbrev Storage := Option (ToolResultKind → CodeUnits → Option CodeUnits)

abbrev Part := List (CodeUnits × Value)

/-- The output of a tool, with its value in JSON. -/
inductive ToolOutput
  | content (value : List Part)
  | result (historyOutput : Value)

def ToolOutput.toJsonValue : ToolOutput → Value
  | .content value => .obj [(ascii "type", .str (ascii "content")), (ascii "value", .arr (value.map .obj))]
  | .result historyOutput => historyOutput

structure GuardedToolResult where
  historyOutput : Value
  wireOutput : ToolOutput
  truncated : Bool
  offloaded : Bool

def maxModelToolResultTokens : Nat := 50000

def smallPayloadOverheadBytes : Nat := 1024

def serialize (v : Value) : CodeUnits := Utf16.units (stringify v)

def natValue (n : Nat) : Value := .num (Decimal.ofScaled false n 0)

structure TruncatedToolResult where
  originalCharCount : Nat
  estimatedTokenCount : Nat
  head : CodeUnits
  tail : CodeUnits

def TruncatedToolResult.toJson (t : TruncatedToolResult) : Value :=
  .obj [(ascii "_truncated", .bool true), (ascii "originalCharCount", natValue t.originalCharCount),
    (ascii "estimatedTokenCount", natValue t.estimatedTokenCount), (ascii "head", .str t.head),
    (ascii "tail", .str t.tail)]

/-- `slice(-n)` for a length that is not zero. -/
def sliceFromEnd (value : CodeUnits) (n : Nat) : CodeUnits := value.drop (value.length - n)

def splitHeadAndTail (value : CodeUnits) (excerptLength : Nat) : CodeUnits × CodeUnits :=
  let headLength := (excerptLength + 1) / 2
  let tailLength := excerptLength / 2
  (value.take headLength, if tailLength = 0 then [] else sliceFromEnd value tailLength)

variable (r : Rounding)

/-- `Math.floor((length * MAX_MODEL_TOOL_RESULT_TOKENS * 0.9) / count)`. -/
def excerptFor (length count : Nat) : Nat :=
  ⌊r.round (r.round (r.round ((length : ℚ) * maxModelToolResultTokens) * r.round (9 / 10)) / count)⌋₊

def candidate (serialized : CodeUnits) (originalTokenCount excerptLength : Nat) : TruncatedToolResult :=
  let split := splitHeadAndTail serialized excerptLength
  ⟨serialized.length, originalTokenCount, split.1, split.2⟩

def truncateFrom (counter : TokenCounter) (serialized : CodeUnits) (originalTokenCount excerptLength : Nat) :
    TruncatedToolResult :=
  let envelope := candidate serialized originalTokenCount excerptLength
  let candidateTokenCount := counter.count (serialize envelope.toJson)
  if h : candidateTokenCount ≤ maxModelToolResultTokens ∨ excerptLength = 0 then envelope
  else truncateFrom counter serialized originalTokenCount
    (min (excerptLength - 1) (excerptFor r excerptLength candidateTokenCount))
termination_by excerptLength
decreasing_by omega

def buildTruncationEnvelope (serialized : CodeUnits) (originalTokenCount : Nat) (counter : TokenCounter) :
    TruncatedToolResult :=
  truncateFrom r counter serialized originalTokenCount (excerptFor r serialized.length originalTokenCount)

def isClearlyWithinTokenLimit (serialized : CodeUnits) : Bool :=
  byteLength serialized + smallPayloadOverheadBytes ≤ maxModelToolResultTokens

def offloadMessage : String :=
  "The complete tool result was stored in the workspace. Follow requiredAction before answering, then keep using workspace_read_tool_result with relevant JSON Pointers and nextOffset pages until you have enough evidence. Do not assume the first page is complete when hasMore is true."

def offloadedToolResult (path serialized : CodeUnits) (tokenCount : Nat) : Value :=
  .obj [(ascii "_offloaded", .bool true), (ascii "path", .str path),
    (ascii "originalCharCount", natValue serialized.length), (ascii "estimatedTokenCount", natValue tokenCount),
    (ascii "requiredAction", .obj [(ascii "toolName", .str (ascii "workspace_read_tool_result")),
      (ascii "input", .obj [(ascii "path", .str path), (ascii "view", .str (ascii "describe"))])]),
    (ascii "message", .str (ascii offloadMessage))]

def tryOffloadResult (serialized : CodeUnits) (tokenCount : Nat) (kind : ToolResultKind) (storage : Storage) :
    Option Value :=
  (storage.bind fun store => store kind serialized).map fun path => offloadedToolResult path serialized tokenCount

def guardResult (historyOutput : Value) (output : ToolOutput) (counter : TokenCounter) (storage : Storage)
    (kind : ToolResultKind) : GuardedToolResult :=
  let serialized := serialize historyOutput
  if isClearlyWithinTokenLimit serialized then ⟨historyOutput, output, false, false⟩
  else
    let tokenCount := counter.count serialized
    if tokenCount ≤ maxModelToolResultTokens then ⟨historyOutput, output, false, false⟩
    else
      match tryOffloadResult serialized tokenCount kind storage with
      | some offloaded => ⟨offloaded, .result offloaded, false, true⟩
      | none =>
        let truncated := (buildTruncationEnvelope r serialized tokenCount counter).toJson
        ⟨truncated, .result truncated, true, false⟩

def isText (part : Part) : Bool :=
  match Entries.lookup (ascii "type") part with
  | some (.str type) => type = ascii "text"
  | _ => false

/-- The first text part takes the replacement, and the others go. -/
def replaceText (replacement : CodeUnits) : List Part → List Part
  | [] => []
  | part :: value =>
    if isText part then
      Entries.put (ascii "text") (.str replacement) part :: value.filter fun part => !isText part
    else part :: replaceText replacement value

def guardContentToolResultForModel (value : List Part) (counter : TokenCounter) (storage : Storage)
    (kind : ToolResultKind) : GuardedToolResult :=
  let output := ToolOutput.content value
  let textParts := value.filter isText
  let texts := Value.arr (textParts.map .obj)
  let guardedText := guardResult r texts (.result texts) counter storage kind
  if textParts = [] ∨ guardedText.truncated = false ∧ guardedText.offloaded = false then
    ⟨output.toJsonValue, output, false, false⟩
  else
    let wireOutput := ToolOutput.content (replaceText (serialize guardedText.historyOutput) value)
    ⟨wireOutput.toJsonValue, wireOutput, guardedText.truncated, guardedText.offloaded⟩

def guardToolResultForModel (output : ToolOutput) (counter : TokenCounter) (storage : Storage)
    (kind : ToolResultKind) : GuardedToolResult :=
  match output with
  | .content value => guardContentToolResultForModel r value counter storage kind
  | .result historyOutput => guardResult r historyOutput output counter storage kind

section Lengths

variable {r} {counter : TokenCounter} {serialized : CodeUnits} {length count originalTokenCount excerptLength : Nat}

structure Excerpt (text : CodeUnits) (t : TruncatedToolResult) : Prop where
  head : t.head <+: text
  tail : t.tail <:+ text
  apart : t.head.length + t.tail.length ≤ text.length

theorem excerptFor_le (h : maxModelToolResultTokens < count) : excerptFor r length count ≤ length := by
  have hlength : (0 : ℚ) ≤ length := Nat.cast_nonneg _
  have hcount : (50000 : ℚ) ≤ count := by exact_mod_cast (le_of_lt h : maxModelToolResultTokens ≤ count)
  have hmax : ((maxModelToolResultTokens : ℕ) : ℚ) = 50000 := rfl
  rw [excerptFor, hmax]
  -- Four roundings and the factor stay below one.
  have hproduct := r.error (length * 50000) (by positivity)
  have hfactor := r.error (9 / 10) (by norm_num)
  have hproduct₀ := r.nonneg (length * 50000) (by positivity)
  have hfactor₀ := r.nonneg (9 / 10) (by norm_num)
  have hscaled : r.round (length * 50000) * r.round (9 / 10) ≤ length * 50000 * (91 / 100) :=
    calc r.round (length * 50000) * r.round (9 / 10)
        ≤ length * 50000 * (1 + 1 / 2 ^ 53) * (9 / 10 * (1 + 1 / 2 ^ 53)) :=
          mul_le_mul hproduct hfactor hfactor₀ (by positivity)
      _ = length * 50000 * ((1 + 1 / 2 ^ 53) * (9 / 10 * (1 + 1 / 2 ^ 53))) := by ring
      _ ≤ length * 50000 * (91 / 100) := mul_le_mul_of_nonneg_left (by norm_num) (by positivity)
  have hrounded := r.error _ (mul_nonneg hproduct₀ hfactor₀)
  have hrounded₀ := r.nonneg _ (mul_nonneg hproduct₀ hfactor₀)
  have hquotient : r.round (r.round (length * 50000) * r.round (9 / 10)) / count ≤ length * (92 / 100) := by
    rw [div_le_iff₀ (by linarith)]
    calc r.round (r.round (length * 50000) * r.round (9 / 10))
        ≤ length * 50000 * (91 / 100) * (1 + 1 / 2 ^ 53) :=
          hrounded.trans (mul_le_mul_of_nonneg_right hscaled (by positivity))
      _ = length * (92 / 100) * (50000 * (91 / 92 * (1 + 1 / 2 ^ 53))) := by ring
      _ ≤ length * (92 / 100) * 50000 := mul_le_mul_of_nonneg_left (by norm_num) (by positivity)
      _ ≤ length * (92 / 100) * count := mul_le_mul_of_nonneg_left hcount (by positivity)
  have hquotient₀ : 0 ≤ r.round (r.round (length * 50000) * r.round (9 / 10)) / count :=
    div_nonneg hrounded₀ (by linarith)
  refine Nat.floor_le_of_le ((r.error _ hquotient₀).trans ?_)
  calc r.round (r.round (length * 50000) * r.round (9 / 10)) / count * (1 + 1 / 2 ^ 53)
      ≤ length * (92 / 100) * (1 + 1 / 2 ^ 53) := mul_le_mul_of_nonneg_right hquotient (by positivity)
    _ = length * (92 / 100 * (1 + 1 / 2 ^ 53)) := by ring
    _ ≤ length * 1 := mul_le_mul_of_nonneg_left (by norm_num) hlength
    _ = length := mul_one _

theorem candidate_excerpt (h : excerptLength ≤ serialized.length) :
    Excerpt serialized (candidate serialized originalTokenCount excerptLength) := by
  refine ⟨List.take_prefix _ _, ?_, ?_⟩
  · rw [candidate, splitHeadAndTail]
    split
    · exact List.nil_suffix
    · exact List.drop_suffix _ _
  · rw [candidate, splitHeadAndTail]
    simp only [List.length_take]
    split
    · rw [List.length_nil]
      omega
    · rw [sliceFromEnd, List.length_drop]
      omega

theorem truncateFrom_spec (h : excerptLength ≤ serialized.length) :
    Excerpt serialized (truncateFrom r counter serialized originalTokenCount excerptLength) ∧
      let envelope := truncateFrom r counter serialized originalTokenCount excerptLength
      counter.count (serialize envelope.toJson) ≤ maxModelToolResultTokens ∨
        envelope.head = [] ∧ envelope.tail = [] := by
  induction excerptLength using Nat.strong_induction_on with
  | _ excerptLength ih =>
    rw [truncateFrom]
    split
    · next hstop =>
      refine ⟨candidate_excerpt h, hstop.imp_right ?_⟩
      rintro rfl
      exact ⟨rfl, rfl⟩
    · next hgo =>
      rw [not_or] at hgo
      exact ih _ (by omega) (by omega)

theorem guardResult_passed {historyOutput : Value} {output : ToolOutput} {storage : Storage} {kind : ToolResultKind}
    (h : (guardResult r historyOutput output counter storage kind).truncated = false ∧
      (guardResult r historyOutput output counter storage kind).offloaded = false) :
    guardResult r historyOutput output counter storage kind = ⟨historyOutput, output, false, false⟩ ∧
      counter.count (serialize historyOutput) ≤ maxModelToolResultTokens := by
  rw [guardResult] at h ⊢
  by_cases hsmall : isClearlyWithinTokenLimit (serialize historyOutput) = true
  · have hbytes : byteLength (serialize historyOutput) + smallPayloadOverheadBytes ≤ maxModelToolResultTokens :=
      of_decide_eq_true hsmall
    have hcount := counter.le_bytes (serialize historyOutput)
    rw [if_pos hsmall]
    exact ⟨rfl, by omega⟩
  · rw [if_neg hsmall] at h ⊢
    by_cases hfits : counter.count (serialize historyOutput) ≤ maxModelToolResultTokens
    · rw [if_pos hfits]
      exact ⟨rfl, hfits⟩
    · rw [if_neg hfits] at h
      split at h
      · exact Bool.noConfusion h.2
      · exact Bool.noConfusion h.1

/-- Truncation ends with parts of the text that do not overlap, in an envelope that fits unless nothing of the text is
left in it; and a result that is no content and passes unmodified fits. -/
theorem guard_fits (r : Rounding) (counter : TokenCounter) :
    (∀ serialized, maxModelToolResultTokens < counter.count serialized →
      let envelope := buildTruncationEnvelope r serialized (counter.count serialized) counter
      Excerpt serialized envelope ∧ (counter.count (serialize envelope.toJson) ≤ maxModelToolResultTokens ∨
        envelope.head = [] ∧ envelope.tail = [])) ∧
    ∀ historyOutput storage kind,
      let guarded := guardToolResultForModel r (.result historyOutput) counter storage kind
      guarded.truncated = false ∧ guarded.offloaded = false →
      guarded.historyOutput = historyOutput ∧ guarded.wireOutput = .result historyOutput ∧
        counter.count (serialize historyOutput) ≤ maxModelToolResultTokens := by
  constructor
  · intro serialized h
    have hstart : excerptFor r serialized.length (counter.count serialized) ≤ serialized.length := excerptFor_le h
    exact truncateFrom_spec hstart
  · intro historyOutput storage kind guarded hpassed
    have hguarded : guarded = guardResult r historyOutput (.result historyOutput) counter storage kind := rfl
    rw [hguarded] at hpassed ⊢
    obtain ⟨heq, hfits⟩ := guardResult_passed hpassed
    rw [heq]
    exact ⟨rfl, rfl, hfits⟩

end Lengths

/-- Quotients that need no rounding. -/
def Rounding.exact : Rounding where
  round x := x
  nonneg _ h := h
  error x h := le_mul_of_one_le_right h (by norm_num)

/-- Each byte is a token. -/
def TokenCounter.bytes : TokenCounter := ⟨byteLength, fun _ => le_refl _⟩

def longText (n : Nat) : CodeUnits := List.replicate n 0x61

theorem codePoints_longText (n : Nat) : Utf16.codePoints (longText n) = List.replicate n (.scalar 'a') := by
  induction n with
  | zero => rfl
  | succ n ih =>
    cases n with
    | zero => rfl
    | succ n => exact congrArg (Utf16.CodePoint.scalar 'a' :: ·) ih

theorem byteLength_longText (n : Nat) : byteLength (longText n) = n := by
  rw [byteLength, Utf16.chars, codePoints_longText, List.map_replicate, Utf8.encode, List.length_flatMap,
    List.map_replicate, List.sum_replicate]
  exact mul_one n

theorem guard_fits_long :
    let envelope := buildTruncationEnvelope .exact (longText 60000) (byteLength (longText 60000)) .bytes
    Excerpt (longText 60000) envelope ∧
      (byteLength (serialize envelope.toJson) ≤ maxModelToolResultTokens ∨ envelope.head = [] ∧ envelope.tail = []) := by
  refine (guard_fits .exact .bytes).1 (longText 60000) ?_
  show maxModelToolResultTokens < byteLength (longText 60000)
  rw [byteLength_longText]
  decide

end N8n.ToolResultGuard
