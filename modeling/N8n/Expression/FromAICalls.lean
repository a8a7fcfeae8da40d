import Mathlib.Algebra.Ring.Nat
import Mathlib.Data.List.Forall2
import N8n.Expression.LiteralCalls
import N8n.Lib.Substring

namespace N8n.FromAI

open N8n.Lib

inductive FromAIArgumentType where
  | string | number | boolean | json
  deriving DecidableEq

/-- The language's own readings of a text: `Number`, with nothing for not a number, and `JSON.parse`. -/
structure Host (Value : Type) where
  text : CodeUnits → Value
  boolean : Bool → Value
  number : CodeUnits → Option Value
  jsonParse : CodeUnits → Option Value
  text_injective : ∀ s t, text s = text t → s = t

structure FromAIArgument (Value : Type) where
  key : CodeUnits
  description : Option CodeUnits
  type : FromAIArgumentType
  defaultValue : Option Value

/-- The message of a `ParseError`. -/
abbrev ParseError := CodeUnits

variable {Value : Type}

def isFromAIArgumentType (type : CodeUnits) : Option FromAIArgumentType :=
  if type = ascii "string" then some .string
  else if type = ascii "number" then some .number
  else if type = ascii "boolean" then some .boolean
  else if type = ascii "json" then some .json
  else none

def parseDefaultValue (host : Host Value) (value : CodeUnits) (type : FromAIArgumentType) : Value :=
  let lowerValue := value.map lower
  if type = .string then host.text value
  else if type = .boolean ∧ (lowerValue = ascii "true" ∨ lowerValue = ascii "false") then
    host.boolean (lowerValue = ascii "true")
  else
    match type, host.number value with
    | .number, some n => n
    | _, _ => (host.jsonParse value).getD (host.text value)

/-- The arguments between the commas outside of quotes, from the quote that the scan is in, whether a backslash has just
been dropped, and the argument so far. -/
def splitArgs : Option UInt16 → Bool → CodeUnits → CodeUnits → List CodeUnits
  | _, _, currentArg, [] => if currentArg = [] then [] else [trim currentArg]
  | quoteChar, true, currentArg, char :: rest => splitArgs quoteChar false (currentArg ++ [char]) rest
  | quoteChar, false, currentArg, char :: rest =>
    if char = backslash then splitArgs quoteChar true currentArg rest
    else if isQuote char then
      let quoteChar := if quoteChar = none then some char else if quoteChar = some char then none else quoteChar
      splitArgs quoteChar false (currentArg ++ [char]) rest
    else if char = comma ∧ quoteChar = none then trim currentArg :: splitArgs none false [] rest
    else splitArgs quoteChar false (currentArg ++ [char]) rest


/-- The characters whose escapes are replaced, in this order. -/
def escapable : List UInt16 := [singleQuote, backtick, doubleQuote, backslash]

def unescape (arg : CodeUnits) : CodeUnits := escapable.foldl (fun arg c => replaceAll [backslash, c] [c] 0 arg) arg

def cleanArg (arg : CodeUnits) : CodeUnits :=
  let trimmed := trim arg
  if ∃ quote ∈ [singleQuote, backtick, doubleQuote], trimmed.head? = some quote ∧ trimmed.getLast? = some quote then
    unescape trimmed.tail.dropLast
  else trimmed

def argumentOf (host : Host Value) (cleanArgs : List CodeUnits) : Except ParseError (FromAIArgument Value) :=
  let rawType := cleanArgs[2]?.getD (ascii "string")
  match isFromAIArgumentType (rawType.map lower) with
  | none => .error (ascii "Invalid type: " ++ rawType)
  | some type => .ok ⟨cleanArgs[0]?.getD [], cleanArgs[1]?, type, cleanArgs[3]?.map (parseDefaultValue host · type)⟩

def parseArguments (host : Host Value) (argsString : CodeUnits) : Except ParseError (FromAIArgument Value) :=
  argumentOf host ((splitArgs none false [] argsString).map cleanArg)

/-- The text up to the parenthesis that closes the call, from the quote that the scan is in and the number of open
parentheses inside of the call. -/
def scanArgs : Option UInt16 → Nat → CodeUnits → Option CodeUnits
  | some quoteChar, depth, char :: next :: rest =>
    if char = backslash then (scanArgs (some quoteChar) depth rest).map (char :: next :: ·)
    else (scanArgs (if char = quoteChar then none else some quoteChar) depth (next :: rest)).map (char :: ·)
  | none, depth, char :: rest =>
    if isQuote char then (scanArgs (some char) depth rest).map (char :: ·)
    else if char = openParen then (scanArgs none (depth + 1) rest).map (char :: ·)
    else if char = closeParen then
      if depth = 0 then some [] else (scanArgs none (depth - 1) rest).map (char :: ·)
    else (scanArgs none depth rest).map (char :: ·)
  -- The text ends inside of the call.
  | some _, _, [_] => none
  | _, _, [] => none

/-- The text after a match of `/\$fromAI\s*\(\s*/i` that stands here. -/
def callStart (str : CodeUnits) : Option CodeUnits := (fromAIPattern str).map (·.dropWhile isSpace)

theorem callStart_length {str args : CodeUnits} (h : callStart str = some args) : args.length < str.length := by
  obtain ⟨text, htext, rfl⟩ := Option.map_eq_some_iff.mp h
  obtain ⟨name, gap, rfl, -, -⟩ := (fromAIPattern_iff _ _).mp htext
  have hlength := (List.dropWhile_suffix (l := text) isSpace).length_le
  simp only [List.length_append, List.length_cons]
  omega

/-- The texts after the matches that the search finds one after another. A match begins after the one before it ends,
which is inside of that one's call. -/
def callStarts (str : CodeUnits) : List CodeUnits :=
  match str with
  | [] => []
  | char :: rest =>
    match _ : callStart (char :: rest) with
    | none => callStarts rest
    | some args => args :: callStarts args
termination_by str.length
decreasing_by
  · simp
  · rename_i h
    exact callStart_length h

def parseCall (host : Host Value) (text : CodeUnits) : Except ParseError (FromAIArgument Value) :=
  match scanArgs none 0 text with
  | none => .error (ascii "Unbalanced parentheses while parsing $fromAI call: " ++ text)
  | some argsString =>
    match parseArguments host argsString with
    | .ok argument => .ok argument
    | .error message =>
      .error (ascii "Failed to parse $fromAI arguments: " ++ argsString ++ ascii ": Error: " ++ message)

def extractFromAICalls (host : Host Value) (str : CodeUnits) : Except ParseError (List (FromAIArgument Value)) :=
  (callStarts str).mapM (parseCall host)

inductive Denotes (quote : UInt16) : CodeUnits → CodeUnits → Prop
  | nil : Denotes quote [] []
  | escaped {body value : CodeUnits} {c : UInt16} : c ∈ escapable → Denotes quote body value →
      Denotes quote (backslash :: c :: body) (c :: value)
  | plain {body value : CodeUnits} {c : UInt16} : c ≠ backslash → c ≠ quote → Denotes quote body value →
      Denotes quote (c :: body) (c :: value)

structure Argument where
  before : CodeUnits
  quote : UInt16
  body : CodeUnits
  value : CodeUnits
  after : CodeUnits
  blank_before : Blank before
  blank_after : Blank after
  isQuote : isQuote quote = true
  denotes : Denotes quote body value

def Argument.text (argument : Argument) : CodeUnits :=
  argument.before ++ (argument.quote :: (argument.body ++ argument.quote :: argument.after))

def argumentsText : List Argument → CodeUnits
  | [] => []
  | [argument] => argument.text
  | argument :: arguments => argument.text ++ comma :: argumentsText arguments

structure Call where
  name : CodeUnits
  gap : CodeUnits
  lead : CodeUnits
  arguments : List Argument
  isName : name.map lower = ascii "$fromai"
  blank_gap : Blank gap
  blank_lead : Blank lead

def Call.text (call : Call) : CodeUnits :=
  call.name ++ (call.gap ++ openParen :: (call.lead ++ (argumentsText call.arguments ++ [closeParen])))

def Call.values (call : Call) : List CodeUnits := call.arguments.map (·.value)

/-- The marker of a call stands nowhere in the text. -/
def Unmarked (text : CodeUnits) : Prop := ∀ s, s <:+ text → fromAIPattern s = none

/-- Calls, each with the text in front of it, and the text after the last one. -/
structure CallText where
  calls : List (CodeUnits × Call)
  rest : CodeUnits
  unmarked : ∀ p ∈ calls, Unmarked p.1
  unmarked_rest : Unmarked rest

def callsText (calls : List (CodeUnits × Call)) (rest : CodeUnits) : CodeUnits :=
  calls.foldr (fun p text => p.1 ++ (p.2.text ++ text)) rest

def CallText.text (text : CallText) : CodeUnits := callsText text.calls text.rest

structure Call.Entry (host : Host Value) (call : Call) (entry : FromAIArgument Value) : Prop where
  key : entry.key = call.values[0]?.getD []
  description : entry.description = call.values[1]?
  type : isFromAIArgumentType ((call.values[2]?.getD (ascii "string")).map lower) = some entry.type
  defaultValue : entry.defaultValue = call.values[3]?.map (parseDefaultValue host · entry.type)

/-- The calls are found with their arguments, one entry for each in order. -/
def Recovers (host : Host Value) (text : CallText) : Prop :=
  ∃ entries, extractFromAICalls host text.text = .ok entries ∧
    List.Forall₂ (fun p entry => p.2.Entry host entry) text.calls entries

def Plain (value : CodeUnits) : Prop := ∀ c ∈ escapable, ¬ [backslash, c] <:+: value

variable {s text rest body value : CodeUnits} {c d quote : UInt16} {arguments : List Argument} {argument : Argument}

theorem isLetter_lower (h : isLetter (lower c) = true) : isLetter c = true := by
  rw [lower] at h
  split_ifs at h with hc
  · simp only [Bool.and_eq_true, decide_eq_true_eq] at hc
    simp [isLetter, hc.1, hc.2]
  · exact h

theorem lower_eq {u : UInt16} (hu : isLetter u = false) (h : lower c = u) : c = u := by
  rw [lower] at h
  split_ifs at h with hc
  · exfalso
    simp only [Bool.and_eq_true, decide_eq_true_eq, UInt16.le_iff_toNat_le] at hc
    have hletter : isLetter u = true := by
      subst h
      simp only [isLetter, Bool.or_eq_true, Bool.and_eq_true, decide_eq_true_eq, UInt16.le_iff_toNat_le,
        UInt16.toNat_add]
      refine .inr ⟨?_, ?_⟩ <;> simp at hc ⊢ <;> omega
    exact Bool.noConfusion (hletter.symm.trans hu)
  · exact h

theorem fromai_cons : ascii "$fromai" = dollar :: ascii "fromai" := rfl

theorem fromAIPattern_cons (hc : c ≠ dollar) : fromAIPattern (c :: rest) = none := by
  rw [Option.eq_none_iff_forall_ne_some]
  intro t ht
  obtain ⟨name, gap, heq, hname, -⟩ := (fromAIPattern_iff _ _).mp ht
  cases name with
  | nil => cases hname
  | cons u name =>
    obtain ⟨rfl, -⟩ := List.cons.inj heq
    rw [List.map_cons, fromai_cons] at hname
    exact hc (lower_eq (by decide) (List.cons.inj hname).1)

structure Ends (d : UInt16) : Prop where
  letter : isLetter d = false
  space : isSpace d = false
  open_paren : d ≠ openParen

theorem fromAIPattern_append (hs : s ≠ []) (hd : Ends d) (rest : CodeUnits) :
    fromAIPattern (s ++ d :: rest) = (fromAIPattern s).map (· ++ d :: rest) := by
  cases h : fromAIPattern s with
  | some t =>
    obtain ⟨name, gap, rfl, hname, hgap⟩ := (fromAIPattern_iff _ _).mp h
    refine (fromAIPattern_iff _ _).mpr ⟨name, gap, ?_, hname, hgap⟩
    simp only [List.append_assoc, List.cons_append]
  | none =>
    rw [Option.map_none, Option.eq_none_iff_forall_ne_some]
    intro t ht
    obtain ⟨name, gap, heq, hname, hgap⟩ := (fromAIPattern_iff _ _).mp ht
    have hblank : ∀ {s rest t : CodeUnits}, d :: rest = s ++ openParen :: t → Blank s → False := by
      intro s rest t heq hs
      cases s with
      | nil => exact hd.open_paren (List.cons.inj heq).1
      | cons u s =>
        obtain ⟨rfl, -⟩ := List.cons.inj heq
        exact Bool.noConfusion ((hs _ List.mem_cons_self).symm.trans hd.space)
    rcases List.append_eq_append_iff.mp heq with ⟨after, rfl, hafter⟩ | ⟨after, rfl, hafter⟩
    · cases after with
      | nil => exact hblank hafter hgap
      | cons u after =>
        obtain ⟨rfl, -⟩ := List.cons.inj hafter
        cases s with
        | nil => exact hs rfl
        | cons u s =>
          -- The name has no letter like it after the dollar sign.
          rw [List.cons_append, List.map_cons, fromai_cons] at hname
          have hmem : lower d ∈ ascii "fromai" := by
            rw [← (List.cons.inj hname).2]
            exact List.mem_map_of_mem (List.mem_append_right _ List.mem_cons_self)
          have hletters : ∀ u ∈ ascii "fromai", isLetter u = true := by simp [ascii, isLetter]
          exact Bool.noConfusion ((isLetter_lower (hletters _ hmem)).symm.trans hd.letter)
    · rcases List.append_eq_append_iff.mp hafter with ⟨rest', rfl, hrest⟩ | ⟨rest', rfl, hrest⟩
      · cases rest' with
        | nil => exact hd.open_paren (List.cons.inj hrest).1.symm
        | cons u rest' =>
          obtain ⟨rfl, -⟩ := List.cons.inj hrest
          have hsome := (fromAIPattern_iff (name ++ (gap ++ openParen :: rest')) rest').mpr
            ⟨name, gap, rfl, hname, hgap⟩
          rw [h] at hsome
          cases hsome
      · exact hblank hrest fun u hu => hgap u (List.mem_append_right _ hu)

theorem dropWhile_isSpace (hd : isSpace d = false) (s rest : CodeUnits) :
    (s ++ d :: rest).dropWhile isSpace = s.dropWhile isSpace ++ d :: rest := by
  induction s with
  | nil => exact List.dropWhile_cons_of_neg (by simp [hd])
  | cons c s ih =>
    rw [List.cons_append, List.dropWhile_cons, List.dropWhile_cons, ih]
    split_ifs <;> rfl

theorem callStart_append (hs : s ≠ []) (hd : Ends d) (rest : CodeUnits) :
    callStart (s ++ d :: rest) = (callStart s).map (· ++ d :: rest) := by
  rw [callStart, callStart, fromAIPattern_append hs hd, Option.map_map, Option.map_map]
  congr 1
  funext t
  exact dropWhile_isSpace hd.space t rest

theorem callStart_eq_none : callStart s = none ↔ fromAIPattern s = none := Option.map_eq_none_iff

theorem callStarts_none (h : callStart (c :: rest) = none) : callStarts (c :: rest) = callStarts rest := by
  rw [callStarts]
  split
  · rfl
  · rename_i hsome
    rw [h] at hsome
    cases hsome

theorem callStarts_some {args : CodeUnits} (h : callStart (c :: rest) = some args) :
    callStarts (c :: rest) = args :: callStarts args := by
  rw [callStarts]
  split
  · rename_i hnone
    rw [h] at hnone
    cases hnone
  · rename_i hsome
    rw [h] at hsome
    cases hsome
    rfl

theorem callStarts_cons (hc : c ≠ dollar) : callStarts (c :: rest) = callStarts rest :=
  callStarts_none (callStart_eq_none.mpr (fromAIPattern_cons hc))

theorem callStarts_append (hd : Ends d) (s rest : CodeUnits) :
    callStarts (s ++ d :: rest) = (callStarts s).map (· ++ d :: rest) ++ callStarts (d :: rest) := by
  induction s using callStarts.induct with
  | case1 => rw [callStarts]; rfl
  | case2 c s h ih =>
    have happend := callStart_append (List.cons_ne_nil c s) hd rest
    rw [h] at happend
    rw [callStarts_none h, ← ih]
    exact callStarts_none happend
  | case3 c s args h ih =>
    have happend := callStart_append (List.cons_ne_nil c s) hd rest
    rw [h] at happend
    refine (callStarts_some happend).trans ?_
    rw [ih, callStarts_some h]
    rfl

theorem callStarts_eq_nil : callStarts s = [] ↔ Unmarked s := by
  induction s using callStarts.induct with
  | case1 =>
    rw [callStarts]
    refine ⟨fun _ t ht => ?_, fun _ => rfl⟩
    rw [List.suffix_nil.mp ht]
    rfl
  | case2 c s h ih =>
    rw [callStarts_none h, ih]
    constructor
    · intro hs t ht
      rcases List.suffix_cons_iff.mp ht with rfl | ht
      · exact callStart_eq_none.mp h
      · exact hs t ht
    · exact fun hs t ht => hs t (ht.trans (List.suffix_cons c s))
  | case3 c s args h ih =>
    rw [callStarts_some h]
    refine ⟨fun hnil => (List.cons_ne_nil _ _ hnil).elim, fun hs => ?_⟩
    have hnone := callStart_eq_none.mpr (hs (c :: s) (List.suffix_refl _))
    rw [h] at hnone
    cases hnone

theorem callStarts_unmarked (hs : Unmarked s) (hd : Ends d) (rest : CodeUnits) :
    callStarts (s ++ d :: rest) = callStarts (d :: rest) := by
  rw [callStarts_append hd, callStarts_eq_nil.mpr hs]
  rfl

theorem callStarts_blank (hs : Blank s) : callStarts (s ++ rest) = callStarts rest := by
  induction s with
  | nil => rfl
  | cons c s ih =>
    have hc : c ≠ dollar := by
      rintro rfl
      exact Bool.noConfusion (hs _ List.mem_cons_self)
    rw [List.cons_append, callStarts_cons hc]
    exact ih fun d hd => hs d (List.mem_cons_of_mem _ hd)

theorem ends_quote (hq : isQuote quote = true) : Ends quote := by
  simp only [isQuote, List.mem_cons, List.not_mem_nil, or_false, decide_eq_true_eq] at hq
  rcases hq with rfl | rfl | rfl <;> exact ⟨by decide, by decide, by decide⟩

theorem quote_ne_dollar (hq : isQuote quote = true) : quote ≠ dollar := by
  rintro rfl
  exact Bool.noConfusion hq

theorem callStarts_argument (argument : Argument) (rest : CodeUnits) :
    callStarts (argument.text ++ rest) =
      (callStarts argument.body).map (· ++ argument.quote :: (argument.after ++ rest)) ++ callStarts rest := by
  have hquote := quote_ne_dollar argument.isQuote
  simp only [Argument.text, List.append_assoc, List.cons_append]
  rw [callStarts_blank argument.blank_before, callStarts_cons hquote, callStarts_append (ends_quote argument.isQuote),
    callStarts_cons hquote, callStarts_blank argument.blank_after]

theorem length_callStarts_arguments (arguments : List Argument) (rest : CodeUnits) :
    (callStarts (argumentsText arguments ++ closeParen :: rest)).length =
      (arguments.map fun a => (callStarts a.body).length).sum + (callStarts rest).length := by
  have hclose : callStarts (closeParen :: rest) = callStarts rest := callStarts_cons (by decide)
  induction arguments using argumentsText.induct with
  | case1 => rw [argumentsText, List.nil_append, hclose, List.map_nil, List.sum_nil, Nat.zero_add]
  | case2 argument =>
    rw [argumentsText, callStarts_argument, List.length_append, List.length_map, hclose, List.map_singleton,
      List.sum_singleton]
  | case3 argument arguments hne ih =>
    rw [argumentsText, List.append_assoc, callStarts_argument, List.length_append, List.length_map, List.cons_append,
      callStarts_cons (by decide), ih, List.map_cons, List.sum_cons, Nat.add_assoc]
    exact hne

theorem callStarts_arguments (h : ∀ a ∈ arguments, Unmarked a.body) (rest : CodeUnits) :
    callStarts (argumentsText arguments ++ closeParen :: rest) = callStarts rest := by
  have hclose : callStarts (closeParen :: rest) = callStarts rest := callStarts_cons (by decide)
  induction arguments using argumentsText.induct with
  | case1 => exact hclose
  | case2 argument =>
    rw [argumentsText, callStarts_argument, callStarts_eq_nil.mpr (h argument List.mem_cons_self), hclose]
    rfl
  | case3 argument arguments hne ih =>
    rw [argumentsText, List.append_assoc, callStarts_argument,
      callStarts_eq_nil.mpr (h argument List.mem_cons_self), List.map_nil, List.nil_append, List.cons_append,
      callStarts_cons (by decide), ih fun a ha => h a (List.mem_cons_of_mem _ ha)]
    exact hne

def opened : List Argument → List Argument
  | [] => []
  | argument :: arguments =>
    { argument with before := [], blank_before := fun _ h => (List.not_mem_nil h).elim } :: arguments

theorem opened_values (arguments : List Argument) : (opened arguments).map (·.value) = arguments.map (·.value) := by
  cases arguments <;> rfl

theorem argumentsText_cons (argument : Argument) (arguments : List Argument) :
    argumentsText (argument :: arguments) =
      argument.text ++ if arguments = [] then [] else comma :: argumentsText arguments := by
  cases arguments with
  | nil => exact (List.append_nil _).symm
  | cons next arguments => rfl

theorem dropWhile_arguments (hlead : Blank s) (arguments : List Argument) (rest : CodeUnits) :
    (s ++ (argumentsText arguments ++ closeParen :: rest)).dropWhile isSpace =
      argumentsText (opened arguments) ++ closeParen :: rest := by
  rw [List.dropWhile_append_of_pos hlead]
  cases arguments with
  | nil => exact List.dropWhile_cons_of_neg (by decide)
  | cons argument arguments =>
    have hquote : isSpace argument.quote = false := (ends_quote argument.isQuote).space
    rw [opened, argumentsText_cons, argumentsText_cons]
    simp only [Argument.text, List.append_assoc, List.cons_append, List.nil_append]
    rw [List.dropWhile_append_of_pos argument.blank_before, List.dropWhile_cons_of_neg (by simp [hquote])]

theorem callStarts_call (call : Call) (rest : CodeUnits) :
    callStarts (call.text ++ rest) = (argumentsText (opened call.arguments) ++ closeParen :: rest) ::
      callStarts (argumentsText (opened call.arguments) ++ closeParen :: rest) := by
  have htext : call.text ++ rest = call.name ++ (call.gap ++ openParen ::
      (call.lead ++ (argumentsText call.arguments ++ closeParen :: rest))) := by
    simp [Call.text]
  have hpattern := (fromAIPattern_iff (call.text ++ rest) _).mpr
    ⟨call.name, call.gap, htext, call.isName, call.blank_gap⟩
  have hstart : callStart (call.text ++ rest) = some (argumentsText (opened call.arguments) ++ closeParen :: rest) := by
    rw [callStart, hpattern, Option.map_some, dropWhile_arguments call.blank_lead]
  cases hcons : call.text ++ rest with
  | nil =>
    rw [hcons] at hstart
    cases hstart
  | cons c text =>
    rw [hcons] at hstart
    exact callStarts_some hstart

theorem quote_ne_backslash (hq : isQuote quote = true) : quote ≠ backslash := by
  rintro rfl
  exact Bool.noConfusion hq

structure Bare (c : UInt16) : Prop where
  quote : isQuote c = false
  backslash : c ≠ backslash
  open_paren : c ≠ openParen
  close_paren : c ≠ closeParen

theorem bare_of_isSpace (hc : N8n.Lib.isSpace c = true) : Bare c ∧ c ≠ comma := by
  refine ⟨⟨(Bool.not_eq_true _).mp fun hq => ?_, ?_, ?_, ?_⟩, ?_⟩
  · exact Bool.noConfusion (hc.symm.trans (ends_quote hq).space)
  all_goals
    rintro rfl
    exact Bool.noConfusion hc

theorem scanArgs_bare (depth : Nat) (hc : Bare c) (rest : CodeUnits) :
    scanArgs none depth (c :: rest) = (scanArgs none depth rest).map (c :: ·) := by
  rw [scanArgs, if_neg (by simp [hc.quote]), if_neg hc.open_paren, if_neg hc.close_paren]

theorem scanArgs_blank (depth : Nat) (hs : Blank s) (rest : CodeUnits) :
    scanArgs none depth (s ++ rest) = (scanArgs none depth rest).map (s ++ ·) := by
  induction s with
  | nil => exact (Option.map_id' (x := scanArgs none depth rest)).symm
  | cons c s ih =>
    rw [List.cons_append, scanArgs_bare depth (bare_of_isSpace (hs c List.mem_cons_self)).1,
      ih fun d hd => hs d (List.mem_cons_of_mem _ hd), Option.map_map]
    rfl

theorem scanArgs_body (depth : Nat) (hq : isQuote quote = true) (h : Denotes quote body value)
    (rest : CodeUnits) :
    scanArgs (some quote) depth (body ++ quote :: rest) =
      (scanArgs none depth rest).map (fun s => body ++ quote :: s) := by
  induction h with
  | nil =>
    cases rest with
    | nil => rfl
    | cons c rest => rw [List.nil_append, scanArgs, if_neg (quote_ne_backslash hq), if_pos rfl]; rfl
  | escaped _ _ ih =>
    rw [List.cons_append, List.cons_append, scanArgs, if_pos rfl, ih, Option.map_map]
    rfl
  | @plain body value c hb hne _ ih =>
    obtain ⟨next, after, hcons⟩ : ∃ next after, body ++ quote :: rest = next :: after := by
      cases body <;> exact ⟨_, _, rfl⟩
    rw [List.cons_append, hcons, scanArgs, if_neg hb, if_neg hne, ← hcons, ih, Option.map_map]
    rfl

theorem scanArgs_argument (depth : Nat) (argument : Argument) (rest : CodeUnits) :
    scanArgs none depth (argument.text ++ rest) = (scanArgs none depth rest).map (argument.text ++ ·) := by
  simp only [Argument.text, List.append_assoc, List.cons_append]
  rw [scanArgs_blank depth argument.blank_before, scanArgs, if_pos argument.isQuote,
    scanArgs_body depth argument.isQuote argument.denotes, scanArgs_blank depth argument.blank_after]
  simp only [Option.map_map]
  rfl

theorem scanArgs_arguments (arguments : List Argument) (rest : CodeUnits) :
    scanArgs none 0 (argumentsText arguments ++ closeParen :: rest) = some (argumentsText arguments) := by
  have hclose : scanArgs none 0 (closeParen :: rest) = some [] := rfl
  have hcomma : Bare comma := ⟨rfl, by decide, by decide, by decide⟩
  induction arguments using argumentsText.induct with
  | case1 => exact hclose
  | case2 argument =>
    rw [argumentsText, scanArgs_argument, hclose, Option.map_some, List.append_nil]
  | case3 argument arguments hne ih =>
    rw [argumentsText, List.append_assoc, scanArgs_argument, List.cons_append, scanArgs_bare 0 hcomma, ih]
    · rfl
    · exact hne

theorem splitArgs_bare (current : CodeUnits) (hc : Bare c) (hcomma : c ≠ comma) (rest : CodeUnits) :
    splitArgs none false current (c :: rest) = splitArgs none false (current ++ [c]) rest := by
  rw [splitArgs, if_neg hc.backslash, if_neg (by simp [hc.quote]), if_neg fun h => hcomma h.1]

theorem splitArgs_blank (current : CodeUnits) (hs : Blank s) (rest : CodeUnits) :
    splitArgs none false current (s ++ rest) = splitArgs none false (current ++ s) rest := by
  induction s generalizing current with
  | nil => rw [List.append_nil, List.nil_append]
  | cons c s ih =>
    obtain ⟨hc, hcomma⟩ := bare_of_isSpace (hs c List.mem_cons_self)
    rw [List.cons_append, splitArgs_bare current hc hcomma, ih _ fun d hd => hs d (List.mem_cons_of_mem _ hd),
      List.append_assoc, List.singleton_append]

theorem splitArgs_body (current : CodeUnits) (hq : isQuote quote = true) (h : Denotes quote body value)
    (rest : CodeUnits) :
    splitArgs (some quote) false current (body ++ quote :: rest) =
      splitArgs none false (current ++ (value ++ [quote])) rest := by
  induction h generalizing current with
  | nil =>
    rw [List.nil_append, splitArgs, if_neg (quote_ne_backslash hq), if_pos hq, if_neg (Option.some_ne_none _),
      if_pos rfl]
    rfl
  | @escaped body value c _ _ ih =>
    rw [List.cons_append, List.cons_append, splitArgs, if_pos rfl, splitArgs, ih, List.append_assoc]
    rfl
  | @plain body value c hb hne _ ih =>
    rw [List.cons_append, splitArgs, if_neg hb]
    have hrest := ih (current ++ [c])
    rw [List.append_assoc] at hrest
    by_cases hc : isQuote c = true
    · have hsome : (some quote : Option UInt16) ≠ some c := fun heq => hne (Option.some.inj heq).symm
      rw [if_pos hc, if_neg (Option.some_ne_none _), if_neg hsome]
      exact hrest
    · rw [if_neg hc, if_neg fun h => Option.some_ne_none _ h.2]
      exact hrest

def Argument.trimmed (argument : Argument) : CodeUnits := argument.quote :: (argument.value ++ [argument.quote])

theorem trim_trimmed (argument : Argument) :
    trim (argument.before ++ (argument.trimmed ++ argument.after)) = argument.trimmed := by
  have hquote : ¬ N8n.Lib.isSpace argument.quote = true := by simp [(ends_quote argument.isQuote).space]
  have hdrop : (argument.before ++ (argument.trimmed ++ argument.after)).dropWhile N8n.Lib.isSpace =
      argument.trimmed ++ argument.after := by
    rw [List.dropWhile_append_of_pos argument.blank_before, Argument.trimmed, List.cons_append,
      List.dropWhile_cons_of_neg hquote]
  have hend : argument.trimmed ++ argument.after =
      (argument.quote :: argument.value) ++ argument.quote :: argument.after := by
    simp [Argument.trimmed]
  rw [trim, hdrop, hend, List.rdropWhile, List.reverse_append, List.reverse_cons, List.append_assoc,
    List.dropWhile_append_of_pos fun c hc => argument.blank_after c (List.mem_reverse.mp hc), List.singleton_append,
    List.dropWhile_cons_of_neg hquote]
  simp [Argument.trimmed]

theorem splitArgs_argument (argument : Argument) (rest : CodeUnits) :
    splitArgs none false [] (argument.text ++ rest) =
      splitArgs none false (argument.before ++ (argument.trimmed ++ argument.after)) rest := by
  simp only [Argument.text, List.append_assoc, List.cons_append]
  rw [splitArgs_blank [] argument.blank_before, splitArgs, if_neg (quote_ne_backslash argument.isQuote),
    if_pos argument.isQuote, if_pos rfl]
  dsimp only
  rw [splitArgs_body _ argument.isQuote argument.denotes, splitArgs_blank _ argument.blank_after]
  simp [Argument.trimmed]

theorem trimmed_ne_nil (argument : Argument) :
    argument.before ++ (argument.trimmed ++ argument.after) ≠ [] := by
  simp [Argument.trimmed]

theorem splitArgs_arguments (arguments : List Argument) :
    splitArgs none false [] (argumentsText arguments) = arguments.map Argument.trimmed := by
  induction arguments using argumentsText.induct with
  | case1 => rfl
  | case2 argument =>
    have htext := splitArgs_argument argument []
    rw [List.append_nil, splitArgs, if_neg (trimmed_ne_nil argument), trim_trimmed] at htext
    exact htext
  | case3 argument arguments hne ih =>
    rw [argumentsText, splitArgs_argument, splitArgs, if_neg (by decide), if_neg (by decide), if_pos ⟨rfl, rfl⟩,
      trim_trimmed, ih]
    · rfl
    · exact hne

theorem cleanArg_trimmed (argument : Argument) : cleanArg argument.trimmed = unescape argument.value := by
  have htrim : trim argument.trimmed = argument.trimmed := by
    have h := trim_trimmed { argument with
      before := [], after := [], blank_before := (fun _ h => nomatch h), blank_after := (fun _ h => nomatch h) }
    simpa [Argument.trimmed] using h
  have hquote : argument.quote ∈ [singleQuote, backtick, doubleQuote] := by
    have hq := argument.isQuote
    simp only [isQuote, List.mem_cons, List.not_mem_nil, or_false, decide_eq_true_eq] at hq ⊢
    rcases hq with h | h | h
    · exact .inl h
    · exact .inr (.inr h)
    · exact .inr (.inl h)
  have hlast : argument.trimmed.getLast? = some argument.quote := by
    rw [Argument.trimmed, ← List.cons_append, List.getLast?_append_of_ne_nil _ (List.cons_ne_nil _ _)]
    rfl
  rw [cleanArg, htrim, if_pos ⟨argument.quote, hquote, rfl, hlast⟩, Argument.trimmed, List.tail_cons,
    List.dropLast_concat]

theorem parseCall_eq (host : Host Value) (arguments : List Argument) (rest : CodeUnits) (entry : FromAIArgument Value) :
    parseCall host (argumentsText arguments ++ closeParen :: rest) = .ok entry ↔
      argumentOf host (arguments.map fun a => unescape a.value) = .ok entry := by
  have hclean : (arguments.map Argument.trimmed).map cleanArg = arguments.map fun a => unescape a.value := by
    rw [List.map_map]
    exact List.map_congr_left fun a _ => cleanArg_trimmed a
  rw [parseCall, scanArgs_arguments]
  dsimp only
  rw [parseArguments, splitArgs_arguments, hclean]
  split
  · rename_i h
    rw [h]
  · rename_i h
    rw [h]
    exact ⟨(fun h => nomatch h), (fun h => nomatch h)⟩

theorem replace_cases (c : UInt16) (s : CodeUnits) :
    (¬ [backslash, c] <:+: s ∧ replaceAll [backslash, c] [c] 0 s = s) ∨
      ([backslash, c] <:+: s ∧ (replaceAll [backslash, c] [c] 0 s).length < s.length) := by
  by_cases h : [backslash, c] <:+: s
  · obtain ⟨k, hk, hzero⟩ := length_replaceAll [c] (List.cons_ne_nil backslash [c]) s
    have hpos : k ≠ 0 := fun hk => hzero hk h
    simp only [List.length_cons, List.length_nil] at hk
    exact .inr ⟨h, by omega⟩
  · exact .inl ⟨h, replaceAll_absent [c] h⟩

theorem replacements_cases (cs : List UInt16) (s : CodeUnits) :
    ((∀ c ∈ cs, ¬ [backslash, c] <:+: s) ∧ cs.foldl (fun arg c => replaceAll [backslash, c] [c] 0 arg) s = s) ∨
      ((∃ c ∈ cs, [backslash, c] <:+: s) ∧
        (cs.foldl (fun arg c => replaceAll [backslash, c] [c] 0 arg) s).length < s.length) := by
  induction cs generalizing s with
  | nil => exact .inl ⟨(fun _ h => nomatch h), rfl⟩
  | cons c cs ih =>
    simp only [List.foldl_cons, List.mem_cons, forall_eq_or_imp, exists_eq_or_imp]
    rcases replace_cases c s with ⟨habsent, hsame⟩ | ⟨hfound, hshorter⟩
    · rw [hsame]
      exact (ih s).imp (fun ⟨hrest, heq⟩ => ⟨⟨habsent, hrest⟩, heq⟩) fun ⟨hrest, hlt⟩ => ⟨.inr hrest, hlt⟩
    · refine .inr ⟨.inl hfound, ?_⟩
      rcases ih (replaceAll [backslash, c] [c] 0 s) with ⟨-, hsame⟩ | ⟨-, hrest⟩
      · rw [hsame]
        exact hshorter
      · exact hrest.trans hshorter

theorem unescape_cases (value : CodeUnits) : (Plain value ∧ unescape value = value) ∨
    (∃ c ∈ escapable, [backslash, c] <:+: value) ∧ (unescape value).length < value.length :=
  replacements_cases escapable value

theorem unescape_eq_iff : unescape value = value ↔ Plain value := by
  rcases unescape_cases value with ⟨hplain, hsame⟩ | ⟨⟨c, hc, hfound⟩, hshorter⟩
  · exact ⟨fun _ => hplain, fun _ => hsame⟩
  · refine ⟨fun h => ?_, fun h => absurd hfound (h c hc)⟩
    rw [h] at hshorter
    exact absurd hshorter (lt_irrefl _)

theorem escapable_replaceAll (hd : d ∈ escapable) (h : ∃ c ∈ s, c ∈ escapable) :
    ∃ c ∈ replaceAll [backslash, d] [d] 0 s, c ∈ escapable := by
  induction s using pattern_cases (List.cons_ne_nil backslash [d]) with
  | hnil => exact h
  | hat rest _ =>
    rw [replaceAll_at _ (List.cons_ne_nil _ _)]
    exact ⟨d, List.mem_cons_self, hd⟩
  | hpast c rest hp ih =>
    rw [replaceAll_past _ hp]
    obtain ⟨u, hu, hescapable⟩ := h
    rcases List.mem_cons.mp hu with rfl | hu
    · exact ⟨u, List.mem_cons_self, hescapable⟩
    · obtain ⟨v, hv, hv'⟩ := ih ⟨u, hu, hescapable⟩
      exact ⟨v, List.mem_cons_of_mem _ hv, hv'⟩

theorem escapable_unescape (h : ∃ c ∈ value, c ∈ escapable) : ∃ c ∈ unescape value, c ∈ escapable := by
  have hfold : ∀ cs ⊆ escapable, ∀ value : CodeUnits, (∃ c ∈ value, c ∈ escapable) →
      ∃ c ∈ cs.foldl (fun arg c => replaceAll [backslash, c] [c] 0 arg) value, c ∈ escapable := by
    intro cs
    induction cs with
    | nil => exact fun _ _ h => h
    | cons c cs ih =>
      intro hcs value h
      exact ih (fun d hd => hcs (List.mem_cons_of_mem _ hd)) _ (escapable_replaceAll (hcs List.mem_cons_self) h)
  exact hfold escapable (List.Subset.refl _) value h

theorem type_escapable (h : ∃ c ∈ value, c ∈ escapable) : isFromAIArgumentType (value.map lower) = none := by
  obtain ⟨c, hc, hescapable⟩ := h
  have hlower : lower c = c := by
    simp only [escapable, List.mem_cons, List.not_mem_nil, or_false] at hescapable
    rcases hescapable with rfl | rfl | rfl | rfl <;> rfl
  have hmem : c ∈ value.map lower := List.mem_map.mpr ⟨c, hc, hlower⟩
  have hwords : ∀ word ∈ ["string", "number", "boolean", "json"], ∀ u ∈ ascii word, u ∉ escapable := by
    simp [ascii, escapable, singleQuote, backtick, doubleQuote, backslash]
  rw [isFromAIArgumentType, if_neg, if_neg, if_neg, if_neg] <;>
    exact fun heq => hwords _ (by simp) c (heq ▸ hmem) hescapable

theorem type_unescape (value : CodeUnits) :
    isFromAIArgumentType ((unescape value).map lower) = isFromAIArgumentType (value.map lower) := by
  rcases unescape_cases value with ⟨-, hsame⟩ | ⟨⟨c, hc, hfound⟩, -⟩
  · rw [hsame]
  · have hescapable : ∃ c ∈ value, c ∈ escapable :=
      ⟨c, hfound.subset (List.mem_cons_of_mem _ List.mem_cons_self), hc⟩
    rw [type_escapable hescapable, type_escapable (escapable_unescape hescapable)]

structure Call.Kept (host : Host Value) (call : Call) (type : FromAIArgumentType) : Prop where
  isType : isFromAIArgumentType ((call.values[2]?.getD (ascii "string")).map lower) = some type
  key : ∀ value ∈ call.values[0]?, Plain value
  description : ∀ value ∈ call.values[1]?, Plain value
  defaultValue : ∀ value ∈ call.values[3]?, Plain value ∨
    type ≠ .string ∧ parseDefaultValue host (unescape value) type = parseDefaultValue host value type

theorem parseDefaultValue_string (host : Host Value) (value : CodeUnits) :
    parseDefaultValue host value .string = host.text value := rfl

theorem argumentOf_ok {host : Host Value} {values : List CodeUnits} {entry : FromAIArgument Value} :
    argumentOf host values = .ok entry ↔
      isFromAIArgumentType ((values[2]?.getD (ascii "string")).map lower) = some entry.type ∧
        entry.key = values[0]?.getD [] ∧ entry.description = values[1]? ∧
        entry.defaultValue = values[3]?.map (parseDefaultValue host · entry.type) := by
  rw [argumentOf]
  split
  · rename_i h
    rw [h]
    exact ⟨(fun h => nomatch h), fun h => nomatch h.1⟩
  · rename_i type h
    rw [h]
    constructor
    · intro h
      cases h
      exact ⟨rfl, rfl, rfl, rfl⟩
    · rintro ⟨htype, hkey, hdescription, hdefault⟩
      obtain ⟨key, description, type', defaultValue⟩ := entry
      dsimp only at htype hkey hdescription hdefault
      cases htype
      rw [hkey, hdescription, hdefault]

theorem entry_iff (host : Host Value) (call : Call) :
    (∃ entry, argumentOf host (call.values.map unescape) = .ok entry ∧ call.Entry host entry) ↔
      ∃ type, call.Kept host type := by
  have htype : isFromAIArgumentType (((call.values[2]?.map unescape).getD (ascii "string")).map lower) =
      isFromAIArgumentType ((call.values[2]?.getD (ascii "string")).map lower) := by
    cases call.values[2]? with
    | none => rfl
    | some value => exact type_unescape value
  simp only [argumentOf_ok, List.getElem?_map, htype]
  constructor
  · rintro ⟨entry, ⟨htype, hkey, hdescription, hdefault⟩, hentry⟩
    refine ⟨entry.type, htype, ?_, ?_, ?_⟩
    · intro value hvalue
      have heq := hkey.symm.trans hentry.key
      rw [Option.mem_def.mp hvalue] at heq
      exact unescape_eq_iff.mp heq
    · intro value hvalue
      have heq := hdescription.symm.trans hentry.description
      rw [Option.mem_def.mp hvalue] at heq
      exact unescape_eq_iff.mp (Option.some.inj heq)
    · intro value hvalue
      have heq := hdefault.symm.trans hentry.defaultValue
      rw [Option.mem_def.mp hvalue] at heq
      have hparsed : parseDefaultValue host (unescape value) entry.type = parseDefaultValue host value entry.type :=
        Option.some.inj heq
      by_cases hstring : entry.type = .string
      · rw [hstring, parseDefaultValue_string, parseDefaultValue_string] at hparsed
        exact .inl (unescape_eq_iff.mp (host.text_injective _ _ hparsed))
      · exact .inr ⟨hstring, hparsed⟩
  · rintro ⟨type, hkept⟩
    refine ⟨⟨call.values[0]?.getD [], call.values[1]?, type, call.values[3]?.map (parseDefaultValue host · type)⟩,
      ⟨hkept.isType, ?_, ?_, ?_⟩, ⟨rfl, rfl, hkept.isType, rfl⟩⟩
    · have hkey := hkept.key
      cases hvalue : call.values[0]? with
      | none => rfl
      | some value => exact (unescape_eq_iff.mpr (hkey value hvalue)).symm
    · have hdescription := hkept.description
      cases hvalue : call.values[1]? with
      | none => rfl
      | some value => exact congrArg some (unescape_eq_iff.mpr (hdescription value hvalue)).symm
    · have hdefault := hkept.defaultValue
      cases hvalue : call.values[3]? with
      | none => rfl
      | some value =>
        refine congrArg some ?_
        rcases hdefault value hvalue with hplain | ⟨-, hparsed⟩
        · exact congrArg (parseDefaultValue host · type) (unescape_eq_iff.mpr hplain).symm
        · exact hparsed.symm

theorem mapM_ok_iff {α β ε : Type} {f : α → Except ε β} {l : List α} {bs : List β} :
    l.mapM f = .ok bs ↔ List.Forall₂ (fun a b => f a = .ok b) l bs := by
  induction l generalizing bs with
  | nil =>
    rw [List.mapM_nil, List.forall₂_nil_left_iff]
    exact ⟨fun h => (Except.ok.inj h).symm, fun h => congrArg Except.ok h.symm⟩
  | cons a l ih =>
    rw [List.mapM_cons, List.forall₂_cons_left_iff]
    cases ha : f a with
    | error e => exact ⟨(fun h => nomatch h), fun ⟨_, _, h, _⟩ => nomatch h⟩
    | ok b =>
      cases hl : l.mapM f with
      | error e =>
        refine ⟨(fun h => nomatch h), fun ⟨_, rest, _, h, _⟩ => ?_⟩
        rw [hl] at ih
        exact nomatch ih.mpr h
      | ok rest =>
        rw [hl] at ih
        constructor
        · intro h
          cases h
          exact ⟨b, rest, rfl, ih.mp rfl, rfl⟩
        · rintro ⟨b', rest', hb, hrest, rfl⟩
          cases hb
          obtain rfl := Except.ok.inj (ih.mpr hrest)
          rfl

theorem callText_cons (call : Call) : ∃ text, call.text = dollar :: text := by
  have hname := call.isName
  cases hcons : call.name with
  | nil =>
    rw [hcons] at hname
    cases hname
  | cons c name =>
    rw [hcons, List.map_cons, fromai_cons] at hname
    obtain rfl := lower_eq (by decide) (List.cons.inj hname).1
    exact ⟨_, by rw [Call.text, hcons]; rfl⟩

theorem callStarts_separated (hs : Unmarked s) (call : Call) (rest : CodeUnits) :
    callStarts (s ++ (call.text ++ rest)) = (argumentsText (opened call.arguments) ++ closeParen :: rest) ::
      callStarts (argumentsText (opened call.arguments) ++ closeParen :: rest) := by
  have hdollar : Ends dollar := ⟨by decide, by decide, by decide⟩
  rw [← callStarts_call]
  obtain ⟨text, htext⟩ := callText_cons call
  rw [htext, List.cons_append, callStarts_unmarked hs hdollar]

theorem unmarked_opened (h : ∀ a ∈ arguments, Unmarked a.body) : ∀ a ∈ opened arguments, Unmarked a.body := by
  cases arguments with
  | nil => exact h
  | cons argument arguments => exact List.forall_mem_cons.mpr (List.forall_mem_cons.mp h)

variable {calls : List (CodeUnits × Call)}

theorem callStarts_calls (hunmarked : ∀ p ∈ calls, Unmarked p.1) (hrest : Unmarked rest)
    (h : ∀ p ∈ calls, ∀ a ∈ p.2.arguments, Unmarked a.body) :
    List.Forall₂ (fun p text => ∃ after, text = argumentsText (opened p.2.arguments) ++ closeParen :: after) calls
      (callStarts (callsText calls rest)) := by
  induction calls with
  | nil =>
    rw [callsText, List.foldr_nil, callStarts_eq_nil.mpr hrest]
    exact .nil
  | cons p calls ih =>
    rw [List.forall_mem_cons] at hunmarked h
    rw [callsText, List.foldr_cons, callStarts_separated hunmarked.1, callStarts_arguments (unmarked_opened h.1)]
    exact .cons ⟨_, rfl⟩ (ih hunmarked.2 h.2)

def foundWithin (calls : List (CodeUnits × Call)) : Nat :=
  (calls.map fun p => (p.2.arguments.map fun a => (callStarts a.body).length).sum).sum

theorem length_callStarts (hunmarked : ∀ p ∈ calls, Unmarked p.1) (hrest : Unmarked rest) :
    (callStarts (callsText calls rest)).length = calls.length + foundWithin calls := by
  induction calls with
  | nil =>
    rw [callsText, List.foldr_nil, callStarts_eq_nil.mpr hrest]
    rfl
  | cons p calls ih =>
    rw [List.forall_mem_cons] at hunmarked
    have hbodies : (opened p.2.arguments).map (fun a => (callStarts a.body).length) =
        p.2.arguments.map fun a => (callStarts a.body).length := by
      cases p.2.arguments <;> rfl
    have hfound := ih hunmarked.2
    rw [callsText, List.foldr_cons, callStarts_separated hunmarked.1, List.length_cons, length_callStarts_arguments,
      hbodies, List.length_cons]
    rw [callsText] at hfound
    rw [hfound, foundWithin, foundWithin, List.map_cons, List.sum_cons]
    omega

theorem unmarked_of_foundWithin (h : foundWithin calls = 0) : ∀ p ∈ calls, ∀ a ∈ p.2.arguments, Unmarked a.body := by
  intro p hp a ha
  have hcall := List.sum_eq_zero_iff_forall_eq_nat.mp h _ (List.mem_map_of_mem hp)
  have hbody := List.sum_eq_zero_iff_forall_eq_nat.mp hcall _ (List.mem_map_of_mem ha)
  exact callStarts_eq_nil.mp (List.length_eq_zero_iff.mp hbody)

theorem Recovers.unmarked {host : Host Value} {text : CallText} (h : Recovers host text) :
    ∀ p ∈ text.calls, ∀ a ∈ p.2.arguments, Unmarked a.body := by
  obtain ⟨entries, hextract, hentries⟩ := h
  have hlength := (mapM_ok_iff.mp hextract).length_eq
  rw [CallText.text, length_callStarts text.unmarked text.unmarked_rest, ← hentries.length_eq] at hlength
  exact unmarked_of_foundWithin (by omega)

theorem forall₂_and {α β : Type} {r s : α → β → Prop} {l : List α} {bs : List β} :
    List.Forall₂ r l bs ∧ List.Forall₂ s l bs ↔ List.Forall₂ (fun a b => r a b ∧ s a b) l bs := by
  constructor
  · rintro ⟨hr, hs⟩
    induction hr with
    | nil => exact .nil
    | cons hab _ ih =>
      cases hs with
      | cons hab' hs => exact .cons ⟨hab, hab'⟩ (ih hs)
  · exact fun h => ⟨h.imp fun _ _ h => h.1, h.imp fun _ _ h => h.2⟩

theorem forall₂_through {α β γ : Type} {p : α → β → Prop} {r : β → γ → Prop} {q : α → γ → Prop}
    (h : ∀ a b c, p a b → (r b c ↔ q a c)) {l : List α} {bs : List β} (hp : List.Forall₂ p l bs) (cs : List γ) :
    List.Forall₂ r bs cs ↔ List.Forall₂ q l cs := by
  induction hp generalizing cs with
  | nil => simp only [List.forall₂_nil_left_iff]
  | cons hab _ ih => simp only [List.forall₂_cons_left_iff, h _ _ _ hab, ih]

theorem exists_forall₂ {α β : Type} {r : α → β → Prop} {l : List α} :
    (∃ bs, List.Forall₂ r l bs) ↔ ∀ a ∈ l, ∃ b, r a b := by
  induction l with
  | nil => exact ⟨(fun _ _ h => nomatch h), fun _ => ⟨[], .nil⟩⟩
  | cons a l ih =>
    rw [List.forall_mem_cons, ← ih]
    constructor
    · rintro ⟨_, h⟩
      cases h with
      | cons hab hrest => exact ⟨⟨_, hab⟩, _, hrest⟩
    · rintro ⟨⟨b, hab⟩, bs, hrest⟩
      exact ⟨b :: bs, .cons hab hrest⟩

/-- The calls and their arguments are recovered just where no literal has the marker in it and nothing is lost when the
values are unescaped once more. -/
theorem extractFromAICalls_recovers (host : Host Value) (text : CallText) :
    Recovers host text ↔
      ∀ p ∈ text.calls, (∀ a ∈ p.2.arguments, Unmarked a.body) ∧ ∃ type, p.2.Kept host type := by
  have hparse : ∀ {call : Call} {after : CodeUnits} {entry : FromAIArgument Value},
      parseCall host (argumentsText (opened call.arguments) ++ closeParen :: after) = .ok entry ↔
        argumentOf host (call.values.map unescape) = .ok entry := by
    intro call after entry
    rw [parseCall_eq, Call.values, ← opened_values, List.map_map]
    rfl
  suffices hsame : (∀ p ∈ text.calls, ∀ a ∈ p.2.arguments, Unmarked a.body) →
      (Recovers host text ↔ ∀ p ∈ text.calls, ∃ type, p.2.Kept host type) by
    constructor
    · intro h p hp
      exact ⟨h.unmarked p hp, (hsame h.unmarked).mp h p hp⟩
    · intro h
      exact (hsame fun p hp => (h p hp).1).mpr fun p hp => (h p hp).2
  intro hunmarked
  have hfound := callStarts_calls text.unmarked text.unmarked_rest hunmarked
  have hentries : ∀ entries, extractFromAICalls host text.text = .ok entries ↔
      List.Forall₂ (fun p entry => argumentOf host (p.2.values.map unescape) = .ok entry) text.calls entries := by
    intro entries
    rw [extractFromAICalls, mapM_ok_iff]
    refine forall₂_through ?_ hfound entries
    rintro p _ entry ⟨after, rfl⟩
    exact hparse
  simp only [Recovers, hentries, forall₂_and, exists_forall₂, entry_iff]

instance (text : CodeUnits) : Decidable (Unmarked text) :=
  decidable_of_iff (∀ s ∈ text.tails, fromAIPattern s = none) (forall_congr' fun s => by rw [List.mem_tails])

theorem denotes_plain (h : ∀ c ∈ body, c ≠ backslash ∧ c ≠ quote) : Denotes quote body body := by
  induction body with
  | nil => exact .nil
  | cons c body ih =>
    rw [List.forall_mem_cons] at h
    exact .plain h.1.1 h.1.2 (ih h.2)

/-- A host that reads numbers of decimal digits. -/
def decimalHost : Host (CodeUnits ⊕ Bool ⊕ Nat) where
  text s := .inl s
  boolean b := .inr (.inl b)
  number s :=
    if s ≠ [] ∧ s.all isDigit then some (.inr (.inr (s.foldl (fun n c => 10 * n + (c.toNat - 0x30)) 0))) else none
  jsonParse s :=
    if s = ascii "true" then some (.inr (.inl true)) else if s = ascii "false" then some (.inr (.inl false)) else none
  text_injective _ _ := Sum.inl.inj

example : parseArguments decimalHost (ascii "'n', 'how many', 'number', '30'") =
    .ok ⟨ascii "n", some (ascii "how many"), .number, some (.inr (.inr 30))⟩ := rfl

def plainArgument (body : CodeUnits) (h : ∀ c ∈ body, c ≠ backslash ∧ c ≠ singleQuote) : Argument :=
  { before := [], quote := singleQuote, body := body, value := body, after := [],
    blank_before := (fun _ h => nomatch h), blank_after := (fun _ h => nomatch h), isQuote := rfl,
    denotes := denotes_plain h }

/-- The text of a call in the description of another one is taken for a call. -/
theorem call_in_description :
    let call : Call :=
      { name := ascii "$fromAI", gap := [], lead := [],
        arguments :=
          [plainArgument (ascii "a") (by simp [ascii, backslash, singleQuote]),
            plainArgument (ascii "$fromAI()") (by simp [ascii, backslash, singleQuote])],
        isName := rfl, blank_gap := (fun _ h => nomatch h), blank_lead := (fun _ h => nomatch h) }
    let text : CallText :=
      { calls := [(ascii "=", call)], rest := [], unmarked := (by decide), unmarked_rest := (by decide) }
    text.text = ascii "=$fromAI('a','$fromAI()')" ∧ ∀ host : Host CodeUnits, ¬ Recovers host text := by
  intro call text
  refine ⟨by decide, fun host h => ?_⟩
  have hdescription : plainArgument (ascii "$fromAI()") (by simp [ascii, backslash, singleQuote]) ∈ call.arguments :=
    List.mem_cons_of_mem _ List.mem_cons_self
  have hunmarked : Unmarked (ascii "$fromAI()") := h.unmarked (ascii "=", call) List.mem_cons_self _ hdescription
  exact absurd hunmarked (by decide)

end N8n.FromAI
