import N8n.Lib.StringLiterals
import N8n.Lib.Substring

namespace N8n.Codegen

open Lib StringLiteral

/-- The string with each such unit replaced. -/
def replaceUnit (c : UInt16) (replacement str : CodeUnits) : CodeUnits :=
  str.flatMap fun d => if d = c then replacement else [d]

def escapeString (str : CodeUnits) : CodeUnits :=
  replaceUnit backslash [backslash, backslash] str
    |> replaceUnit singleQuote [backslash, singleQuote]
    |> replaceUnit 0x2018 (backslash :: ascii "u2018")
    |> replaceUnit 0x2019 (backslash :: ascii "u2019")
    |> replaceUnit 0x201C (backslash :: ascii "u201C")
    |> replaceUnit 0x201D (backslash :: ascii "u201D")
    |> replaceUnit lineFeed (backslash :: ascii "n")
    |> replaceUnit carriageReturn (backslash :: ascii "r")

def escapeTemplateLiteral (str : CodeUnits) : CodeUnits :=
  replaceUnit backslash [backslash, backslash] str
    |> replaceUnit carriageReturn (backslash :: ascii "r")
    |> replaceUnit backtick [backslash, backtick]
    |> replaceAll [dollar, openBrace] [backslash, dollar, openBrace] 0

def isMultilineStringValue (str : CodeUnits) : Bool := lineFeed ∈ str

def formatStringLiteral (str : CodeUnits) : CodeUnits :=
  if isMultilineStringValue str then backtick :: (escapeTemplateLiteral str ++ [backtick])
  else singleQuote :: (escapeString str ++ [singleQuote])

/-- The test `/^[a-zA-Z_$][a-zA-Z0-9_$]*$/`, negated. -/
def needsQuoting (key : CodeUnits) : Bool :=
  match key with
  | [] => true
  | c :: rest =>
    !(isLetter c || c ∈ [0x5F, dollar]) || !rest.all fun d => isLetter d || isDigit d || d ∈ [0x5F, dollar]

def formatKey (key : CodeUnits) : CodeUnits :=
  if needsQuoting key then singleQuote :: (escapeString key ++ [singleQuote]) else key

inductive ScanState where
  | code | single | double | template | blockComment
  deriving DecidableEq

def ScanState.atLineEnd (state : ScanState) : ScanState :=
  if state = .single ∨ state = .double then .code else state

def ScanState.opened (ch : UInt16) : ScanState :=
  if ch = singleQuote then .single
  else if ch = doubleQuote then .double
  else if ch = backtick then .template
  else .code

def ScanState.closed (state : ScanState) (ch : UInt16) : ScanState :=
  if (state = .single ∧ ch = singleQuote) ∨ (state = .double ∧ ch = doubleQuote) ∨ (state = .template ∧ ch = backtick)
  then .code else state

def scanLine : ScanState → CodeUnits → ScanState
  | state, [] => state.atLineEnd
  | .code, [ch] => (ScanState.opened ch).atLineEnd
  | .code, ch :: next :: rest =>
    if ch = slash ∧ next = asterisk then scanLine .blockComment rest
    else if ch = slash ∧ next = slash then .code
    else scanLine (.opened ch) (next :: rest)
  | .blockComment, [_] => .blockComment
  | .blockComment, ch :: next :: rest =>
    if ch = asterisk ∧ next = slash then scanLine .code rest else scanLine .blockComment (next :: rest)
  | state, [ch] => if ch = backslash then state.atLineEnd else (state.closed ch).atLineEnd
  | state, ch :: next :: rest =>
    if ch = backslash then scanLine state rest else scanLine (state.closed ch) (next :: rest)

/-- The lines after the first one, each from the state in which it is reached. -/
def indentLines (indent : CodeUnits) : ScanState → List CodeUnits → List CodeUnits
  | _, [] => []
  | state, line :: lines =>
    (if state = .template then line else indent ++ line) :: indentLines indent (scanLine state line) lines

def indentContinuationLines (text indent : CodeUnits) : CodeUnits :=
  match text.splitOn lineFeed with
  | first :: next :: lines =>
    [lineFeed].intercalate (first :: indentLines indent (scanLine .code first) (next :: lines))
  | _ => text

inductive Mode where
  | code | slash | lineComment | block | star
  | quoted (quote : UInt16)
  | escaped (quote : UInt16)
  deriving DecidableEq

def Mode.inCode (c : UInt16) : Mode :=
  if isQuote c then .quoted c else if c = StringLiteral.slash then .slash else .code

def Mode.step : Mode → UInt16 → Mode
  | .code, c => inCode c
  | .slash, c => if c = asterisk then .block else if c = StringLiteral.slash then .lineComment else inCode c
  | .lineComment, _ => .lineComment
  | .block, c => if c = asterisk then .star else .block
  | .star, c => if c = StringLiteral.slash then .code else if c = asterisk then .star else .block
  | .quoted quote, c => if c = backslash then .escaped quote else if c = quote then .code else .quoted quote
  | .escaped quote, _ => .quoted quote

def Mode.nextLine : Mode → Mode
  | .quoted quote | .escaped quote => if quote = backtick then .quoted backtick else .code
  | .block | .star => .block
  | _ => .code

def ScanState.mode : ScanState → Mode
  | .code => .code
  | .single => .quoted singleQuote
  | .double => .quoted doubleQuote
  | .template => .quoted backtick
  | .blockComment => .block

def indented (indent : CodeUnits) : Mode → CodeUnits → CodeUnits
  | _, [] => []
  | mode, c :: rest =>
    if c = lineFeed then
      lineFeed :: ((if mode.nextLine = .quoted backtick then [] else indent) ++ indented indent mode.nextLine rest)
    else c :: indented indent (mode.step c) rest

variable {state : ScanState} {mode : Mode} {indent text rest line : CodeUnits} {c : UInt16}

theorem mode_atLineEnd (state : ScanState) : state.atLineEnd.mode = state.mode.nextLine := by
  cases state <;> rfl

theorem mode_template : state.mode = .quoted backtick ↔ state = .template := by
  cases state <;> simp [ScanState.mode, singleQuote, doubleQuote, backtick]

theorem mode_opened (hslash : c ≠ slash) : (ScanState.opened c).mode = .inCode c := by
  rw [ScanState.opened, Mode.inCode, if_neg hslash]
  split_ifs with hs hd hb hq hq hq <;> simp_all [ScanState.mode, isQuote]

theorem mode_closed (hcode : state ≠ .code) (hblock : state ≠ .blockComment) (hc : c ≠ backslash) :
    (state.closed c).mode = state.mode.step c := by
  cases state with
  | code => exact absurd rfl hcode
  | blockComment => exact absurd rfl hblock
  | single | double | template =>
    simp only [ScanState.closed, ScanState.mode, Mode.step, if_neg hc]
    split_ifs <;> simp_all

theorem foldl_lineComment (line : CodeUnits) : line.foldl Mode.step .lineComment = .lineComment := by
  induction line with
  | nil => rfl
  | cons c line ih => exact ih

theorem step_slash (ha : c ≠ asterisk) (hs : c ≠ slash) : Mode.slash.step c = Mode.code.step c :=
  (if_neg ha).trans (if_neg hs)

theorem step_star (hs : c ≠ slash) : Mode.star.step c = Mode.block.step c := if_neg hs

theorem step_escape (hcode : state ≠ .code) (hblock : state ≠ .blockComment) (c : UInt16) :
    (state.mode.step backslash).step c = state.mode ∧ (state.mode.step backslash).nextLine = state.mode.nextLine := by
  cases state with
  | code => exact absurd rfl hcode
  | blockComment => exact absurd rfl hblock
  | single | double | template => exact ⟨rfl, rfl⟩

theorem scanLine_mode (state : ScanState) (line : CodeUnits) :
    (scanLine state line).mode = (line.foldl Mode.step state.mode).nextLine := by
  fun_induction scanLine state line with
  | case1 state => exact mode_atLineEnd state
  | case2 ch =>
    rw [mode_atLineEnd]
    by_cases hslash : ch = slash
    · subst hslash
      rfl
    · rw [mode_opened hslash]
      rfl
  | case3 ch next rest h ih =>
    obtain ⟨rfl, rfl⟩ := h
    exact ih
  | case4 ch next rest h h' =>
    obtain ⟨rfl, rfl⟩ := h'
    exact (congrArg Mode.nextLine (foldl_lineComment rest)).symm
  | case5 ch next rest h h' ih =>
    rw [ih]
    by_cases hslash : ch = slash
    · subst hslash
      have hnext : Mode.slash.step next = Mode.code.step next :=
        step_slash (fun hn => h ⟨rfl, hn⟩) fun hn => h' ⟨rfl, hn⟩
      exact congrArg (fun mode => (rest.foldl Mode.step mode).nextLine) hnext.symm
    · rw [mode_opened hslash]
      rfl
  | case6 ch =>
    by_cases h : ch = asterisk
    · subst h
      rfl
    · have hch : Mode.block.step ch = .block := if_neg h
      exact (congrArg Mode.nextLine hch).symm
  | case7 ch next rest h ih =>
    obtain ⟨rfl, rfl⟩ := h
    exact ih
  | case8 ch next rest h ih =>
    rw [ih]
    by_cases hstar : ch = asterisk
    · subst hstar
      have hnext : Mode.star.step next = Mode.block.step next := step_star fun hn => h ⟨rfl, hn⟩
      exact congrArg (fun mode => (rest.foldl Mode.step mode).nextLine) hnext.symm
    · have hch : Mode.block.step ch = .block := if_neg hstar
      exact congrArg (fun mode => ((next :: rest).foldl Mode.step mode).nextLine) hch.symm
  | case9 state hcode hblock =>
    rw [mode_atLineEnd]
    exact (step_escape hcode hblock backslash).2.symm
  | case10 state ch hcode hblock hch =>
    rw [mode_atLineEnd, mode_closed hcode hblock hch]
    rfl
  | case11 state next rest hcode hblock ih =>
    rw [ih]
    exact congrArg (fun mode => (rest.foldl Mode.step mode).nextLine) (step_escape hcode hblock next).1.symm
  | case12 state ch next rest hcode hblock hch ih =>
    rw [ih, mode_closed hcode hblock hch]
    rfl

theorem intercalate_append (sep before line : CodeUnits) (lines : List CodeUnits) :
    sep.intercalate ((before ++ line) :: lines) = before ++ sep.intercalate (line :: lines) := by
  cases lines with
  | nil => rw [List.intercalate_singleton, List.intercalate_singleton]
  | cons next lines => simp only [List.intercalate_cons_cons, List.append_assoc]

theorem indentLines_join (indent : CodeUnits) {first : CodeUnits} {lines : List CodeUnits} (mode : Mode)
    (h : text.splitOn lineFeed = first :: lines) (hstate : state.mode = (first.foldl Mode.step mode).nextLine) :
    [lineFeed].intercalate (first :: indentLines indent state lines) = indented indent mode text := by
  induction text generalizing mode first lines state with
  | nil =>
    rw [List.splitOn_nil] at h
    cases h
    rfl
  | cons c text ih =>
    rw [List.splitOn_cons_eq_if_modifyHead] at h
    obtain ⟨next, others, hsplit⟩ := List.exists_cons_of_ne_nil (List.splitOn_ne_nil lineFeed text)
    rw [hsplit] at h
    by_cases hc : c = lineFeed
    · subst hc
      rw [if_pos BEq.rfl] at h
      cases h
      have hline := ih state.mode hsplit (scanLine_mode state next)
      have hmode : mode.nextLine = state.mode := hstate.symm
      have hbefore : (if state = .template then next else indent ++ next) =
          (if state.mode = .quoted backtick then [] else indent) ++ next := by
        simp only [mode_template]
        split_ifs <;> rfl
      rw [indentLines, List.intercalate_cons_cons, hbefore, intercalate_append, hline, indented, if_pos rfl, hmode]
      rfl
    · rw [if_neg (by simpa using hc)] at h
      cases h
      rw [indented, if_neg hc, ← ih (mode.step c) hsplit hstate]
      exact intercalate_append _ [c] next _

theorem indentContinuationLines_eq (text indent : CodeUnits) :
    indentContinuationLines text indent = indented indent .code text := by
  obtain ⟨first, lines, hsplit⟩ := List.exists_cons_of_ne_nil (List.splitOn_ne_nil lineFeed text)
  have h := indentLines_join indent .code hsplit (scanLine_mode .code first)
  rw [indentContinuationLines, ← h, hsplit]
  cases lines with
  | nil =>
    rw [indentLines, List.intercalate_singleton]
    have hjoin : [lineFeed].intercalate (text.splitOn lineFeed) = text := List.intercalate_splitOn lineFeed
    rw [hsplit, List.intercalate_singleton] at hjoin
    exact hjoin.symm
  | cons next lines => rfl

inductive Scanned (quote : UInt16) : CodeUnits → Prop
  | nil : Scanned quote []
  | escaped {text : CodeUnits} {c : UInt16} : c ≠ lineFeed → Scanned quote text →
      Scanned quote (backslash :: c :: text)
  | plain {text : CodeUnits} {c : UInt16} : c ≠ backslash → c ≠ quote → (c = lineFeed → quote = backtick) →
      Scanned quote text → Scanned quote (c :: text)

variable {quote : UInt16}

theorem Scanned.append (h : Scanned quote text) (h' : Scanned quote rest) : Scanned quote (text ++ rest) := by
  induction h with
  | nil => exact h'
  | escaped hc _ ih => exact .escaped hc ih
  | plain hb hq hl _ ih => exact .plain hb hq hl ih

theorem Scanned.word (h : ∀ c ∈ text, c ≠ backslash ∧ c ≠ quote ∧ c ≠ lineFeed) : Scanned quote text := by
  induction text with
  | nil => exact .nil
  | cons c text ih =>
    obtain ⟨hb, hq, hl⟩ := h c List.mem_cons_self
    exact .plain hb hq (fun heq => absurd heq hl) (ih fun d hd => h d (List.mem_cons_of_mem _ hd))

theorem indented_scanned (indent : CodeUnits) (h : Scanned quote text) (hq : quote ≠ backslash) (hl : quote ≠ lineFeed)
    (rest : CodeUnits) :
    indented indent (.quoted quote) (text ++ quote :: rest) = text ++ quote :: indented indent .code rest := by
  induction h with
  | nil => rw [List.nil_append, List.nil_append, indented, if_neg hl, Mode.step, if_neg hq, if_pos rfl]
  | @escaped text c hc _ ih =>
    have hstep : ((Mode.quoted quote).step backslash).step c = .quoted quote := rfl
    rw [List.cons_append, List.cons_append, indented, if_neg (by decide), indented, if_neg hc, hstep, ih]
    rfl
  | @plain text c hb hne hline _ ih =>
    rw [List.cons_append, indented]
    by_cases hc : c = lineFeed
    · have hmode : (Mode.quoted quote).nextLine = .quoted backtick := if_pos (hline hc)
      rw [if_pos hc, hmode, if_pos rfl, List.nil_append, hc, ← hline hc, ih]
      rfl
    · rw [if_neg hc, Mode.step, if_neg hb, if_neg hne, ih]
      rfl

/-- The text stands for the string: it is read back as the string, and the scan does not leave it. -/
structure Spells (quote : UInt16) (text str : CodeUnits) : Prop where
  read : ∀ rest, body quote (text ++ quote :: rest) = some (str, rest)
  scanned : Scanned quote text

variable {str word digits : CodeUnits} {d : UInt16}

theorem Spells.nil (quote : UInt16) : Spells quote [] [] := ⟨body_close quote, .nil⟩

theorem Spells.escape (h : Spells quote text str) (hq : quote ≠ backslash)
    (hscanned : Scanned quote (backslash :: word)) (hc : ∀ rest, escapeSequence (word ++ rest) = some ([c], rest)) :
    Spells quote (backslash :: word ++ text) (c :: str) := by
  refine ⟨fun rest => ?_, hscanned.append h.scanned⟩
  rw [List.cons_append, List.cons_append, List.append_assoc, body_escape hq (hc _), h.read]
  rfl

theorem Spells.char (h : Spells quote text str) (hq : quote ≠ backslash) (hl : isLineTerminator d = false)
    (hx : d ≠ 0x78) (hu : d ≠ 0x75) (hd : isDigit d = false) (hc : escapedChar d = c) :
    Spells quote ([backslash, d] ++ text) (c :: str) := by
  have hline : d ≠ lineFeed := by
    rintro rfl
    exact Bool.noConfusion hl
  exact h.escape hq (.escaped hline .nil) fun rest => hc ▸ escapeSequence_char hl hx hu hd rest

theorem Spells.unicode (h : Spells singleQuote text str) (hlength : digits.length = 4)
    (hn : hexValue digits = some c.toNat) (hbrace : digits.head? ≠ some openBrace) :
    Spells singleQuote (backslash :: 0x75 :: digits ++ text) (c :: str) := by
  have hword : ∀ d ∈ digits, d ≠ backslash ∧ d ≠ singleQuote ∧ d ≠ lineFeed := by
    intro d hd
    have hdigit := hexDigit_of_hexValue hn hd
    refine ⟨?_, ?_, ?_⟩ <;> rintro rfl <;> exact Bool.noConfusion hdigit
  refine h.escape (by decide) (.escaped (by decide) (.word hword)) fun rest => ?_
  have hc := escapeSequence_unicode hlength hbrace hn rest
  rwa [Nat.toUInt16, UInt16.ofNat_toNat] at hc

theorem Spells.plain (h : Spells quote text str) (hb : c ≠ backslash) (hq : c ≠ quote)
    (hl : c = lineFeed → quote = backtick) (hc : ∀ rest, charValue quote c (text ++ quote :: rest) = some [c]) :
    Spells quote (c :: text) (c :: str) := by
  refine ⟨fun rest => ?_, .plain hb hq hl h.scanned⟩
  rw [List.cons_append, body_char hq hb (hc rest), h.read]
  rfl

theorem escapeString_append (s t : CodeUnits) : escapeString (s ++ t) = escapeString s ++ escapeString t := by
  simp only [escapeString, replaceUnit, List.flatMap_append]

theorem escapeString_spells (str : CodeUnits) : Spells singleQuote (escapeString str) str := by
  induction str with
  | nil => exact .nil _
  | cons c str ih =>
    rw [← List.singleton_append, escapeString_append]
    by_cases hb : c = backslash
    · subst hb
      exact ih.char (by decide) (by decide) (by decide) (by decide) (by decide) rfl
    by_cases hs : c = singleQuote
    · subst hs
      exact ih.char (by decide) (by decide) (by decide) (by decide) (by decide) rfl
    by_cases hn : c = lineFeed
    · subst hn
      exact ih.char (by decide) (by decide) (by decide) (by decide) (by decide) rfl
    by_cases hr : c = carriageReturn
    · subst hr
      exact ih.char (by decide) (by decide) (by decide) (by decide) (by decide) rfl
    by_cases h1 : c = 0x2018
    · subst h1
      exact ih.unicode rfl (by decide) (by decide)
    by_cases h2 : c = 0x2019
    · subst h2
      exact ih.unicode rfl (by decide) (by decide)
    by_cases h3 : c = 0x201C
    · subst h3
      exact ih.unicode rfl (by decide) (by decide)
    by_cases h4 : c = 0x201D
    · subst h4
      exact ih.unicode rfl (by decide) (by decide)
    have hplain : escapeString [c] = [c] := by
      simp [escapeString, replaceUnit, hb, hs, hn, hr, h1, h2, h3, h4]
    rw [hplain, List.singleton_append]
    refine ih.plain hb hs (fun h => absurd h hn) fun rest => ?_
    rw [charValue, if_neg (by decide), if_neg fun h => h.elim hn hr]

def templateUnits (str : CodeUnits) : CodeUnits :=
  replaceUnit backslash [backslash, backslash] str
    |> replaceUnit carriageReturn (backslash :: ascii "r")
    |> replaceUnit backtick [backslash, backtick]

theorem templateUnits_cons (c : UInt16) (str : CodeUnits) :
    templateUnits (c :: str) = templateUnits [c] ++ templateUnits str := by
  rw [← List.singleton_append]
  simp only [templateUnits, replaceUnit, List.flatMap_append]

theorem templateUnits_plain (hb : c ≠ backslash) (hr : c ≠ carriageReturn) (hq : c ≠ backtick) :
    templateUnits [c] = [c] := by
  simp [templateUnits, replaceUnit, hb, hr, hq]

theorem templateUnits_escaped {c : UInt16} (h : c = backslash ∨ c = carriageReturn ∨ c = backtick) :
    ∃ d, templateUnits [c] = [backslash, d] ∧ d ≠ dollar ∧ isLineTerminator d = false ∧ d ≠ 0x78 ∧ d ≠ 0x75 ∧
      isDigit d = false ∧ escapedChar d = c := by
  rcases h with rfl | rfl | rfl
  · exact ⟨backslash, rfl, by decide, by decide, by decide, by decide, by decide, rfl⟩
  · exact ⟨0x72, rfl, by decide, by decide, by decide, by decide, by decide, rfl⟩
  · exact ⟨backtick, rfl, by decide, by decide, by decide, by decide, by decide, rfl⟩

theorem not_prefix_of_ne {α : Type} {a b c : α} {rest : List α} (h : c ≠ a) : ¬ [a, b] <+: c :: rest := fun hp =>
  h (List.cons_prefix_cons.mp hp).1.symm

theorem head_templateUnits (h : (templateUnits str).head? = some openBrace) : str.head? = some openBrace := by
  cases str with
  | nil => exact h
  | cons c str =>
    rw [templateUnits_cons] at h
    by_cases hs : c = backslash ∨ c = carriageReturn ∨ c = backtick
    · obtain ⟨d, hd, -⟩ := templateUnits_escaped hs
      rw [hd] at h
      exact absurd h (by simp [backslash, openBrace])
    · rw [templateUnits_plain (fun h => hs (.inl h)) (fun h => hs (.inr (.inl h))) fun h => hs (.inr (.inr h))] at h
      exact h

theorem escapeTemplateLiteral_eq (str : CodeUnits) : escapeTemplateLiteral str =
    replaceAll [dollar, openBrace] [backslash, dollar, openBrace] 0 (templateUnits str) := rfl

theorem head_escapeTemplateLiteral (h : (escapeTemplateLiteral str ++ rest).head? = some openBrace)
    (hrest : rest.head? ≠ some openBrace) : (templateUnits str).head? = some openBrace := by
  rw [escapeTemplateLiteral_eq] at h
  cases hunits : templateUnits str with
  | nil =>
    rw [hunits] at h
    exact absurd h hrest
  | cons d units =>
    rw [hunits, replaceAll] at h
    split at h
    · exact absurd h (by simp [backslash, openBrace])
    · exact h

theorem escapeTemplateLiteral_spells (str : CodeUnits) : Spells backtick (escapeTemplateLiteral str) str := by
  induction str using pattern_cases (List.cons_ne_nil dollar [openBrace]) with
  | hnil => exact .nil _
  | hat rest ih =>
    have hunits : templateUnits ([dollar, openBrace] ++ rest) = [dollar, openBrace] ++ templateUnits rest := by
      rw [List.cons_append, templateUnits_cons, List.singleton_append, templateUnits_cons]
      rfl
    rw [escapeTemplateLiteral_eq, hunits, replaceAll_at _ (List.cons_ne_nil _ _), ← escapeTemplateLiteral_eq]
    have hbrace : Spells backtick (openBrace :: escapeTemplateLiteral rest) (openBrace :: rest) :=
      ih.plain (by decide) (by decide) (by decide) fun _ => rfl
    exact hbrace.char (by decide) (by decide) (by decide) (by decide) (by decide) rfl
  | hpast c rest hp ih =>
    rw [escapeTemplateLiteral_eq, templateUnits_cons]
    by_cases hs : c = backslash ∨ c = carriageReturn ∨ c = backtick
    · obtain ⟨d, hd, hdollar, hl, hx, hu, hdigit, hc⟩ := templateUnits_escaped hs
      rw [hd, List.cons_append, replaceAll_past _ (not_prefix_of_ne (by decide)), List.cons_append,
        replaceAll_past _ (not_prefix_of_ne hdollar), List.nil_append, ← escapeTemplateLiteral_eq]
      exact ih.char (by decide) hl hx hu hdigit hc
    · obtain ⟨hb, hr, hq⟩ : c ≠ backslash ∧ c ≠ carriageReturn ∧ c ≠ backtick :=
        ⟨fun h => hs (.inl h), fun h => hs (.inr (.inl h)), fun h => hs (.inr (.inr h))⟩
      have hfree : ¬ (c = dollar ∧ (templateUnits rest).head? = some openBrace) := fun ⟨hc, hhead⟩ => by
        obtain ⟨after, rfl⟩ := List.head?_eq_some_iff.mp (head_templateUnits hhead)
        exact hp ⟨after, by rw [hc]; rfl⟩
      have hpast : ¬ [dollar, openBrace] <+: c :: templateUnits rest := fun h => by
        obtain ⟨hc, after, hafter⟩ := List.cons_prefix_cons.mp h
        exact hfree ⟨hc.symm, by rw [← hafter]; rfl⟩
      rw [templateUnits_plain hb hr hq, List.singleton_append, replaceAll_past _ hpast, ← escapeTemplateLiteral_eq]
      refine ih.plain hb hq (fun _ => rfl) fun after => ?_
      have hopen : ¬ (c = dollar ∧ (escapeTemplateLiteral rest ++ backtick :: after).head? = some openBrace) :=
        fun h => hfree ⟨h.1, head_escapeTemplateLiteral h.2 (by simp [backtick, openBrace])⟩
      rw [charValue, if_pos rfl, if_neg hopen, if_neg hr]

inductive Piece where
  | literal (str : CodeUnits)
  | key (name : CodeUnits)
  | lineComment (body : CodeUnits)
  | blockComment (body : CodeUnits)
  | code (c : UInt16)
  deriving DecidableEq

def Piece.source : Piece → CodeUnits
  | .literal str => formatStringLiteral str
  | .key name => formatKey name
  | .lineComment body => slash :: slash :: body
  | .blockComment body => slash :: asterisk :: (body ++ [asterisk, slash])
  | .code c => [c]

def Piece.value : Piece → Option CodeUnits
  | .literal str => some str
  | .key name => if needsQuoting name then some name else none
  | _ => none

def render (pieces : List Piece) : CodeUnits := pieces.flatMap Piece.source

/-- A line comment ends with its line, a block comment with the first sign for it, and no two characters of the code
are a comment sign. -/
inductive Generated : List Piece → Prop
  | nil : Generated []
  | literal {rest : List Piece} (str : CodeUnits) : Generated rest → Generated (.literal str :: rest)
  | key {rest : List Piece} (name : CodeUnits) : Generated rest → Generated (.key name :: rest)
  | lineComment {rest : List Piece} {body : CodeUnits} : (∀ c ∈ body, isLineTerminator c = false) →
      (∀ c ∈ (render rest).head?, c = lineFeed) → Generated rest → Generated (.lineComment body :: rest)
  | blockComment {rest : List Piece} {body : CodeUnits} : ¬ [asterisk, slash] <:+: body → Generated rest →
      Generated (.blockComment body :: rest)
  | code {rest : List Piece} {c : UInt16} : isQuote c = false →
      (c = slash → (render rest).head? ≠ some slash ∧ (render rest).head? ≠ some asterisk) →
      Generated rest → Generated (.code c :: rest)

def IsIndent (indent : CodeUnits) : Prop := ∀ c ∈ indent, isQuote c = false ∧ c ≠ slash ∧ c ≠ asterisk

def indentBody (indent body : CodeUnits) : CodeUnits :=
  body.flatMap fun c => if c = lineFeed then lineFeed :: indent else [c]

def indentPiece (indent : CodeUnits) : Piece → List Piece
  | .blockComment body => [.blockComment (indentBody indent body)]
  | .code c => if c = lineFeed then .code c :: indent.map .code else [.code c]
  | piece => [piece]

variable {pieces : List Piece} {piece : Piece} {name body : CodeUnits}

theorem render_cons (piece : Piece) (pieces : List Piece) :
    render (piece :: pieces) = piece.source ++ render pieces := rfl

theorem Generated.append_code (h : Generated pieces) (hi : IsIndent indent) :
    Generated (indent.map .code ++ pieces) := by
  induction indent with
  | nil => exact h
  | cons c indent ih =>
    obtain ⟨hq, hs, -⟩ := hi c List.mem_cons_self
    exact .code hq (fun hc => absurd hc hs) (ih fun d hd => hi d (List.mem_cons_of_mem _ hd))

theorem head_indented (indent : CodeUnits) (mode : Mode) (text : CodeUnits) :
    (indented indent mode text).head? = text.head? := by
  cases text with
  | nil => rfl
  | cons c text =>
    rw [indented]
    by_cases hc : c = lineFeed
    · rw [if_pos hc, hc]
      rfl
    · rw [if_neg hc]
      rfl

theorem indented_code (indent : CodeUnits) (hq : isQuote c = false)
    (hslash : c = slash → text.head? ≠ some slash ∧ text.head? ≠ some asterisk) :
    indented indent .code (c :: text) = (if c = lineFeed then lineFeed :: (indent ++ indented indent .code text)
      else c :: indented indent .code text) := by
  rw [indented]
  by_cases hc : c = lineFeed
  · rw [if_pos hc, if_pos hc]
    rfl
  rw [if_neg hc, if_neg hc]
  have hin : Mode.code.step c = .inCode c := rfl
  rw [hin, Mode.inCode, if_neg (by simp [hq])]
  by_cases hs : c = slash
  · rw [if_pos hs]
    congr 1
    -- The scan remembers the slash, for nothing.
    cases text with
    | nil => rfl
    | cons d text =>
      obtain ⟨hslash, hstar⟩ := hslash hs
      have hstep : Mode.slash.step d = Mode.code.step d :=
        step_slash (fun h => hstar (congrArg some h)) fun h => hslash (congrArg some h)
      rw [indented, indented, hstep]
      rfl
  · rw [if_neg hs]

theorem indented_lineComment (indent : CodeUnits) (hbody : ∀ c ∈ body, isLineTerminator c = false)
    (hrest : ∀ c ∈ text.head?, c = lineFeed) :
    indented indent .lineComment (body ++ text) = body ++ indented indent .code text := by
  induction body with
  | nil =>
    cases text with
    | nil => rfl
    | cons c text =>
      obtain rfl := hrest c rfl
      rfl
  | cons c body ih =>
    have hc : c ≠ lineFeed := by
      rintro rfl
      exact Bool.noConfusion (hbody _ List.mem_cons_self)
    rw [List.cons_append, indented, if_neg hc]
    exact congrArg (c :: ·) (ih fun d hd => hbody d (List.mem_cons_of_mem _ hd))

theorem indentBody_cons (indent : CodeUnits) (c : UInt16) (body : CodeUnits) :
    indentBody indent (c :: body) = (if c = lineFeed then lineFeed :: indent else [c]) ++ indentBody indent body := rfl

theorem indented_blockComment (indent : CodeUnits) (mode : Mode)
    (hmode : mode = .block ∨ mode = .star ∧ body.head? ≠ some slash) (hbody : ¬ [asterisk, slash] <:+: body)
    (text : CodeUnits) :
    indented indent mode (body ++ asterisk :: slash :: text) =
      indentBody indent body ++ asterisk :: slash :: indented indent .code text := by
  induction body generalizing mode with
  | nil =>
    rcases hmode with rfl | ⟨rfl, -⟩
    · rfl
    · rfl
  | cons c body ih =>
    have hrest : ¬ [asterisk, slash] <:+: body := fun h => hbody (h.trans (List.infix_cons (List.infix_refl body)))
    rw [List.cons_append, indented, indentBody_cons]
    by_cases hc : c = lineFeed
    · have hnext : mode.nextLine = .block := by
        rcases hmode with rfl | ⟨rfl, -⟩ <;> rfl
      rw [if_pos hc, if_pos hc, hnext, ih .block (.inl rfl) hrest, if_neg (by decide)]
      simp only [List.cons_append, List.append_assoc]
    · have hstep : mode.step c = Mode.block.step c := by
        rcases hmode with rfl | ⟨rfl, hhead⟩
        · rfl
        · exact step_star fun h => hhead (congrArg some h)
      rw [if_neg hc, if_neg hc, hstep, ih (Mode.block.step c) ?_ hrest]
      · rfl
      by_cases hstar : c = asterisk
      · refine .inr ⟨if_pos hstar, fun hhead => ?_⟩
        obtain ⟨after, rfl⟩ := List.head?_eq_some_iff.mp hhead
        exact hbody ⟨[], after, by rw [hstar]; rfl⟩
      · exact .inl (if_neg hstar)

theorem indented_quoted (indent : CodeUnits) (hq : isQuote quote = true) (h : Scanned quote text) (rest : CodeUnits) :
    indented indent .code (quote :: (text ++ quote :: rest)) =
      quote :: (text ++ quote :: indented indent .code rest) := by
  obtain ⟨hb, hl⟩ : quote ≠ backslash ∧ quote ≠ lineFeed := by
    constructor <;> rintro rfl <;> exact Bool.noConfusion hq
  have hstep : Mode.code.step quote = .quoted quote := if_pos hq
  rw [indented, if_neg hl, hstep, indented_scanned indent h hb hl]

theorem formatStringLiteral_eq (str : CodeUnits) : ∃ quote text, isQuote quote = true ∧ Spells quote text str ∧
    formatStringLiteral str = quote :: (text ++ [quote]) := by
  rw [formatStringLiteral]
  split
  · exact ⟨backtick, _, rfl, escapeTemplateLiteral_spells str, rfl⟩
  · exact ⟨singleQuote, _, rfl, escapeString_spells str, rfl⟩

theorem source_literal (h : piece.value = some str) : ∃ quote text, isQuote quote = true ∧ Spells quote text str ∧
    piece.source = quote :: (text ++ [quote]) := by
  cases piece with
  | literal str' =>
    cases h
    exact formatStringLiteral_eq str
  | key name =>
    by_cases hq : needsQuoting name = true
    · rw [Piece.value, if_pos hq] at h
      cases h
      exact ⟨singleQuote, _, rfl, escapeString_spells str, if_pos hq⟩
    · rw [Piece.value, if_neg hq] at h
      cases h
  | lineComment | blockComment | code => cases h

theorem needsQuoting_word (h : needsQuoting name = false) :
    ∀ c ∈ name, isLetter c || isDigit c || c ∈ [0x5F, dollar] := by
  cases name with
  | nil => cases h
  | cons c rest =>
    rw [needsQuoting, Bool.or_eq_false_iff, Bool.not_eq_false', Bool.not_eq_false', List.all_eq_true] at h
    intro d hd
    rcases List.mem_cons.mp hd with rfl | hd
    · have hfirst := h.1
      simp only [Bool.or_eq_true] at hfirst ⊢
      exact hfirst.elim (fun h => .inl (.inl h)) .inr
    · exact h.2 d hd

theorem wordChar_plain (h : isLetter c || isDigit c || c ∈ [0x5F, dollar]) :
    isQuote c = false ∧ c ≠ slash ∧ c ≠ lineFeed := by
  refine ⟨(Bool.not_eq_true _).mp fun hq => ?_, ?_, ?_⟩
  · simp only [isQuote, List.mem_cons, List.not_mem_nil, or_false, decide_eq_true_eq] at hq
    rcases hq with rfl | rfl | rfl <;> exact absurd h (by decide)
  · rintro rfl
    exact absurd h (by decide)
  · rintro rfl
    exact absurd h (by decide)

theorem word_code (h : ∀ c ∈ text, isLetter c || isDigit c || c ∈ [0x5F, dollar]) (indent rest : CodeUnits) :
    indented indent .code (text ++ rest) = text ++ indented indent .code rest ∧
      values (text ++ rest) = values rest := by
  induction text with
  | nil => exact ⟨rfl, rfl⟩
  | cons c text ih =>
    obtain ⟨hq, hs, hl⟩ := wordChar_plain (h c List.mem_cons_self)
    obtain ⟨hindented, hvalues⟩ := ih fun d hd => h d (List.mem_cons_of_mem _ hd)
    rw [List.cons_append, indented_code indent hq fun hc => absurd hc hs, if_neg hl, hindented]
    exact ⟨rfl, (values_code hq fun hc => absurd hc hs).trans hvalues⟩

theorem source_word (h : needsQuoting name = false) : (Piece.key name).source = name := by
  rw [Piece.source, formatKey, if_neg (by simp [h])]

theorem indented_literal (indent : CodeUnits) (h : piece.value = some str) (rest : CodeUnits) :
    indented indent .code (piece.source ++ rest) = piece.source ++ indented indent .code rest ∧
      values (piece.source ++ rest) = (values rest).map (str :: ·) := by
  obtain ⟨quote, text, hq, hspells, hsource⟩ := source_literal h
  rw [hsource]
  simp only [List.cons_append, List.append_assoc]
  exact ⟨indented_quoted indent hq hspells.scanned rest, values_literal hq (hspells.read rest)⟩

theorem render_code (indent : CodeUnits) : render (indent.map .code) = indent := by
  induction indent with
  | nil => rfl
  | cons c indent ih => exact congrArg (c :: ·) ih

theorem render_append (pieces pieces' : List Piece) : render (pieces ++ pieces') = render pieces ++ render pieces' :=
  List.flatMap_append

theorem render_singleton (piece : Piece) : render [piece] = piece.source := List.append_nil _

theorem indented_render (indent : CodeUnits) (h : Generated pieces) :
    indented indent .code (render pieces) = render (pieces.flatMap (indentPiece indent)) := by
  induction h with
  | nil => rfl
  | literal str _ ih =>
    rw [render_cons, (indented_literal indent rfl _).1, ih]
    rfl
  | key name _ ih =>
    have hsame : indentPiece indent (.key name) = [.key name] := rfl
    rw [render_cons, List.flatMap_cons, render_append, ← ih, hsame, render_singleton]
    cases hq : needsQuoting name with
    | true =>
      have hvalue : (Piece.key name).value = some name := if_pos hq
      exact (indented_literal indent hvalue _).1
    | false =>
      rw [source_word hq]
      exact (word_code (needsQuoting_word hq) indent _).1
  | @lineComment rest body hbody hrest _ ih =>
    have hsame : indentPiece indent (.lineComment body) = [.lineComment body] := rfl
    rw [render_cons, List.flatMap_cons, render_append, ← ih, hsame, render_singleton]
    exact congrArg (fun text => slash :: slash :: text) (indented_lineComment indent hbody hrest)
  | @blockComment rest body hbody _ ih =>
    have hcomment := indented_blockComment indent .block (.inl rfl) hbody (render rest)
    rw [render_cons, List.flatMap_cons, render_append, ← ih, indentPiece, render_singleton]
    simp only [Piece.source, List.cons_append, List.append_assoc, List.nil_append]
    exact congrArg (fun text => slash :: asterisk :: text) hcomment
  | @code rest c hq hslash _ ih =>
    have hsource : (Piece.code c).source ++ render rest = c :: render rest := rfl
    rw [render_cons, List.flatMap_cons, render_append, ← ih, hsource, indented_code indent hq hslash]
    by_cases hc : c = lineFeed
    · rw [if_pos hc, indentPiece, if_pos hc, render_cons, render_code, hc]
      rfl
    · rw [if_neg hc, indentPiece, if_neg hc]
      rfl

theorem head_render (indent : CodeUnits) (h : Generated pieces) :
    (render (pieces.flatMap (indentPiece indent))).head? = (render pieces).head? := by
  rw [← indented_render indent h, head_indented]

theorem indentBody_free (hi : IsIndent indent) (h : ¬ [asterisk, slash] <:+: body) :
    ¬ [asterisk, slash] <:+: indentBody indent body := by
  have hpast : ∀ {before : CodeUnits}, (∀ c ∈ before, c ≠ asterisk) → ∀ {rest : CodeUnits},
      ¬ [asterisk, slash] <:+: rest → ¬ [asterisk, slash] <:+: before ++ rest := by
    intro before
    induction before with
    | nil => exact fun _ _ h => h
    | cons c before ih =>
      intro hbefore rest hrest hinfix
      rcases List.infix_cons_iff.mp hinfix with hprefix | hinfix
      · exact hbefore c List.mem_cons_self (List.cons_prefix_cons.mp hprefix).1.symm
      · exact ih (fun d hd => hbefore d (List.mem_cons_of_mem _ hd)) hrest hinfix
  have hhead : ∀ body : CodeUnits, (indentBody indent body).head? = body.head? := by
    intro body
    cases body with
    | nil => rfl
    | cons c body =>
      rw [indentBody_cons]
      split_ifs with hc
      · rw [hc]
        rfl
      · rfl
  induction body with
  | nil => exact h
  | cons c body ih =>
    have hrest : ¬ [asterisk, slash] <:+: body := fun hb => h (hb.trans (List.infix_cons (List.infix_refl body)))
    rw [indentBody_cons]
    split_ifs with hc
    · refine hpast (fun d hd => ?_) (ih hrest)
      rcases List.mem_cons.mp hd with rfl | hd
      · decide
      · exact (hi d hd).2.2
    · intro hinfix
      rcases List.infix_cons_iff.mp hinfix with hprefix | hinfix
      · obtain ⟨hstar, after, hafter⟩ := List.cons_prefix_cons.mp hprefix
        have hslash : body.head? = some slash := (hhead body).symm.trans (congrArg List.head? hafter).symm
        obtain ⟨after, rfl⟩ := List.head?_eq_some_iff.mp hslash
        exact h ⟨[], after, by rw [← hstar]; rfl⟩
      · exact ih hrest hinfix

theorem generated_indent (h : Generated pieces) (hi : IsIndent indent) :
    Generated (pieces.flatMap (indentPiece indent)) := by
  induction h with
  | nil => exact .nil
  | literal str _ ih => exact .literal str ih
  | key name _ ih => exact .key name ih
  | lineComment hbody hrest h ih =>
    rw [← head_render indent h] at hrest
    exact .lineComment hbody hrest ih
  | blockComment hbody _ ih => exact .blockComment (indentBody_free hi hbody) ih
  | @code rest c hq hslash h ih =>
    rw [← head_render indent h] at hslash
    rw [List.flatMap_cons, indentPiece]
    split_ifs with hc
    · refine .code hq (fun hs => ?_) (ih.append_code hi)
      rw [hc] at hs
      exact absurd hs (by decide)
    · exact .code hq hslash ih

theorem literals_indent (indent : CodeUnits) (pieces : List Piece) :
    (pieces.flatMap (indentPiece indent)).filter (·.value.isSome) = pieces.filter (·.value.isSome) := by
  have hcode : (indent.map Piece.code).filter (·.value.isSome) = [] := by
    rw [List.filter_eq_nil_iff]
    intro piece hpiece
    obtain ⟨c, -, rfl⟩ := List.mem_map.mp hpiece
    exact Bool.false_ne_true
  induction pieces with
  | nil => rfl
  | cons piece pieces ih =>
    rw [List.flatMap_cons, List.filter_append, ih, ← List.singleton_append, List.filter_append]
    congr 1
    cases piece with
    | literal | key | lineComment | blockComment => rfl
    | code c =>
      rw [indentPiece]
      split_ifs
      · rw [← List.singleton_append, List.filter_append, hcode, List.append_nil]
      · rfl

theorem afterComment_body (h : ¬ [asterisk, slash] <:+: body) (rest : CodeUnits) :
    afterComment (body ++ asterisk :: slash :: rest) = some rest := by
  induction body with
  | nil => exact if_pos ⟨rfl, rfl⟩
  | cons c body ih =>
    have hrest : ¬ [asterisk, slash] <:+: body := fun hb => h (hb.trans (List.infix_cons (List.infix_refl body)))
    cases body with
    | nil => exact (if_neg fun hc => absurd hc.2 (by decide)).trans (ih hrest)
    | cons d body =>
      refine (if_neg fun hc => ?_).trans (ih hrest)
      obtain ⟨rfl, rfl⟩ := hc
      exact h ⟨[], body, rfl⟩

theorem dropWhile_comment (hbody : ∀ c ∈ body, isLineTerminator c = false) (hrest : ∀ c ∈ rest.head?, c = lineFeed) :
    (body ++ rest).dropWhile (fun d => !isLineTerminator d) = rest := by
  rw [List.dropWhile_append_of_pos fun c hc => by rw [hbody c hc]; rfl]
  cases rest with
  | nil => rfl
  | cons c rest =>
    obtain rfl := hrest c rfl
    rfl

theorem values_render (h : Generated pieces) : values (render pieces) = some (pieces.filterMap Piece.value) := by
  induction h with
  | nil => rw [render, List.flatMap_nil, values]; rfl
  | literal str _ ih =>
    rw [render_cons, (indented_literal [] rfl _).2, ih]
    rfl
  | key name _ ih =>
    rw [render_cons]
    cases hq : needsQuoting name with
    | true =>
      have hvalue : (Piece.key name).value = some name := if_pos hq
      rw [(indented_literal [] hvalue _).2, ih, List.filterMap_cons_some hvalue]
      rfl
    | false =>
      have hvalue : (Piece.key name).value = none := if_neg (by simp [hq])
      rw [source_word hq, (word_code (needsQuoting_word hq) [] _).2, ih, List.filterMap_cons_none hvalue]
  | @lineComment rest body hbody hrest _ ih =>
    have hsource : (Piece.lineComment body).source ++ render rest = slash :: slash :: (body ++ render rest) := rfl
    rw [render_cons, hsource, values_lineComment, dropWhile_comment hbody hrest, List.filterMap_cons_none rfl, ih]
  | @blockComment rest body hbody _ ih =>
    have hsource : (Piece.blockComment body).source ++ render rest =
        slash :: asterisk :: (body ++ asterisk :: slash :: render rest) := by simp [Piece.source]
    rw [render_cons, hsource, List.filterMap_cons_none rfl, ← ih]
    exact values_blockComment (afterComment_body hbody _)
  | code hq hslash _ ih =>
    rw [List.filterMap_cons_none rfl, ← ih]
    exact values_code hq hslash

theorem value_formatStringLiteral (str : CodeUnits) : value (formatStringLiteral str) = some str := by
  obtain ⟨quote, text, hq, hspells, heq⟩ := formatStringLiteral_eq str
  rw [heq, value, if_pos hq, hspells.read]

theorem filterMap_value (pieces : List Piece) :
    (pieces.filter (·.value.isSome)).filterMap Piece.value = pieces.filterMap Piece.value := by
  rw [List.filterMap_filter]
  refine List.filterMap_congr fun piece _ => ?_
  cases h : piece.value <;> rfl

/-- A string is the value of its literal, and keeps it however often generated text is indented. -/
theorem indentContinuationLines_keepsLiterals (pieces : List Piece) (indents : List CodeUnits) (h : Generated pieces)
    (hi : ∀ indent ∈ indents, IsIndent indent) :
    (∀ str, value (formatStringLiteral str) = some str) ∧
      ∃ pieces', indents.foldl indentContinuationLines (render pieces) = render pieces' ∧ Generated pieces' ∧
        pieces'.filter (·.value.isSome) = pieces.filter (·.value.isSome) ∧
        values (render pieces) = some (pieces.filterMap Piece.value) ∧
        values (render pieces') = some (pieces.filterMap Piece.value) := by
  refine ⟨value_formatStringLiteral, ?_⟩
  suffices hrun : ∃ pieces', indents.foldl indentContinuationLines (render pieces) = render pieces' ∧
      Generated pieces' ∧
      pieces'.filter (·.value.isSome) = pieces.filter (·.value.isSome) by
    obtain ⟨pieces', hfold, h', hsame⟩ := hrun
    refine ⟨pieces', hfold, h', hsame, values_render h, ?_⟩
    rw [values_render h', ← filterMap_value pieces', hsame, filterMap_value]
  induction indents generalizing pieces with
  | nil => exact ⟨pieces, rfl, h, rfl⟩
  | cons indent indents ih =>
    have hfirst : indentContinuationLines (render pieces) indent = render (pieces.flatMap (indentPiece indent)) :=
      (indentContinuationLines_eq _ _).trans (indented_render indent h)
    obtain ⟨pieces', hfold, h', hsame⟩ := ih (pieces.flatMap (indentPiece indent))
      (generated_indent h (hi indent List.mem_cons_self)) fun next hnext => hi next (List.mem_cons_of_mem _ hnext)
    refine ⟨pieces', ?_, h', hsame.trans (literals_indent indent pieces)⟩
    rw [List.foldl_cons, hfirst, hfold]

/-- A quoted key, a template of two lines with a backtick in it, and a comment with an apostrophe, indented twice. -/
theorem indentContinuationLines_keepsLiterals_twice :
    let pieces : List Piece := [.key (ascii "a b"), .code 0x3A, .literal [0x61, lineFeed, backtick], .code lineFeed,
      .lineComment (ascii "it's"), .code lineFeed, .blockComment (ascii "*"), .literal (ascii "c")]
    (∀ str, value (formatStringLiteral str) = some str) ∧
      ∃ pieces', [[0x20, 0x20], [0x09]].foldl indentContinuationLines (render pieces) = render pieces' ∧
        Generated pieces' ∧ pieces'.filter (·.value.isSome) = pieces.filter (·.value.isSome) ∧
        values (render pieces) = some [ascii "a b", [0x61, lineFeed, backtick], ascii "c"] ∧
        values (render pieces') = some [ascii "a b", [0x61, lineFeed, backtick], ascii "c"] := by
  intro pieces
  have h : Generated pieces := by
    refine .key _ (.code (by decide) (by decide) (.literal _ (.code (by decide) (by decide) ?_)))
    refine .lineComment (by simp [ascii, isLineTerminator, lineFeed, carriageReturn]) (fun c hc => ?_)
      (.code (by decide) (by decide) (.blockComment (by decide) (.literal _ .nil)))
    exact (Option.some.inj hc).symm
  exact indentContinuationLines_keepsLiterals pieces [[0x20, 0x20], [0x09]] h
    (by simp [IsIndent, isQuote, singleQuote, doubleQuote, backtick, slash, asterisk])

end N8n.Codegen
