import N8n.Lib.CodeUnits

namespace N8n.Lib.StringLiteral

def lineFeed : UInt16 := 0x0A
def carriageReturn : UInt16 := 0x0D
def asterisk : UInt16 := 0x2A
def slash : UInt16 := 0x2F

def isLineTerminator (c : UInt16) : Bool := c ∈ [lineFeed, carriageReturn, 0x2028, 0x2029]

/-- The code point in at most two units. -/
def pointUnits (n : Nat) : CodeUnits :=
  if n < 0x10000 then [n.toUInt16]
  else [((n - 0x10000) / 0x400 + 0xD800).toUInt16, ((n - 0x10000) % 0x400 + 0xDC00).toUInt16]

def hexEscape (length : Nat) (text : CodeUnits) : Option (CodeUnits × CodeUnits) :=
  if text.length < length then none
  else (hexValue (text.take length)).map fun n => ([n.toUInt16], text.drop length)

def braceEscape (text : CodeUnits) : Option (CodeUnits × CodeUnits) :=
  match text.dropWhile (· ≠ closeBrace), hexValue (text.takeWhile (· ≠ closeBrace)) with
  | _ :: rest, some n => if n ≤ 0x10FFFF then some (pointUnits n, rest) else none
  | _, _ => none

/-- The letters with a meaning of their own after a backslash. Any other character stands for itself. -/
def escapedChar (c : UInt16) : UInt16 :=
  if c = 0x62 then 0x08 else if c = 0x66 then 0x0C else if c = 0x6E then lineFeed
  else if c = 0x72 then carriageReturn else if c = 0x74 then 0x09 else if c = 0x76 then 0x0B else c

/-- What the text after a backslash denotes, and the text after the escape sequence. A line break denotes nothing, and
of the digits only a zero that no digit follows may be escaped. -/
def escapeSequence : CodeUnits → Option (CodeUnits × CodeUnits)
  | [] => none
  | c :: rest =>
    if c = carriageReturn ∧ rest.head? = some lineFeed then some ([], rest.tail)
    else if isLineTerminator c then some ([], rest)
    else if c = 0x78 then hexEscape 2 rest
    else if c = 0x75 then
      if rest.head? = some openBrace then braceEscape rest.tail else hexEscape 4 rest
    else if isDigit c then
      if c = 0x30 ∧ ∀ d ∈ rest.head?, isDigit d = false then some ([0], rest) else none
    else some ([escapedChar c], rest)

def charValue (quote c : UInt16) (rest : CodeUnits) : Option CodeUnits :=
  if quote = backtick then
    if c = dollar ∧ rest.head? = some openBrace then none
    else if c = carriageReturn then some (if rest.head? = some lineFeed then [] else [lineFeed])
    else some [c]
  else if c = lineFeed ∨ c = carriageReturn then none
  else some [c]

theorem hexEscape_length {length : Nat} {text value rest : CodeUnits}
    (h : hexEscape length text = some (value, rest)) :
    rest.length ≤ text.length := by
  rw [hexEscape] at h
  split at h
  · cases h
  · obtain ⟨n, -, hn⟩ := Option.map_eq_some_iff.mp h
    cases hn
    simp

theorem hexDigit_of_hexValue {digits : CodeUnits} {n : Nat} (h : hexValue digits = some n) {c : UInt16}
    (hc : c ∈ digits) : (hexDigit c).isSome := by
  have hfold : ∀ (digits : CodeUnits) (m : Nat), c ∈ digits →
      (digits.foldlM (fun n c => (hexDigit c).map fun d => 16 * n + d) m).isSome → (hexDigit c).isSome := by
    intro digits
    induction digits with
    | nil => exact fun _ hc => absurd hc List.not_mem_nil
    | cons d digits ih =>
      intro m hc hsome
      rw [List.foldlM_cons] at hsome
      cases hd : hexDigit d with
      | none => rw [hd] at hsome; exact absurd hsome (by simp)
      | some value =>
        rw [hd] at hsome
        rcases List.mem_cons.mp hc with rfl | hc
        · rw [hd]; rfl
        · exact ih _ hc hsome
  rw [hexValue] at h
  split at h
  · cases h
  · exact hfold digits 0 hc (h ▸ rfl)

theorem hexEscape_append {digits : CodeUnits} {n : Nat} (h : hexValue digits = some n) (rest : CodeUnits) :
    hexEscape digits.length (digits ++ rest) = some ([n.toUInt16], rest) := by
  rw [hexEscape, if_neg (by simp), List.take_left, List.drop_left, h]
  rfl

theorem braceEscape_length {text value rest : CodeUnits} (h : braceEscape text = some (value, rest)) :
    rest.length ≤ text.length := by
  rw [braceEscape] at h
  split at h
  · rename_i c after n hdrop hn
    split at h
    · cases h
      have hlength := (List.dropWhile_suffix (l := text) (· ≠ closeBrace)).length_le
      rw [hdrop, List.length_cons] at hlength
      omega
    · cases h
  · cases h

theorem escapeSequence_length {text value rest : CodeUnits} (h : escapeSequence text = some (value, rest)) :
    rest.length < text.length := by
  cases text with
  | nil => cases h
  | cons c after =>
    rw [List.length_cons, Nat.lt_succ_iff]
    rw [escapeSequence] at h
    split at h
    · cases h
      simp
    split at h
    · cases h
      exact le_refl _
    split at h
    · exact hexEscape_length h
    split at h
    · split at h
      · refine (braceEscape_length h).trans ?_
        simp
      · exact hexEscape_length h
    split at h
    · split at h
      · cases h
        exact le_refl _
      · cases h
    · cases h
      exact le_refl _

theorem escapeSequence_char {c : UInt16} (hl : isLineTerminator c = false) (hx : c ≠ 0x78) (hu : c ≠ 0x75)
    (hd : isDigit c = false) (rest : CodeUnits) : escapeSequence (c :: rest) = some ([escapedChar c], rest) := by
  have hcr : c ≠ carriageReturn := by
    rintro rfl
    exact Bool.noConfusion hl
  rw [escapeSequence, if_neg fun h => hcr h.1, if_neg (by simp [hl]), if_neg hx, if_neg hu, if_neg (by simp [hd])]

theorem escapeSequence_unicode {digits : CodeUnits} {n : Nat} (hlength : digits.length = 4)
    (hbrace : digits.head? ≠ some openBrace) (h : hexValue digits = some n) (rest : CodeUnits) :
    escapeSequence (0x75 :: (digits ++ rest)) = some ([n.toUInt16], rest) := by
  have hhead : (digits ++ rest).head? ≠ some openBrace := by
    cases digits with
    | nil => cases hlength
    | cons d digits => exact hbrace
  rw [escapeSequence, if_neg (by simp [carriageReturn]), if_neg (by decide), if_neg (by decide), if_pos rfl,
    if_neg hhead,
    ← hlength, hexEscape_append h]

def body (quote : UInt16) (text : CodeUnits) : Option (CodeUnits × CodeUnits) :=
  match text with
  | [] => none
  | c :: rest =>
    if c = quote then some ([], rest)
    else if c = backslash then
      match _ : escapeSequence rest with
      | none => none
      | some (value, after) => (body quote after).map fun (v, r) => (value ++ v, r)
    else
      match charValue quote c rest with
      | none => none
      | some value => (body quote rest).map fun (v, r) => (value ++ v, r)
termination_by text.length
decreasing_by
  · rename_i h
    have hlength := escapeSequence_length h
    simp only [List.length_cons]
    omega
  · simp

def value : CodeUnits → Option CodeUnits
  | [] => none
  | c :: rest =>
    if isQuote c then
      match body c rest with
      | some (v, []) => some v
      | _ => none
    else none

theorem body_close (quote : UInt16) (rest : CodeUnits) : body quote (quote :: rest) = some ([], rest) := by
  rw [body, if_pos rfl]

theorem body_escape {quote : UInt16} {text value after : CodeUnits} (hq : quote ≠ backslash)
    (h : escapeSequence text = some (value, after)) :
    body quote (backslash :: text) = (body quote after).map fun p => (value ++ p.1, p.2) := by
  rw [body, if_neg hq.symm, if_pos rfl]
  split
  · rename_i hnone
    rw [h] at hnone
    cases hnone
  · rename_i hsome
    rw [h] at hsome
    cases hsome
    rfl

theorem body_char {quote c : UInt16} {rest value : CodeUnits} (hc : c ≠ quote) (hb : c ≠ backslash)
    (h : charValue quote c rest = some value) :
    body quote (c :: rest) = (body quote rest).map fun p => (value ++ p.1, p.2) := by
  rw [body, if_neg hc, if_neg hb, h]

theorem body_length {quote : UInt16} {text : CodeUnits} : ∀ {value rest : CodeUnits},
    body quote text = some (value, rest) → rest.length < text.length := by
  induction text using body.induct quote with
  | case1 => intro value rest h; rw [body] at h; cases h
  | case2 rest => intro value rest h; rw [body_close] at h; cases h; simp
  | case3 rest hnone hq =>
    intro value after h
    rw [body, if_neg hq, if_pos rfl] at h
    split at h
    · cases h
    · rename_i hsome
      rw [hnone] at hsome
      cases hsome
  | case4 rest value after hsome hq ih =>
    intro v r h
    rw [body_escape (fun heq => hq heq.symm) hsome] at h
    obtain ⟨⟨v', r'⟩, hbody, heq⟩ := Option.map_eq_some_iff.mp h
    cases heq
    have hlength := escapeSequence_length hsome
    have hshorter := ih hbody
    simp only [List.length_cons]
    omega
  | case5 c rest hc hb hnone =>
    intro value after h
    rw [body, if_neg hc, if_neg hb, hnone] at h
    cases h
  | case6 c rest hc hb value hsome ih =>
    intro v r h
    rw [body_char hc hb hsome] at h
    obtain ⟨⟨v', r'⟩, hbody, heq⟩ := Option.map_eq_some_iff.mp h
    cases heq
    exact (ih hbody).trans (Nat.lt_succ_self _)

def afterComment : CodeUnits → Option CodeUnits
  | a :: b :: rest => if a = asterisk ∧ b = slash then some rest else afterComment (b :: rest)
  | _ => none

theorem afterComment_length : ∀ {text rest : CodeUnits}, afterComment text = some rest → rest.length < text.length
  | [], _, h => by cases h
  | [_], _, h => by cases h
  | a :: b :: text, rest, h => by
      rw [afterComment] at h
      split at h
      · cases h
        simp only [List.length_cons]
        omega
      · exact (afterComment_length h).trans (Nat.lt_succ_self _)

/-- The values of the literals in the text of a module, in order, outside of its comments. Regular expressions are not
told from divisions. -/
def values (text : CodeUnits) : Option (List CodeUnits) :=
  match text with
  | [] => some []
  | c :: rest =>
    if isQuote c then
      match _ : body c rest with
      | none => none
      | some (value, after) => (values after).map (value :: ·)
    else if c = slash ∧ rest.head? = some slash then values (rest.dropWhile fun d => !isLineTerminator d)
    else if c = slash ∧ rest.head? = some asterisk then
      match _ : afterComment rest.tail with
      | none => none
      | some after => values after
    else values rest
termination_by text.length
decreasing_by
  · rename_i h
    have hlength := body_length h
    simp only [List.length_cons]
    omega
  · have hlength := (List.dropWhile_suffix (l := rest) fun d => !isLineTerminator d).length_le
    simp only [List.length_cons]
    omega
  · rename_i h
    have hlength := afterComment_length h
    simp only [List.length_tail] at hlength
    simp only [List.length_cons]
    omega
  · simp

theorem values_literal {quote : UInt16} {text value after : CodeUnits} (hq : isQuote quote = true)
    (h : body quote text = some (value, after)) : values (quote :: text) = (values after).map (value :: ·) := by
  rw [values, if_pos hq]
  split
  · rename_i hnone
    rw [h] at hnone
    cases hnone
  · rename_i hsome
    rw [h] at hsome
    cases hsome
    rfl

theorem values_lineComment (text : CodeUnits) :
    values (slash :: slash :: text) = values (text.dropWhile fun d => !isLineTerminator d) := by
  rw [values, if_neg (by decide), if_pos ⟨rfl, rfl⟩, List.dropWhile_cons_of_pos (by decide)]

theorem values_blockComment {text after : CodeUnits} (h : afterComment text = some after) :
    values (slash :: asterisk :: text) = values after := by
  rw [values, if_neg (by decide), if_neg (by simp [slash, asterisk]), if_pos ⟨rfl, rfl⟩]
  split
  · rename_i hnone
    rw [List.tail_cons, h] at hnone
    cases hnone
  · rename_i hsome
    rw [List.tail_cons, h] at hsome
    cases hsome
    rfl

theorem values_code {c : UInt16} {rest : CodeUnits} (hc : isQuote c = false)
    (hslash : c = slash → rest.head? ≠ some slash ∧ rest.head? ≠ some asterisk) :
      values (c :: rest) = values rest := by
  rw [values, if_neg (by simp [hc]), if_neg fun h => (hslash h.1).1 h.2, if_neg fun h => (hslash h.1).2 h.2]

end N8n.Lib.StringLiteral
