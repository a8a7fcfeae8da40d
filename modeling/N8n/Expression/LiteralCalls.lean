import N8n.Expression.FromAIOnly

namespace N8n.FromAI

open N8n.Lib

def isHexDigit (c : UInt16) : Bool := (hexDigit c).isSome
def isOctalDigit (c : UInt16) : Bool := 0x30 ≤ c && c ≤ 0x37
def isBinaryDigit (c : UInt16) : Bool := c = 0x30 || c = 0x31

def isExponent : CodeUnits → Bool
  | [] => true
  | e :: rest =>
    let digits := if rest.head? = some minus ∨ rest.head? = some 0x2B then rest.tail else rest
    lower e = 0x65 && digits ≠ [] && digits.all isDigit

/-- After a leading zero, octal digits alone make an octal integer, which nothing may follow; with an 8 or a 9 the
digits are decimal, and a fraction or an exponent may follow. A big integer has no leading zero. -/
def isDecimal (text : CodeUnits) : Bool :=
  let int := text.takeWhile isDigit
  let zeros := 1 < int.length && int.head? = some 0x30
  let octal := zeros && int.all isOctalDigit
  match text.dropWhile isDigit with
  | [] => int ≠ []
  | c :: rest =>
    if c = dot then
      (int ≠ [] || rest.takeWhile isDigit ≠ []) && !octal && isExponent (rest.dropWhile isDigit)
    else if c = 0x6E then int ≠ [] && !zeros && rest = []
    else int ≠ [] && !octal && isExponent (c :: rest)

def isRadix (letter : UInt16) (digit : UInt16 → Bool) : CodeUnits → Bool
  | zero :: c :: rest =>
    let digits := if rest.getLast? = some 0x6E then rest.dropLast else rest
    zero = 0x30 && lower c = letter && digits ≠ [] && digits.all digit
  | _ => false

def isNumber (text : CodeUnits) : Bool :=
  let unsigned := if text.head? = some minus then text.tail.dropWhile isSpace else text
  isDecimal unsigned || isRadix 0x78 isHexDigit unsigned || isRadix 0x6F isOctalDigit unsigned ||
    isRadix 0x62 isBinaryDigit unsigned

def isBoolean (text : CodeUnits) : Bool := text = ascii "true" || text = ascii "false"

/-- Whether the escape that a backslash and `c` begin is well formed, given what follows. -/
def isEscape (quote c : UInt16) (rest : CodeUnits) : Bool :=
  if c = 0x78 then (rest.take 2).length = 2 && (rest.take 2).all isHexDigit
  else if c = 0x75 then
    if rest.head? = some openBrace then
      let digits := rest.tail.takeWhile isHexDigit
      (hexValue digits).any (· ≤ 0x10FFFF) && (rest.tail.dropWhile isHexDigit).head? = some 0x7D
    else (rest.take 4).length = 4 && (rest.take 4).all isHexDigit
  else if quote = backtick && isDigit c then c = 0x30 && !(rest.head?.any isDigit)
  else true

def isLineEnd (c : UInt16) : Bool := c = 0x0A || c = 0x0D

/-- The escapes of a string are well formed, and only a template literal goes over a line end. The flag says that a
carriage return was escaped just before. -/
def wellFormed (quote : UInt16) : Bool → CodeUnits → Bool
  | afterReturn, a :: b :: rest =>
    if a = backslash then isEscape quote b rest && wellFormed quote (b = 0x0D) rest
    else (quote = backtick || !isLineEnd a || afterReturn && a = 0x0A) && wellFormed quote false (b :: rest)
  | afterReturn, [a] => quote = backtick || !isLineEnd a || afterReturn && a = 0x0A
  | _, [] => true

/-- An argument is empty, or a string literal without interpolation, or a number or a boolean. -/
def Literal (arg : List Item) : Prop :=
  trimItems arg = [] ∨
  (∃ quote body, trimItems arg = [.quoted quote body] ∧ (quote = backtick → interpolates body = false) ∧
    wellFormed quote false body = true) ∨
  ∃ text, trimItems arg = text.map .bare ∧ (isNumber text || isBoolean text) = true

/-- An argument with text outside of quotes that is no number and no boolean, or with a string that is no literal, or
with a string and something beside it. -/
def Odd (arg : List Item) : Prop :=
  (∃ text, text ≠ [] ∧ trimItems arg = text.map .bare ∧ (isNumber text || isBoolean text) = false) ∨
  (∃ quote body, trimItems arg = [.quoted quote body] ∧ wellFormed quote false body = false) ∨
  1 < (trimItems arg).length ∧ ∃ quote body, Item.quoted quote body ∈ trimItems arg

def IsLiteralCall (str : CodeUnits) : Prop := ∃ items, IsCall str items ∧ ∀ arg ∈ arguments items, Literal arg

/-- The items that the scan lets through, given the last character outside of quotes: letters, digits, points, minus
signs and white space, and strings; a template literal without interpolation and not after a word. -/
def Admissible : Option UInt16 → List Item → Prop
  | _, [] => True
  | last, .bare c :: items => isLiteralChar c = true ∧ Admissible (if isSpace c then last else some c) items
  | last, .quoted quote body :: items =>
    (quote = backtick → isWord last = false ∧ interpolates body = false) ∧ Admissible (some quote) items

def IsOddCall (str : CodeUnits) : Prop :=
  ∃ items, IsCall str items ∧ Admissible none items ∧ ∃ arg ∈ arguments items, Odd arg

theorem interpolates_escaped (c : UInt16) (body : CodeUnits) :
    interpolates (backslash :: c :: body) = interpolates body := by
  rw [interpolates, if_pos rfl]

variable {body : CodeUnits} {items : List Item} {quote : UInt16}

theorem interpolates_plain {c : UInt16} (hc : c ≠ backslash) :
    interpolates (c :: body) = (c = dollar && body.head? = some openBrace || interpolates body) := by
  cases body with
  | nil => simp [interpolates]
  | cons d body => simp [interpolates, hc]

theorem scan_escaped (quote : UInt16) (last : Option UInt16) (c : UInt16) (text : CodeUnits) :
    scan (some quote) last (backslash :: c :: text) = scan (some quote) last text := by
  rw [scan, if_pos rfl]

theorem scan_plain {c : UInt16} (last : Option UInt16) {text : CodeUnits} (hc : c ≠ backslash)
    (ht : text ≠ []) :
    scan (some quote) last (c :: text) =
      if quote = backtick ∧ c = dollar ∧ text.head? = some openBrace then none
      else scan (if c = quote then none else some quote) last text := by
  cases text with
  | nil => exact absurd rfl ht
  | cons d text => simp [scan, hc]

theorem scan_body (last : Option UInt16) (text : CodeUnits)
    (hq : isQuote quote = true) (hbody : Body quote body) :
    scan (some quote) last (body ++ quote :: text) =
      if quote = backtick ∧ interpolates body = true then none else scan none last text := by
  have hback : quote ≠ backslash := by
    rintro rfl
    exact absurd hq (by decide)
  have hbrace : quote ≠ openBrace := by
    rintro rfl
    exact absurd hq (by decide)
  have hdollar : quote ≠ dollar := by
    rintro rfl
    exact absurd hq (by decide)
  induction hbody with
  | nil =>
    cases text with
    | nil => simp [scan, interpolates]
    | cons d text =>
      rw [List.nil_append, scan_plain last hback (List.cons_ne_nil _ _)]
      simp [interpolates, hdollar]
  | escaped c _ ih =>
    rw [interpolates_escaped, ← ih, List.cons_append, List.cons_append]
    exact scan_escaped quote last c _
  | @plain body c hc hne _ ih =>
    have hhead : (body ++ quote :: text).head? = some openBrace ↔ body.head? = some openBrace := by
      cases body <;> simp [hbrace]
    rw [List.cons_append, scan_plain last hc (by simp), if_neg hne, ih, interpolates_plain hc]
    simp only [hhead]
    by_cases hstop : quote = backtick ∧ c = dollar ∧ body.head? = some openBrace
    · simp [hstop]
    · rw [if_neg hstop]
      congr 1
      simp only [eq_iff_iff, Bool.or_eq_true, Bool.and_eq_true, decide_eq_true_eq]
      tauto

theorem body_of_scan {last : Option UInt16} {rest : CodeUnits} (hq : isQuote quote = true) :
    ∀ {text : CodeUnits}, scan (some quote) last text = some rest →
      ∃ body tail, text = body ++ quote :: tail ∧ Body quote body
  | [], h => by simp [scan] at h
  | [c], h => by simp [scan] at h
  | c :: d :: text, h => by
      by_cases hc : c = backslash
      · subst hc
        rw [scan_escaped] at h
        obtain ⟨body, tail, rfl, hbody⟩ := body_of_scan hq h
        exact ⟨backslash :: d :: body, tail, rfl, .escaped d hbody⟩
      · by_cases hend : c = quote
        · subst hend
          exact ⟨[], d :: text, rfl, .nil⟩
        · rw [scan_plain last hc (List.cons_ne_nil _ _), if_neg hend] at h
          split_ifs at h
          obtain ⟨body, tail, htext, hbody⟩ := body_of_scan hq h
          exact ⟨c :: body, tail, by rw [htext, List.cons_append], .plain hc hend hbody⟩

theorem scan_of_reads {last : Option UInt16} {text rest : CodeUnits} (h : Reads items text rest)
    (ha : Admissible last items) : scan none last text = some rest := by
  induction h generalizing last with
  | close rest => rfl
  | bare hq hp _ ih => simpa [scan, hq, hp, ha.1] using ih ha.2
  | @quoted items body text rest quote hq hbody _ ih =>
    have hopen : ¬ (quote = backtick ∧ isWord last = true) := fun hw => by
      rw [(ha.1 hw.1).1] at hw
      exact Bool.false_ne_true hw.2
    have hbod : ¬ (quote = backtick ∧ interpolates body = true) := fun hw => by
      rw [(ha.1 hw.1).2] at hw
      exact Bool.false_ne_true hw.2
    rw [scan, if_pos hq, if_neg hopen, scan_body _ _ hq hbody, if_neg hbod]
    exact ih ha.2

theorem reads_of_scan {last : Option UInt16} {text rest : CodeUnits} (h : scan none last text = some rest) :
    ∃ items, Reads items text rest ∧ Admissible last items := by
  match text with
  | [] => exact nomatch h
  | c :: text =>
    by_cases hq : isQuote c = true
    · rw [scan, if_pos hq] at h
      split_ifs at h with hword
      obtain ⟨body, tail, rfl, hbody⟩ := body_of_scan hq h
      rw [scan_body _ _ hq hbody] at h
      split_ifs at h with hinter
      obtain ⟨items, hreads, ha⟩ := reads_of_scan h
      refine ⟨.quoted c body :: items, .quoted hq hbody hreads, fun hb => ?_, ha⟩
      exact ⟨by simpa [hb] using hword, by simpa [hb] using hinter⟩
    · by_cases hp : c = closeParen
      · rw [scan, if_neg hq, if_pos hp] at h
        obtain rfl := Option.some.inj h
        subst hp
        exact ⟨[], .close text, trivial⟩
      · by_cases hchar : isLiteralChar c = true
        · rw [scan, if_neg hq, if_neg hp, if_pos hchar] at h
          obtain ⟨items, hreads, ha⟩ := reads_of_scan h
          exact ⟨.bare c :: items, .bare (by simpa using hq) hp hreads, hchar, ha⟩
        · rw [scan, if_neg hq, if_neg hp, if_neg hchar] at h
          exact nomatch h
termination_by text.length
decreasing_by all_goals (subst_vars; simp <;> omega)

theorem body_unique {body' tail tail' : CodeUnits} (hq : quote ≠ backslash)
    (h : Body quote body) (h' : Body quote body') (heq : body ++ quote :: tail = body' ++ quote :: tail') :
    body = body' ∧ tail = tail' := by
  induction h generalizing body' with
  | nil =>
    cases h' with
    | nil => exact ⟨rfl, (List.cons.inj heq).2⟩
    | escaped c _ => exact absurd (List.cons.inj heq).1 hq
    | plain _ hne _ => exact absurd (List.cons.inj heq).1.symm hne
  | escaped c _ ih =>
    cases h' with
    | nil => exact absurd (List.cons.inj heq).1.symm hq
    | escaped d hbody =>
      obtain ⟨rfl, hrest⟩ := List.cons.inj (List.cons.inj heq).2
      obtain ⟨rfl, rfl⟩ := ih hbody hrest
      exact ⟨rfl, rfl⟩
    | plain hd _ _ => exact absurd (List.cons.inj heq).1.symm hd
  | plain hc hne _ ih =>
    cases h' with
    | nil => exact absurd (List.cons.inj heq).1 hne
    | escaped d _ => exact absurd (List.cons.inj heq).1 hc
    | plain _ _ hbody =>
      obtain ⟨rfl, hrest⟩ := List.cons.inj heq
      obtain ⟨rfl, rfl⟩ := ih hbody hrest
      exact ⟨rfl, rfl⟩

theorem reads_unique {items' : List Item} {text rest rest' : CodeUnits} (h : Reads items text rest)
    (h' : Reads items' text rest') : items = items' ∧ rest = rest' := by
  induction h generalizing items' with
  | close rest =>
    cases h' with
    | close => exact ⟨rfl, rfl⟩
    | bare _ hp _ => exact absurd rfl hp
    | quoted hq _ _ => exact absurd hq (by decide)
  | bare hq hp _ ih =>
    cases h' with
    | close => exact absurd rfl hp
    | bare _ _ hreads =>
      obtain ⟨rfl, rfl⟩ := ih hreads
      exact ⟨rfl, rfl⟩
    | quoted hq' _ _ => exact absurd hq' (by simp [hq])
  | @quoted items body text rest quote hq hbody _ ih =>
    generalize htext : quote :: (body ++ quote :: text) = whole at h'
    cases h' with
    | close =>
      obtain ⟨rfl, -⟩ := List.cons.inj htext
      exact absurd hq (by decide)
    | bare hq' _ _ =>
      obtain ⟨rfl, -⟩ := List.cons.inj htext
      exact absurd hq (by simp [hq'])
    | quoted _ hbody' hreads =>
      obtain ⟨rfl, hrest⟩ := List.cons.inj htext
      have hback : quote ≠ backslash := by
        rintro rfl
        exact absurd hq (by decide)
      obtain ⟨rfl, rfl⟩ := body_unique hback hbody hbody' hrest
      obtain ⟨rfl, rfl⟩ := ih hreads
      exact ⟨rfl, rfl⟩

theorem fromAIPattern_iff (str text : CodeUnits) :
    fromAIPattern str = some text ↔
      ∃ name gap, str = name ++ (gap ++ openParen :: text) ∧ name.map lower = ascii "$fromai" ∧ Blank gap := by
  constructor
  · intro h
    rw [fromAIPattern] at h
    split_ifs at h with hname
    refine ⟨str.take 7, (str.drop 7).takeWhile isSpace, ?_, hname, fun c hc => List.mem_takeWhile_imp hc⟩
    match hrest : (str.drop 7).dropWhile isSpace with
    | [] => simp [hrest] at h
    | c :: rest =>
      simp only [hrest] at h
      split_ifs at h with hc
      rw [Option.some.injEq] at h
      rw [← h, ← hc, ← hrest, List.takeWhile_append_dropWhile, List.take_append_drop]
  · rintro ⟨name, gap, rfl, hname, hgap⟩
    have hlen : name.length = 7 := by
      have hlower : (name.map lower).length = 7 := by
        rw [hname]
        rfl
      rwa [List.length_map] at hlower
    have hspace : isSpace openParen = false := by decide
    have hdrop : (gap ++ openParen :: text).dropWhile isSpace = openParen :: text := by
      rw [List.dropWhile_append_of_pos hgap, List.dropWhile_cons_of_neg (by simp [hspace])]
    rw [fromAIPattern, ← hlen, List.take_left, List.drop_left, if_pos hname, hdrop]
    simp

theorem isCall_iff (str : CodeUnits) (items : List Item) :
    IsCall str items ↔ ∃ text rest, fromAIPattern str = some text ∧ Reads items text rest ∧ Blank rest := by
  simp only [fromAIPattern_iff]
  constructor
  · rintro ⟨name, gap, text, rest, hstr, hname, hgap, hreads, hrest⟩
    exact ⟨text, rest, ⟨name, gap, hstr, hname, hgap⟩, hreads, hrest⟩
  · rintro ⟨text, rest, ⟨name, gap, hstr, hname, hgap⟩, hreads, hrest⟩
    exact ⟨name, gap, text, rest, hstr, hname, hgap, hreads, hrest⟩

theorem isCall_unique {str : CodeUnits} {items' : List Item} (h : IsCall str items) (h' : IsCall str items') :
    items = items' := by
  rw [isCall_iff] at h h'
  obtain ⟨text, rest, htext, hreads, -⟩ := h
  obtain ⟨text', rest', htext', hreads', -⟩ := h'
  obtain rfl := Option.some.inj (htext.symm.trans htext')
  exact (reads_unique hreads hreads').1

theorem isFromAIOnlyExpression_iff (expr : CodeUnits) :
    isFromAIOnlyExpression expr = true ↔ ∃ items, IsCall (stripped expr) items ∧ Admissible none items := by
  simp only [isCall_iff, isFromAIOnlyExpression]
  constructor
  · intro h
    match hp : fromAIPattern (stripped expr) with
    | none => simp [hp] at h
    | some text =>
      match hs : scan none none text with
      | none => simp [hp, hs] at h
      | some rest =>
        have hblank : Blank rest := by simpa [hp, hs, trim_eq_nil_iff] using h
        obtain ⟨items, hreads, ha⟩ := reads_of_scan hs
        exact ⟨items, ⟨text, rest, rfl, hreads, hblank⟩, ha⟩
  · rintro ⟨items, ⟨text, rest, hp, hreads, hblank⟩, ha⟩
    simp [hp, scan_of_reads hreads ha, trim_eq_nil_iff, hblank]

theorem admissible_strings {last : Option UInt16} (h : Admissible last items) (hm : Item.quoted quote body ∈ items) :
    quote = backtick → interpolates body = false := by
  induction items generalizing last with
  | nil => exact absurd hm List.not_mem_nil
  | cons item items ih =>
    cases item with
    | bare c => exact ih h.2 ((List.mem_cons.1 hm).resolve_left (by simp))
    | quoted q b =>
      rcases List.mem_cons.1 hm with heq | hm
      · obtain ⟨rfl, rfl⟩ := Item.quoted.inj heq
        exact fun hb => (h.1 hb).2
      · exact ih h.2 hm

theorem mem_arguments {arg : List Item} (h : arg ∈ arguments items) {item : Item} (hm : item ∈ arg) : item ∈ items := by
  induction items generalizing arg with
  | nil =>
    obtain rfl := List.mem_singleton.1 h
    exact hm
  | cons first items ih =>
    rw [arguments] at h
    split_ifs at h
    · rcases List.mem_cons.1 h with rfl | h
      · exact absurd hm List.not_mem_nil
      · exact List.mem_cons_of_mem _ (ih h hm)
    · match hrest : arguments items with
      | [] => simp [hrest] at h
      | a :: others =>
        rw [hrest] at ih h
        rcases List.mem_cons.1 h with rfl | h
        · rcases List.mem_cons.1 hm with rfl | hm
          · exact List.mem_cons_self
          · exact List.mem_cons_of_mem _ (ih List.mem_cons_self hm)
        · exact List.mem_cons_of_mem _ (ih (List.mem_cons_of_mem _ h) hm)

theorem mem_trimItems {arg : List Item} {item : Item} (h : item ∈ trimItems arg) : item ∈ arg :=
  List.dropWhile_subset _ ((List.rdropWhile_prefix Item.isSpace (arg.dropWhile Item.isSpace)).subset h)

theorem bare_or_string (items : List Item) :
    (∃ text : CodeUnits, items = text.map .bare) ∨ ∃ quote body, Item.quoted quote body ∈ items := by
  induction items with
  | nil => exact .inl ⟨[], rfl⟩
  | cons item items ih =>
    cases item with
    | quoted quote body => exact .inr ⟨quote, body, List.mem_cons_self⟩
    | bare c =>
      rcases ih with ⟨text, rfl⟩ | ⟨quote, body, hm⟩
      · exact .inl ⟨c :: text, rfl⟩
      · exact .inr ⟨quote, body, List.mem_cons_of_mem _ hm⟩

theorem bare_inj {text text' : CodeUnits} (h : text.map Item.bare = text'.map Item.bare) : text = text' :=
  List.map_injective_iff.2 (fun _ _ => Item.bare.inj) h

theorem string_not_bare {text : CodeUnits} (h : Item.quoted quote body ∈ text.map Item.bare) : False := by
  obtain ⟨c, -, hc⟩ := List.mem_map.1 h
  exact nomatch hc

theorem literal_iff_not_odd {arg : List Item}
    (h : ∀ quote body, Item.quoted quote body ∈ arg → quote = backtick → interpolates body = false) :
    Literal arg ↔ ¬ Odd arg := by
  have htrim : ∀ item ∈ trimItems arg, item ∈ arg := fun item hm => mem_trimItems hm
  rw [Literal, Odd]
  generalize trimItems arg = a at htrim
  rcases bare_or_string a with ⟨text, rfl⟩ | ⟨quote, body, hm⟩
  · have hstring : ∀ quote body, text.map Item.bare ≠ [.quoted quote body] := fun quote body heq =>
      string_not_bare (heq ▸ List.mem_singleton_self _)
    constructor
    · rintro (hnil | ⟨quote, body, heq, -⟩ | ⟨text', heq, hlit⟩)
        (⟨text'', hne, heq', hodd⟩ | ⟨q, b, heq', -⟩ | ⟨-, q, b, hm⟩)
      · exact hne (List.map_eq_nil_iff.1 (heq'.symm.trans hnil))
      · exact hstring q b heq'
      · exact string_not_bare hm
      · exact hstring quote body heq
      · exact hstring quote body heq
      · exact hstring quote body heq
      · rw [← bare_inj (heq.symm.trans heq'), hlit] at hodd
        exact Bool.noConfusion hodd
      · exact hstring q b heq'
      · exact string_not_bare hm
    · intro hodd
      by_cases hnil : text = []
      · exact .inl (by rw [hnil]; rfl)
      · refine .inr (.inr ⟨text, rfl, ?_⟩)
        by_contra hlit
        exact hodd (.inl ⟨text, hnil, rfl, Bool.eq_false_iff.2 hlit⟩)
  · match a, hm with
    | [.quoted q b], _ =>
      have hinter := h q b (htrim _ List.mem_cons_self)
      constructor
      · rintro (hnil | ⟨quote, body, heq, -, hwell⟩ | ⟨text, heq, -⟩) hodd
        · exact nomatch hnil
        · obtain ⟨rfl, rfl⟩ := Item.quoted.inj (List.cons.inj heq).1
          rcases hodd with ⟨text, -, heq', -⟩ | ⟨q', b', heq', hill⟩ | ⟨hlt, -⟩
          · exact string_not_bare (heq' ▸ List.mem_singleton_self _)
          · obtain ⟨rfl, rfl⟩ := Item.quoted.inj (List.cons.inj heq').1
            rw [hwell] at hill
            exact Bool.noConfusion hill
          · exact absurd hlt (by simp)
        · exact string_not_bare (heq ▸ List.mem_singleton_self _)
      · intro hodd
        refine .inr (.inl ⟨q, b, rfl, hinter, ?_⟩)
        by_contra hill
        exact hodd (.inr (.inl ⟨q, b, rfl, Bool.eq_false_iff.2 hill⟩))
    | x :: y :: rest, hm =>
      refine iff_of_false ?_ (fun hodd => hodd (.inr (.inr ⟨by simp, quote, body, hm⟩)))
      rintro (hnil | ⟨q, b, heq, -⟩ | ⟨text, heq, -⟩)
      · exact nomatch hnil
      · exact nomatch heq
      · exact string_not_bare (heq ▸ hm)

/-- Whatever is accepted is a literal call, exactly when the text is no odd call. -/
theorem literal_calls_iff (expr : CodeUnits) :
    (isFromAIOnlyExpression expr = true → IsLiteralCall (stripped expr)) ↔ ¬ IsOddCall (stripped expr) := by
  have hargs : ∀ items, Admissible none items → ∀ arg ∈ arguments items, (Literal arg ↔ ¬ Odd arg) :=
    fun items ha arg harg => literal_iff_not_odd fun _ _ hm => admissible_strings ha (mem_arguments harg hm)
  constructor
  · rintro h ⟨items, hcall, ha, arg, harg, hodd⟩
    obtain ⟨items', hcall', hlit⟩ := h ((isFromAIOnlyExpression_iff expr).2 ⟨items, hcall, ha⟩)
    obtain rfl := isCall_unique hcall hcall'
    exact (hargs items ha arg harg).1 (hlit arg harg) hodd
  · intro h haccept
    obtain ⟨items, hcall, ha⟩ := (isFromAIOnlyExpression_iff expr).1 haccept
    refine ⟨items, hcall, fun arg harg => (hargs items ha arg harg).2 fun hodd => ?_⟩
    exact h ⟨items, hcall, ha, arg, harg, hodd⟩

theorem reads_bare {text : CodeUnits} (h : ∀ c ∈ text, isQuote c = false ∧ c ≠ closeParen) (rest : CodeUnits) :
    Reads (text.map .bare) (text ++ closeParen :: rest) rest := by
  induction text with
  | nil => exact .close rest
  | cons c text ih =>
    obtain ⟨hq, hp⟩ := h c List.mem_cons_self
    exact .bare hq hp (ih fun d hd => h d (List.mem_cons_of_mem _ hd))

/-- The property of a variable passes for a number. -/
theorem member_access_accepted :
    isFromAIOnlyExpression (ascii "=\x7b\x7b $fromAI(process.env.SECRET) \x7d\x7d") = true ∧
    ¬ IsLiteralCall (stripped (ascii "=\x7b\x7b $fromAI(process.env.SECRET) \x7d\x7d")) := by
  refine ⟨by decide +kernel, ?_⟩
  have hstr : stripped (ascii "=\x7b\x7b $fromAI(process.env.SECRET) \x7d\x7d") =
      ascii "$fromAI" ++ ([] ++ openParen :: (ascii "process.env.SECRET" ++ [closeParen])) := by decide +kernel
  have hplain : (ascii "process.env.SECRET").all (fun c => !isQuote c && c != closeParen) = true := by decide +kernel
  have hbare : ∀ c ∈ ascii "process.env.SECRET", isQuote c = false ∧ c ≠ closeParen := fun c hc => by
    simpa using List.all_eq_true.1 hplain c hc
  have hcall : IsCall (stripped (ascii "=\x7b\x7b $fromAI(process.env.SECRET) \x7d\x7d"))
      ((ascii "process.env.SECRET").map .bare) :=
    ⟨ascii "$fromAI", [], _, [], hstr, by decide +kernel, fun _ hc => absurd hc List.not_mem_nil,
      reads_bare hbare [], fun _ hc => absurd hc List.not_mem_nil⟩
  rintro ⟨items, hcall', hlit⟩
  obtain rfl := isCall_unique hcall hcall'
  have hodd : Odd ((ascii "process.env.SECRET").map .bare) :=
    .inl ⟨ascii "process.env.SECRET", by decide +kernel, by decide +kernel, by decide +kernel⟩
  exact (literal_iff_not_odd fun _ _ hm => (string_not_bare hm).elim).1 (hlit _ (by decide +kernel)) hodd

end N8n.FromAI
