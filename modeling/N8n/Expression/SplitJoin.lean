import N8n.Expression.SplitExpression

namespace N8n.ExpressionParser

open N8n.Lib

/-- The units of an expression, as text and code read them. -/
inductive Token where
  | text (c : UInt16)
  | code (c : UInt16)
  | escapedOpen
  | opening
  | escapedClose
  | closing
  deriving DecidableEq

@[grind =] def SearchingFor.plain : SearchingFor → UInt16 → Token
  | .open => .text
  | .close => .code

def SearchingFor.escaped : SearchingFor → Token
  | .open => .escapedOpen
  | .close => .escapedClose

def SearchingFor.bracket : SearchingFor → Token
  | .open => .opening
  | .close => .closing

def SearchingFor.other : SearchingFor → SearchingFor
  | .open => .close
  | .close => .open

@[grind =] def tokens : SearchingFor → CodeUnits → List Token
  | _, [] => []
  | s, [a] => [s.plain a]
  | s, [a, b] => if a = s.brace ∧ b = s.brace then [s.bracket] else [s.plain a, s.plain b]
  | s, a :: b :: c :: rest =>
    if a = backslash ∧ b = s.brace ∧ c = s.brace then s.escaped :: tokens s rest
    else if a = s.brace ∧ b = s.brace then s.bracket :: tokens s.other (c :: rest)
    else s.plain a :: tokens s (b :: c :: rest)

/-- In no code chunk does the first escaped bracket directly follow a closing brace. The flag says whether the chunk at
hand has had an escaped bracket. -/
@[grind =] def Restorable : Bool → List Token → Prop
  | _, [] => True
  | seen, .code c :: .escapedClose :: rest => (c = closeBrace → seen = true) ∧ Restorable true rest
  | _, .escapedClose :: rest => Restorable true rest
  | _, .closing :: rest => Restorable false rest
  | seen, _ :: rest => Restorable seen rest

@[grind =] def Dangling (ts : List Token) : Prop :=
  ts.getLast? = some .opening ∨ ts.getLast? = some .escapedOpen ∨ ts.getLast? = some .escapedClose

theorem brace_ne_backslash (s : SearchingFor) : s.brace ≠ backslash := by
  cases s <;> decide

theorem tokens_escape (s : SearchingFor) (rest : CodeUnits) :
    tokens s (backslash :: s.brackets ++ rest) = s.escaped :: tokens s rest := by
  simp [SearchingFor.brackets, tokens]

theorem tokens_bracket (s : SearchingFor) (rest : CodeUnits) :
    tokens s (s.brackets ++ rest) = s.bracket :: tokens s.other rest := by
  cases rest with
  | nil => simp [SearchingFor.brackets, tokens]
  | cons c rest => simp [SearchingFor.brackets, tokens, brace_ne_backslash]

variable {s : SearchingFor} {rest before : CodeUnits}

theorem tokens_plain {c : UInt16}
    (hesc : ¬ (c = backslash ∧ s.brackets <+: rest)) (hhead : ¬ s.brackets <+: c :: rest) :
    tokens s (c :: rest) = s.plain c :: tokens s rest := by
  match rest with
  | [] => rfl
  | [b] =>
    have hne : ¬ (c = s.brace ∧ b = s.brace) := by
      rintro ⟨rfl, rfl⟩
      exact hhead (List.prefix_refl _)
    simp [tokens, hne]
  | b :: d :: rest =>
    have hne : ¬ (c = s.brace ∧ b = s.brace) := by
      rintro ⟨rfl, rfl⟩
      exact hhead (List.prefix_append s.brackets (d :: rest))
    have hne' : ¬ (c = backslash ∧ b = s.brace ∧ d = s.brace) := by
      rintro ⟨rfl, rfl, rfl⟩
      exact hesc ⟨rfl, List.prefix_append s.brackets rest⟩
    rw [tokens, if_neg hne', if_neg hne]

theorem tokens_none : ∀ {expr : CodeUnits}, s.exec expr = none → tokens s expr = expr.map s.plain
  | [], _ => rfl
  | c :: rest, h => by
      rw [SearchingFor.exec] at h
      split_ifs at h with hesc hhead
      have hrest : s.exec rest = none := Option.map_eq_none_iff.1 h
      rw [tokens_plain hesc hhead, tokens_none hrest, List.map_cons]

theorem tokens_some : ∀ {expr : CodeUnits} {res : BracketMatch}, s.exec expr = some res →
    tokens s expr = (expr.take res.index).map s.plain ++ tokens s (expr.drop res.index)
  | [], res, h => by simp [SearchingFor.exec] at h
  | c :: rest, res, h => by
      rw [SearchingFor.exec] at h
      split_ifs at h with hesc hhead
      · cases h
        rfl
      · cases h
        rfl
      · obtain ⟨found, hfound, rfl⟩ := Option.map_eq_some_iff.1 h
        rw [tokens_plain hesc hhead, tokens_some hfound]
        rfl

theorem tokens_ne_nil {expr : CodeUnits} (h : expr ≠ []) : tokens s expr ≠ [] := by
  match expr with
  | [a] => exact List.cons_ne_nil _ _
  | [a, b] =>
    rw [tokens]
    split_ifs <;> exact List.cons_ne_nil _ _
  | a :: b :: c :: rest =>
    rw [tokens]
    split_ifs <;> exact List.cons_ne_nil _ _

theorem brackets_at (s : SearchingFor) (l : CodeUnits) (k : Nat) :
    s.brackets <+: l.drop k ↔ l[k]? = some s.brace ∧ l[k + 1]? = some s.brace := by
  rw [← List.head?_drop, ← List.head?_drop, ← List.drop_drop]
  match h : l.drop k with
  | [] => simp [SearchingFor.brackets]
  | [a] => simp [SearchingFor.brackets]
  | a :: b :: rest => simp [SearchingFor.brackets, eq_comm]

theorem escapeCode_at
    (h : ∀ k < before.length, ¬ SearchingFor.close.brackets <+:
      (before ++ (backslash :: SearchingFor.close.brackets ++ rest)).drop k) :
    escapeCode (before ++ (backslash :: SearchingFor.close.brackets ++ rest)) =
      before ++ (SearchingFor.close.brackets ++ rest) := by
  apply replaceFirst_at
  intro k hk hat
  have hnext : SearchingFor.close.brackets <+:
      (before ++ (backslash :: SearchingFor.close.brackets ++ rest)).drop (k + 1) := by
    obtain ⟨post, hpost⟩ := hat
    rw [← List.drop_drop, ← hpost]
    exact List.prefix_append _ post
  rcases Nat.lt_or_ge (k + 1) before.length with hlt | hge
  · exact h (k + 1) hlt hnext
  · have heq : k + 1 = before.length := by omega
    rw [heq, List.drop_left] at hnext
    exact brace_ne_backslash .close (List.cons_prefix_cons.1 hnext).1

/-- Escaping what was unescaped restores a code chunk, unless its first escaped bracket follows a closing brace: the
braces before it then stand for the bracket. -/
theorem reescape_iff
    (h : ∀ k < before.length, ¬ SearchingFor.close.brackets <+:
      (before ++ (backslash :: SearchingFor.close.brackets ++ rest)).drop k) :
    escapeTmplExpression (escapeCode (before ++ (backslash :: SearchingFor.close.brackets ++ rest))) =
        before ++ (backslash :: SearchingFor.close.brackets ++ rest) ↔
      before.getLast? ≠ some closeBrace := by
  rw [escapeCode_at h]
  have hsame : ∀ k, k + 1 < before.length →
      ¬ SearchingFor.close.brackets <+: (before ++ (SearchingFor.close.brackets ++ rest)).drop k := by
    intro k hk hat
    apply h k (by omega)
    rw [brackets_at] at hat ⊢
    rw [List.getElem?_append_left (by omega), List.getElem?_append_left hk] at hat ⊢
    exact hat
  rcases List.eq_nil_or_concat before with rfl | ⟨init, last, rfl⟩
  · simpa [escapeTmplExpression] using
      replaceFirst_head SearchingFor.close.brackets (backslash :: SearchingFor.close.brackets) rest
  · rw [List.concat_eq_append] at hsame ⊢
    rw [List.getLast?_concat]
    by_cases hlast : last = closeBrace
    · subst hlast
      -- The first two braces are the last unit of `before` and the first brace of the bracket.
      have hfirst : escapeTmplExpression (init ++ (SearchingFor.close.brackets ++ closeBrace :: rest)) =
          init ++ (backslash :: SearchingFor.close.brackets ++ closeBrace :: rest) := by
        apply replaceFirst_at
        intro k hk
        have hk' := hsame k (by simpa using hk)
        simpa [SearchingFor.brackets, SearchingFor.brace] using hk'
      have hreads : init ++ [closeBrace] ++ (SearchingFor.close.brackets ++ rest) =
          init ++ (SearchingFor.close.brackets ++ closeBrace :: rest) := by
        simp [SearchingFor.brackets, SearchingFor.brace]
      rw [hreads, hfirst, List.append_assoc, List.append_right_inj]
      exact iff_of_false (by simp [closeBrace, backslash]) (by simp)
    · refine iff_of_true ?_ (by simpa using hlast)
      apply replaceFirst_at
      intro k hk hat
      rcases Nat.lt_or_ge (k + 1) (init ++ [last]).length with hlt | hge
      · exact hsame k hlt hat
      · have heq : k = init.length := by
          rw [List.length_append, List.length_singleton] at hk hge
          omega
        rw [heq, List.append_assoc, List.drop_left] at hat
        exact hlast (List.cons_prefix_cons.1 hat).1.symm

theorem length_reescape
    (h : ∀ k < before.length, ¬ SearchingFor.close.brackets <+:
      (before ++ (backslash :: SearchingFor.close.brackets ++ rest)).drop k) :
    (escapeTmplExpression (escapeCode (before ++ (backslash :: SearchingFor.close.brackets ++ rest)))).length =
      (before ++ (backslash :: SearchingFor.close.brackets ++ rest)).length := by
  have hat : SearchingFor.close.brackets <+:
      (before ++ (SearchingFor.close.brackets ++ rest)).drop before.length := by
    rw [List.drop_left]
    exact List.prefix_append _ rest
  have hne : SearchingFor.close.brackets ≠ [] := List.cons_ne_nil _ _
  have hlen := @length_replaceFirst _ _ _ (backslash :: SearchingFor.close.brackets) hne _ _ hat
  rw [escapeCode_at h]
  rw [escapeTmplExpression]
  simp only [List.length_append, List.length_cons] at hlen ⊢
  omega

theorem escapeCode_plain {text : CodeUnits} (h : ∀ k, ¬ SearchingFor.close.brackets <+: text.drop k) :
    escapeTmplExpression (escapeCode text) = text := by
  have hcode : escapeCode text = text := by
    apply replaceFirst_absent _ (List.cons_ne_nil _ _)
    intro k hat
    apply h (k + 1)
    obtain ⟨post, hpost⟩ := hat
    rw [← List.drop_drop, ← hpost]
    exact List.prefix_append _ post
  rw [hcode]
  exact replaceFirst_absent _ (List.cons_ne_nil _ _) h

def SearchingFor.lead : SearchingFor → CodeUnits
  | .open => []
  | .close => SearchingFor.open.brackets

@[grind =] def SearchingFor.chunk (s : SearchingFor) (content : CodeUnits) (closed : Bool) : ExpressionChunk :=
  match s with
  | .open => .text content
  | .close => .code (escapeCode content) closed

section Turns

variable {turns : Nat} {chunks : List ExpressionChunk} {s : SearchingFor} {buffer expr : CodeUnits} {index : Nat}

attribute [local simp] splitLoop

@[simp]
theorem splitLoop_nil : splitLoop turns chunks s buffer [] = chunks := by
  cases turns <;> simp

theorem splitLoop_none (hne : expr ≠ []) (h : s.exec expr = none) :
    splitLoop (turns + 1) chunks s buffer expr = chunks ++ [s.chunk (buffer ++ expr) false] := by
  cases s <;> simp [hne, h, SearchingFor.chunk]

theorem splitLoop_escape (hne : expr ≠ []) (h : s.exec expr = some ⟨index, true⟩) :
    splitLoop (turns + 1) chunks s buffer expr =
      splitLoop turns chunks s (buffer ++ expr.take (index + 3)) (expr.drop (index + 3)) := by
  cases s <;> simp only [splitLoop, if_neg hne, h]

theorem splitLoop_bracket (hne : expr ≠ []) (h : s.exec expr = some ⟨index, false⟩) :
    splitLoop (turns + 1) chunks s buffer expr =
      splitLoop turns (chunks ++ [s.chunk (buffer ++ expr.take index) true]) s.other [] (expr.drop (index + 2)) := by
  cases s <;> simp only [splitLoop, if_neg hne, h] <;> rfl

end Turns

theorem splitLoop_chunks (turns : Nat) (chunks : List ExpressionChunk) (s : SearchingFor) (buffer expr : CodeUnits) :
    splitLoop turns chunks s buffer expr = chunks ++ splitLoop turns [] s buffer expr := by
  induction turns generalizing chunks s buffer expr with
  | zero => simp [splitLoop]
  | succ turns ih =>
    by_cases hne : expr = []
    · simp [hne]
    · match h : s.exec expr with
      | none => rw [splitLoop_none hne h, splitLoop_none hne h, List.nil_append]
      | some ⟨index, true⟩ => rw [splitLoop_escape hne h, splitLoop_escape hne h, ih]
      | some ⟨index, false⟩ =>
        rw [splitLoop_bracket hne h, splitLoop_bracket hne h, ih, ih ([] ++ _)]
        simp

theorem exec_splits {expr : CodeUnits} {index : Nat} {escape : Bool}
    (h : s.exec expr = some ⟨index, escape⟩) :
    ∃ before post, before.length = index ∧
      expr = before ++ ((BracketMatch.mk index escape).token s ++ post) ∧
      tokens s expr = before.map s.plain ++
        (if escape then s.escaped :: tokens s post else s.bracket :: tokens s.other post) ∧
      ∀ k < before.length, ¬ s.brackets <+: expr.drop k := by
  obtain ⟨hle, ⟨post, hpost⟩, hbefore⟩ := exec_some h
  have hlen : (expr.take index).length = index := by
    rw [List.length_take]
    exact min_eq_left hle
  refine ⟨expr.take index, post, hlen, ?_, ?_, fun k hk => hbefore k (hlen ▸ hk)⟩
  · rw [← hpost, List.take_append_drop]
  · rw [tokens_some h, hpost]
    cases escape with
    | true => exact congrArg _ (tokens_escape s post)
    | false => exact congrArg _ (tokens_bracket s post)

theorem restorable_plain (s : SearchingFor) (seen : Bool) : ∀ before : CodeUnits, Restorable seen (before.map s.plain)
  | [] => by simp [Restorable]
  | [c] => by cases s <;> simp [SearchingFor.plain, Restorable]
  | c :: d :: rest => by
      have ih := restorable_plain s seen (d :: rest)
      cases s <;> simpa [SearchingFor.plain, Restorable] using ih

theorem restorable_bracket (s : SearchingFor) (seen : Bool) (rest : List Token) (hs : s = .open → seen = false) :
    ∀ before : CodeUnits, Restorable seen (before.map s.plain ++ s.bracket :: rest) ↔ Restorable false rest
  | [] => by cases s <;> simp_all [SearchingFor.bracket, Restorable]
  | [c] => by cases s <;> simp_all [SearchingFor.plain, SearchingFor.bracket, Restorable]
  | c :: d :: before => by
      have ih := restorable_bracket s seen rest hs (d :: before)
      cases s <;> simpa [SearchingFor.plain, SearchingFor.bracket, Restorable] using ih

/-- The flag after an escaped bracket: only code chunks unescape. -/
def SearchingFor.unescapes : SearchingFor → Bool
  | .open => false
  | .close => true

theorem restorable_escape (s : SearchingFor) (seen : Bool) (rest : List Token) (hs : s = .open → seen = false) :
    ∀ before : CodeUnits, Restorable seen (before.map s.plain ++ s.escaped :: rest) ↔
      (s = .close → before.getLast? = some closeBrace → seen = true) ∧ Restorable s.unescapes rest
  | [] => by cases s <;> simp_all [SearchingFor.escaped, SearchingFor.unescapes, Restorable]
  | [c] => by cases s <;> simp_all [SearchingFor.plain, SearchingFor.escaped, SearchingFor.unescapes, Restorable]
  | c :: d :: before => by
      have ih := restorable_escape s seen rest hs (d :: before)
      cases s <;> simpa [SearchingFor.plain, SearchingFor.escaped, Restorable] using ih

/-- The buffer of the chunk at hand: joining brings its text back exactly when `restored`. -/
structure Pending (s : SearchingFor) (seen : Bool) (buffer : CodeUnits) (restored : Prop) : Prop where
  text : s = .open → restored ∧ seen = false
  fresh : s = .close → seen = false → buffer = [] ∧ restored
  code : s = .close → ∀ tail, (seen = true ∨ ∀ k, ¬ s.brackets <+: tail.drop k) →
    (escapeTmplExpression (escapeCode (buffer ++ tail))).length = (buffer ++ tail).length ∧
    (escapeTmplExpression (escapeCode (buffer ++ tail)) = buffer ++ tail ↔ restored)

theorem Pending.begin (s : SearchingFor) : Pending s false [] True where
  text _ := ⟨trivial, rfl⟩
  fresh _ _ := ⟨rfl, trivial⟩
  code hs tail htail := by
    subst hs
    have hplain := escapeCode_plain (htail.resolve_left Bool.false_ne_true)
    rw [List.nil_append, hplain]
    exact ⟨rfl, by simp⟩

theorem clean_before {post : CodeUnits}
    (h : ∀ k < before.length, ¬ s.brackets <+: (before ++ (backslash :: s.brackets ++ post)).drop k)
    (tail : CodeUnits) :
    ∀ k < before.length, ¬ s.brackets <+: (before ++ (backslash :: s.brackets ++ tail)).drop k := by
  intro k hk hat
  apply h k hk
  rw [brackets_at] at hat ⊢
  rcases Nat.lt_or_ge (k + 1) before.length with hlt | hge
  · rwa [List.getElem?_append_left hk, List.getElem?_append_left hlt] at hat ⊢
  · have heq : k + 1 = before.length := by omega
    rw [List.getElem?_append_left hk, heq, List.getElem?_append_right (le_refl _)] at hat ⊢
    simpa using hat

theorem Pending.escape {seen : Bool} {buffer post : CodeUnits} {restored : Prop}
    (h : Pending s seen buffer restored)
    (hclean : ∀ k < before.length, ¬ s.brackets <+: (before ++ (backslash :: s.brackets ++ post)).drop k) :
    Pending s s.unescapes (buffer ++ (before ++ backslash :: s.brackets))
      (restored ∧ (s = .close → before.getLast? = some closeBrace → seen = true)) where
  text hs := ⟨⟨(h.text hs).1, fun hc => absurd hc (by simp [hs])⟩, by rw [hs]; rfl⟩
  fresh hs hseen := by simp [hs, SearchingFor.unescapes] at hseen
  code hs tail _ := by
    subst hs
    have hclean' := clean_before hclean tail
    have happ : buffer ++ (before ++ backslash :: SearchingFor.close.brackets) ++ tail =
        buffer ++ (before ++ (backslash :: SearchingFor.close.brackets ++ tail)) := by
      simp only [List.append_assoc]
    rw [happ]
    cases seen with
    | true =>
      obtain ⟨hlen, hiff⟩ := h.code rfl _ (.inl rfl)
      exact ⟨hlen, hiff.trans (by simp)⟩
    | false =>
      obtain ⟨rfl, hr⟩ := h.fresh rfl rfl
      refine ⟨length_reescape hclean', (reescape_iff hclean').trans ?_⟩
      simp [hr]

theorem not_dangling_plain (s : SearchingFor) (expr : CodeUnits) : ¬ Dangling (expr.map s.plain) := by
  rw [Dangling, List.getLast?_map]
  cases s <;> cases expr.getLast? <;> simp [SearchingFor.plain]

theorem dangling_rest {post : CodeUnits} (hne : post ≠ []) (init : List Token) (t : Token) :
    Dangling (init ++ t :: tokens s post) ↔ Dangling (tokens s post) := by
  have hlast : (init ++ t :: tokens s post).getLast? = (tokens s post).getLast? := by
    rw [List.append_cons, List.getLast?_append_of_ne_nil _ (tokens_ne_nil hne)]
  rw [Dangling, hlast, Dangling]

theorem dangling_last (init : List Token) (t : Token) :
    Dangling (init ++ [t]) ↔ t = .opening ∨ t = .escapedOpen ∨ t = .escapedClose := by
  simp [Dangling]

theorem lead_source (s : SearchingFor) (content : CodeUnits) (closed : Bool) :
    (s.chunk content closed).source = s.lead ++
      ((if s = .close then escapeTmplExpression (escapeCode content) else content) ++
        (if s = .close ∧ closed then s.brackets else [])) := by
  cases s <;> simp [SearchingFor.chunk, SearchingFor.lead, ExpressionChunk.source]

theorem join_splitLoop {turns : Nat} {seen : Bool} {buffer expr : CodeUnits} {restored : Prop}
    (hturns : expr.length ≤ turns) (hne : expr ≠ []) (hp : Pending s seen buffer restored) :
    joinExpression (splitLoop turns [] s buffer expr) = s.lead ++ (buffer ++ expr) ↔
      restored ∧ Restorable seen (tokens s expr) ∧ ¬ Dangling (tokens s expr) := by
  induction turns generalizing s seen buffer expr restored with
  | zero => exact absurd (List.eq_nil_of_length_eq_zero (Nat.le_zero.1 hturns)) hne
  | succ turns ih =>
    have hopen : s = .open → seen = false := fun hs => (hp.text hs).2
    rcases h : s.exec expr with - | ⟨index, - | -⟩
    case succ.none =>
        have hplain : ∀ k, ¬ s.brackets <+: expr.drop k := exec_none h
        have hr : Restorable seen (tokens s expr) := by
          rw [tokens_none h]
          exact restorable_plain s seen expr
        have hd : ¬ Dangling (tokens s expr) := by
          rw [tokens_none h]
          exact not_dangling_plain s expr
        rw [splitLoop_none hne h, List.nil_append, joinExpression_single, lead_source]
        simp only [hr, hd, not_false_eq_true, and_true, Bool.false_eq_true, and_false, if_false, List.append_nil,
          List.append_right_inj]
        cases s with
        | «open» => simp [(hp.text rfl).1]
        | close => exact (hp.code rfl expr (.inr hplain)).2
    case succ.some.true =>
        obtain ⟨before, post, hlen, hexpr, htok, hclean⟩ := exec_splits h
        have hexpr' : expr = before ++ backslash :: s.brackets ++ post := by simpa [BracketMatch.token] using hexpr
        have htoken : (before ++ backslash :: s.brackets).length = index + 3 := by
          rw [List.length_append, hlen]
          rfl
        have htake : expr.take (index + 3) = before ++ backslash :: s.brackets := by
          rw [hexpr', ← htoken, List.take_left]
        have hdrop : expr.drop (index + 3) = post := by rw [hexpr', ← htoken, List.drop_left]
        rw [hexpr] at hclean
        rw [splitLoop_escape hne h, htake, hdrop, htok, if_pos rfl]
        rcases eq_or_ne post [] with rfl | hpost
        · have hd : Dangling (before.map s.plain ++ s.escaped :: tokens s []) := by
            rw [tokens, dangling_last]
            cases s <;> simp [SearchingFor.escaped]
          rw [splitLoop_nil]
          refine iff_of_false (fun heq => ?_) (fun hr => hr.2.2 hd)
          have hnil := (List.append_eq_nil_iff.1 (List.append_eq_nil_iff.1 heq.symm).2).2
          exact hne hnil
        · have hle : post.length ≤ turns := by
            rw [hexpr', List.length_append, htoken] at hturns
            omega
          have hrest := ih hle hpost (hp.escape hclean)
          have happ : buffer ++ expr = buffer ++ (before ++ backslash :: s.brackets) ++ post := by
            rw [hexpr']
            simp only [List.append_assoc]
          rw [happ, hrest, restorable_escape s seen _ hopen, dangling_rest hpost]
          tauto
    case succ.some.false =>
        obtain ⟨before, post, hlen, hexpr, htok, hclean⟩ := exec_splits h
        have hexpr' : expr = before ++ s.brackets ++ post := by simpa [BracketMatch.token] using hexpr
        have htoken : (before ++ s.brackets).length = index + 2 := by
          rw [List.length_append, hlen]
          rfl
        have htake : expr.take index = before := by rw [hexpr, ← hlen, List.take_left]
        have hdrop : expr.drop (index + 2) = post := by rw [hexpr', ← htoken, List.drop_left]
        have hle : post.length ≤ turns := by
          rw [hexpr', List.length_append, htoken] at hturns
          omega
        have hrest : post ≠ [] → (joinExpression (splitLoop turns [] s.other [] post) = s.other.lead ++ post ↔
            Restorable false (tokens s.other post) ∧ ¬ Dangling (tokens s.other post)) := by
          intro hpost
          simpa using ih hle hpost (Pending.begin s.other)
        rw [splitLoop_bracket hne h, splitLoop_chunks, List.nil_append, joinExpression_append,
          joinExpression_single, lead_source, htake, hdrop, htok, if_neg Bool.false_ne_true,
          restorable_bracket s seen _ hopen]
        cases s with
        | «open» =>
          have hcancel : ∀ joined : CodeUnits,
              SearchingFor.open.lead ++ (buffer ++ before) ++ joined =
                SearchingFor.open.lead ++ (buffer ++ expr) ↔ joined = SearchingFor.close.lead ++ post := by
            intro joined
            rw [hexpr']
            simp [SearchingFor.lead]
          rw [if_neg SearchingFor.noConfusion, if_neg (fun hc => SearchingFor.noConfusion hc.1), List.append_nil,
            hcancel]
          rcases eq_or_ne post [] with rfl | hpost
          · have hd : Dangling (before.map SearchingFor.open.plain ++
                SearchingFor.open.bracket :: tokens .close []) := by
              rw [tokens, dangling_last]
              exact .inl rfl
            rw [splitLoop_nil]
            exact iff_of_false (by decide) (fun hr => hr.2.2 hd)
          · exact (hrest hpost).trans (by simp [(hp.text rfl).1, dangling_rest hpost, SearchingFor.other])
        | close =>
          have hplain : ∀ k, ¬ SearchingFor.close.brackets <+: before.drop k := by
            intro k hat
            rcases Nat.lt_or_ge k before.length with hk | hk
            · apply hclean k hk
              rw [hexpr, List.drop_append_of_le_length hk.le]
              exact hat.trans (List.prefix_append _ _)
            · rw [List.drop_eq_nil_of_le hk, List.prefix_nil] at hat
              exact List.cons_ne_nil _ _ hat
          obtain ⟨hsame, hiff⟩ := hp.code rfl before (.inr hplain)
          have hcancel : ∀ joined : CodeUnits,
              SearchingFor.close.lead ++ (escapeTmplExpression (escapeCode (buffer ++ before)) ++
                SearchingFor.close.brackets) ++ joined = SearchingFor.close.lead ++ (buffer ++ expr) ↔
              restored ∧ joined = post := by
            intro joined
            rw [← hiff, hexpr', List.append_assoc, List.append_right_inj]
            constructor
            · intro heq
              have heq' : escapeTmplExpression (escapeCode (buffer ++ before)) ++
                  (SearchingFor.close.brackets ++ joined) = (buffer ++ before) ++
                  (SearchingFor.close.brackets ++ post) := by simpa only [List.append_assoc] using heq
              obtain ⟨hcode, htail⟩ := List.append_inj heq' hsame
              exact ⟨hcode, List.append_cancel_left htail⟩
            · rintro ⟨hcode, rfl⟩
              rw [hcode]
              simp only [List.append_assoc]
          rw [if_pos rfl, if_pos ⟨rfl, rfl⟩, hcancel]
          rcases eq_or_ne post [] with rfl | hpost
          · have hd : ¬ Dangling (before.map SearchingFor.close.plain ++
                SearchingFor.close.bracket :: tokens .open []) := by
              rw [tokens, dangling_last]
              decide
            simp only [SearchingFor.other, splitLoop_nil, tokens, Restorable, true_and] at hd ⊢
            exact and_congr_right fun _ => iff_of_true rfl hd
          · rw [dangling_rest hpost]
            exact and_congr_right fun _ => hrest hpost

def ExpressionChunk.isCode : ExpressionChunk → Bool
  | .text _ => false
  | .code _ _ => true

/-- Text and code take turns; the flag says which of them comes first. -/
def Alternates : Bool → List ExpressionChunk → Prop
  | _, [] => True
  | code, chunk :: rest => chunk.isCode = code ∧ Alternates (!code) rest

theorem splitLoop_alternates (turns : Nat) (s : SearchingFor) (buffer expr : CodeUnits) :
    Alternates s.unescapes (splitLoop turns [] s buffer expr) := by
  induction turns generalizing s buffer expr with
  | zero => trivial
  | succ turns ih =>
    by_cases hne : expr = []
    · rw [hne, splitLoop_nil]
      trivial
    · match h : s.exec expr with
      | none =>
        rw [splitLoop_none hne h]
        cases s <;> exact ⟨rfl, trivial⟩
      | some ⟨index, true⟩ =>
        rw [splitLoop_escape hne h]
        exact ih s _ _
      | some ⟨index, false⟩ =>
        have hrest := ih s.other [] (expr.drop (index + 2))
        rw [splitLoop_bracket hne h, splitLoop_chunks]
        cases s <;> exact ⟨rfl, hrest⟩

theorem splitExpression_alternates (s : CodeUnits) : Alternates false (splitExpression s) := by
  rw [splitExpression]
  split_ifs with hs
  · exact ⟨rfl, trivial⟩
  · exact splitLoop_alternates s.length .open [] s

theorem join_split_iff_read (s : CodeUnits) :
    joinExpression (splitExpression s) = s ↔ Restorable false (tokens .open s) ∧ ¬ Dangling (tokens .open s) := by
  by_cases hs : s = []
  · subst hs
    simp [splitExpression, joinExpression, ExpressionChunk.source, tokens, Restorable, Dangling]
  · have hloop := join_splitLoop (le_refl s.length) hs (Pending.begin .open)
    rw [splitExpression, if_neg hs]
    simpa [SearchingFor.lead] using hloop

/-- Joining undoes splitting, and the chunks begin with text and alternate, unless the expression ends right after an
opening or an escaped bracket or the first escaped bracket of a code chunk follows a closing brace. -/
theorem split_join_iff (s : CodeUnits) :
    joinExpression (splitExpression s) = s ∧ splitExpression s ≠ [] ∧ Alternates false (splitExpression s) ↔
      Restorable false (tokens .open s) ∧ ¬ Dangling (tokens .open s) := by
  rw [← join_split_iff_read]
  refine ⟨And.left, fun hjoin => ⟨hjoin, fun hnil => ?_, splitExpression_alternates s⟩⟩
  rw [hnil] at hjoin
  subst hjoin
  exact List.cons_ne_nil _ _ hnil

/-- A text that ends in an escaped bracket loses all its chunks; of two closing braces before a bracket, the wrong ones
are escaped again. -/
theorem split_join_breaks :
    splitExpression (ascii "a\\\x7b\x7b") = [] ∧
    joinExpression (splitExpression (ascii "a\\\x7b\x7b")) ≠ ascii "a\\\x7b\x7b" ∧
    joinExpression (splitExpression (ascii "\x7b\x7b \x7d\\\x7d\x7d \x7d\x7d")) ≠
      ascii "\x7b\x7b \x7d\\\x7d\x7d \x7d\x7d" := by
  decide +kernel

example : joinExpression (splitExpression (ascii "a \x7b\x7b b \\\x7d\x7d c \\\x7d\x7d \x7d\x7d d")) =
    ascii "a \x7b\x7b b \\\x7d\x7d c \\\x7d\x7d \x7d\x7d d" := by
  decide +kernel

end N8n.ExpressionParser
