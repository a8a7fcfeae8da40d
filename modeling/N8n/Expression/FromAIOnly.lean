import N8n.Lib.CodeUnits

namespace N8n.FromAI

open N8n.Lib

def openParen : UInt16 := 0x28
def closeParen : UInt16 := 0x29
def comma : UInt16 := 0x2C
def minus : UInt16 := 0x2D
def dot : UInt16 := 0x2E
def equalsSign : UInt16 := 0x3D
def underscore : UInt16 := 0x5F

/-- The constant `FROM_AI_AUTO_GENERATED_MARKER`. -/
def autoGeneratedMarker : CodeUnits := ascii "/*n8n-auto-generated-fromAI-override*/"

def isLiteralChar (c : UInt16) : Bool := isLetter c || isDigit c || c ∈ [dot, comma, minus] || isSpace c

/-- The class `[a-zA-Z0-9_]`, of a last character that may be missing. -/
def isWord (last : Option UInt16) : Bool := last.any (fun c => isLetter c || isDigit c || c = underscore)

/-- The expression without the leading `=`, the braces around it, the marker and white space. -/
def stripped (expr : CodeUnits) : CodeUnits :=
  let str := trim (if expr.head? = some equalsSign then expr.tail else expr)
  let str := if ascii "\x7b\x7b" <+: str ∧ ascii "\x7d\x7d" <:+ str then trim (str.drop 2).dropLast.dropLast else str
  if autoGeneratedMarker <+: str then trim (str.drop autoGeneratedMarker.length) else str

/-- The text after a match of `/^\$fromAI\s*\(/i`. -/
def fromAIPattern (str : CodeUnits) : Option CodeUnits :=
  if (str.take 7).map lower = ascii "$fromai" then
    match (str.drop 7).dropWhile isSpace with
    | [] => none
    | c :: rest => if c = openParen then some rest else none
  else none

/-- The loop over the characters after the opening parenthesis, with the quote it is in and `lastOutsideChar`. It gives
the text after the closing parenthesis, or nothing where the expression is rejected. -/
@[grind =] def scan : Option UInt16 → Option UInt16 → CodeUnits → Option CodeUnits
  | some quoteChar, last, char :: next :: rest =>
    if char = backslash then scan (some quoteChar) last rest
    else if quoteChar = backtick ∧ char = dollar ∧ next = openBrace then none
    else scan (if char = quoteChar then none else some quoteChar) last (next :: rest)
  | none, last, char :: rest =>
    if isQuote char then
      if char = backtick ∧ isWord last then none else scan (some char) (some char) rest
    else if char = closeParen then some rest
    else if isLiteralChar char then scan none (if isSpace char then last else some char) rest
    else none
  -- The text ends inside of the call.
  | _, _, _ => none

def isFromAIOnlyExpression (expr : CodeUnits) : Bool :=
  match fromAIPattern (stripped expr) with
  | none => false
  | some text =>
    match scan none none text with
    | none => false
    | some remainder => trim remainder = []

/-- What stands between the parentheses: single characters, and quoted strings. -/
inductive Item where
  | bare (c : UInt16)
  | quoted (quote : UInt16) (body : CodeUnits)
  deriving DecidableEq

inductive Body (quote : UInt16) : CodeUnits → Prop
  | nil : Body quote []
  | escaped {body : CodeUnits} (c : UInt16) : Body quote body → Body quote (backslash :: c :: body)
  | plain {body : CodeUnits} {c : UInt16} : c ≠ backslash → c ≠ quote → Body quote body →
      Body quote (c :: body)

/-- The items of a text up to its first closing parenthesis outside of quotes, and what follows that. -/
inductive Reads : List Item → CodeUnits → CodeUnits → Prop
  | close (rest : CodeUnits) : Reads [] (closeParen :: rest) rest
  | bare {items : List Item} {text rest : CodeUnits} {c : UInt16} : isQuote c = false → c ≠ closeParen →
      Reads items text rest → Reads (.bare c :: items) (c :: text) rest
  | quoted {items : List Item} {body text rest : CodeUnits} {quote : UInt16} : isQuote quote = true →
      Body quote body → Reads items text rest →
      Reads (.quoted quote body :: items) (quote :: (body ++ quote :: text)) rest

/-- A call of `$fromAI`, in capitals or not, with these items between its parentheses and nothing after them. -/
def IsCall (str : CodeUnits) (items : List Item) : Prop :=
  ∃ name gap text rest, str = name ++ (gap ++ openParen :: text) ∧ name.map lower = ascii "$fromai" ∧
    Blank gap ∧ Reads items text rest ∧ Blank rest

def arguments : List Item → List (List Item)
  | [] => [[]]
  | item :: items => if item = .bare comma then [] :: arguments items else (arguments items).modifyHead (item :: ·)

def Item.isSpace : Item → Bool
  | .bare c => N8n.Lib.isSpace c
  | .quoted _ _ => false

def trimItems (arg : List Item) : List Item := (arg.dropWhile Item.isSpace).rdropWhile Item.isSpace

@[grind =] def interpolates : CodeUnits → Bool
  | a :: b :: rest =>
    if a = backslash then interpolates rest else a = dollar && b = openBrace || interpolates (b :: rest)
  | _ => false

end N8n.FromAI
