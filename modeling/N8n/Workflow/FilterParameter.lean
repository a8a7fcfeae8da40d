import N8n.Lib.CodeUnits
import N8n.Workflow.Connections

namespace N8n.FilterParameter

open Lib

inductive Value (N D : Type) where
  | undefined
  | null
  | bool (b : Bool)
  | num (x : N)
  | str (s : String)
  | arr (items : List (Value N D))
  | obj (entries : List (String × Value N D))
  | date (d : D)

/-- What the host gives: floating-point numbers and their texts, letter case, the readers of texts, dates, and regular
expressions, of which the one that is asked for must be well formed. -/
structure Host (N D : Type) where
  isNaN : N → Bool
  truthy : N → Bool
  ofNat : Nat → N
  toText : N → String
  ofText : String → N
  eq : N → N → Bool
  lt : N → N → Bool
  le : N → N → Bool
  toLowerCase : String → String
  toLocaleLowerCase : String → String
  stringLt : String → String → Bool
  stringify : Value N D → String
  parseJson : String → Option (Value N D)
  parseJSObject : String → Option (Value N D)
  parseDateTime : Value N D → Option D
  dateText : D → String
  toMillis : D → N
  keyCount : D → Nat
  regexTest : String → String → String → Option Bool

structure FilterError where
  message : String
  description : String
  deriving DecidableEq

inductive Thrown where
  | filterError (error : FilterError)
  | typeError
  | regexError
  deriving DecidableEq

section Conversions

variable {N D : Type} (host : Host N D)

def typeOf : Value N D → String
  | .undefined => "undefined"
  | .bool _ => "boolean"
  | .num _ => "number"
  | .str _ => "string"
  | .null | .arr _ | .obj _ | .date _ => "object"

mutual

/-- What `String(value)` gives. It throws where an object has its own `toString`, which is no function. -/
def toText : Value N D → Except Thrown String
  | .undefined => .ok "undefined"
  | .null => .ok "null"
  | .bool b => .ok (if b then "true" else "false")
  | .num x => .ok (host.toText x)
  | .str s => .ok s
  | .arr items => (joinTexts items).map fun texts => ",".intercalate texts
  | .obj entries => if "toString" ∈ entries.map Prod.fst then .error .typeError else .ok "[object Object]"
  | .date d => .ok (host.dateText d)

def joinTexts : List (Value N D) → Except Thrown (List String)
  | [] => .ok []
  | .undefined :: items | .null :: items => (joinTexts items).map ("" :: ·)
  | item :: items => do
      let text ← toText item
      let texts ← joinTexts items
      .ok (text :: texts)

end

def toBoolean : Value N D → Bool
  | .undefined | .null => false
  | .bool b => b
  | .num x => host.truthy x
  | .str s => s ≠ ""
  | .arr _ | .obj _ | .date _ => true

def toNumber : Value N D → Except Thrown N
  | .undefined => .ok (host.ofText "undefined")
  | .null => .ok (host.ofNat 0)
  | .bool b => .ok (host.ofNat b.toNat)
  | .num x => .ok x
  | .str s => .ok (host.ofText s)
  | .date d => .ok (host.toMillis d)
  | value => (toText host value).map host.ofText

/-- The operator `===`. Two operands are never one and the same object. -/
def strictEquals : Value N D → Value N D → Bool
  | .undefined, .undefined => true
  | .null, .null => true
  | .bool a, .bool b => a = b
  | .num x, .num y => host.eq x y
  | .str s, .str t => s = t
  | _, _ => false

/-- An element that `includes` takes for the value: as `===`, but NaN is found too. -/
def sameValueZero (a b : Value N D) : Bool :=
  match a, b with
  | .num x, .num y => host.eq x y || host.isNaN x && host.isNaN y
  | a, b => strictEquals host a b

def compare (ofTexts : String → String → Bool) (ofNumbers : N → N → Bool) (a b : Value N D) : Except Thrown Bool :=
  match a, b with
  | .str s, .str t => .ok (ofTexts s t)
  | a, b => do
      let x ← toNumber host a
      let y ← toNumber host b
      .ok (ofNumbers x y)

def lessThan (a b : Value N D) : Except Thrown Bool := compare host host.stringLt host.lt a b

def atMost (a b : Value N D) : Except Thrown Bool := compare host (fun s t => s = t || host.stringLt s t) host.le a b

/-- White space alone, for which `trim` leaves nothing. -/
def isBlank (s : String) : Bool := s.toList.all fun c => c.toNat < 0x10000 && isSpace c.toNat.toUInt16

end Conversions

inductive FilterOperatorType where
  | string
  | number
  | boolean
  | array
  | object
  | dateTime
  | any
  deriving DecidableEq

def FilterOperatorType.name : FilterOperatorType → String
  | .string => "string"
  | .number => "number"
  | .boolean => "boolean"
  | .array => "array"
  | .object => "object"
  | .dateTime => "dateTime"
  | .any => "any"

inductive ValidationResult (N D : Type) where
  | valid (newValue : Value N D)
  | invalid (errorMessage : String)

def ValidationResult.isValid {N D : Type} : ValidationResult N D → Bool
  | .valid _ => true
  | .invalid _ => false

section Reading

variable {N D : Type} (host : Host N D)

def getValueDescription (value : Value N D) : String :=
  match value with
  | .null => "'null'"
  | .arr _ => "array"
  | .obj _ | .date _ => "object"
  | value => "'" ++ ((toText host value).toOption.getD "") ++ "'"

def tryToParseNumber (value : Value N D) : Option N :=
  (toNumber host value).toOption.filter fun x => ¬ host.isNaN x

def tryToParseString (value : Value N D) : Option String :=
  if typeOf value = "object" then some (host.stringify value)
  else if typeOf value = "undefined" then some ""
  else (toText host value).toOption

def tryToParseBoolean (value : Value N D) : Option Bool :=
  let asNumber : Option Bool := (toNumber host value).toOption.bind fun x =>
    if host.eq x (host.ofNat 0) then some false else if host.eq x (host.ofNat 1) then some true else none
  match value with
  | .bool b => some b
  | .str s =>
    if host.toLowerCase s = "true" then some true
    else if host.toLowerCase s = "false" then some false
    else if isBlank s then none
    else asNumber
  | _ => asNumber

def tryToParseArray (value : Value N D) : Option (List (Value N D)) :=
  match value with
  | .arr items => some items
  | value =>
    (toText host value).toOption.bind fun text =>
      match (host.parseJson text).or (host.parseJson (text.map fun c => if c = '\'' then '"' else c)) with
      | some (.arr items) => some items
      | _ => none

def tryToParseObject (value : Value N D) : Option (Value N D) :=
  match value with
  | .obj entries => some (.obj entries)
  | .date d => some (.date d)
  | value =>
    (toText host value).toOption.bind fun text =>
      match (host.parseJson text).or (host.parseJSObject text) with
      | some .null => some .null
      | some (.obj entries) => some (.obj entries)
      | _ => none

def validateFieldType (fieldName : String) (value : Value N D) (type : FilterOperatorType)
    (strict parseStrings : Bool) : ValidationResult N D :=
  let defaultErrorMessage :=
    "'" ++ fieldName ++ "' expects a " ++ type.name ++ " but we got " ++ getValueDescription host value
  let result (newValue : Option (Value N D)) : ValidationResult N D :=
    match newValue with
    | some newValue => .valid newValue
    | none => .invalid defaultErrorMessage
  if typeOf value = "undefined" then .valid .undefined
  else
    match value, type with
    | .null, _ => .valid .undefined
    | value, .string =>
      if ¬ parseStrings then .valid value
      else if strict ∧ typeOf value ≠ "string" then .invalid defaultErrorMessage
      else result ((tryToParseString host value).map .str)
    | value, .number =>
      if strict ∧ typeOf value ≠ "number" then .invalid defaultErrorMessage
      else result ((tryToParseNumber host value).map .num)
    | value, .boolean =>
      if strict ∧ typeOf value ≠ "boolean" then .invalid defaultErrorMessage
      else result ((tryToParseBoolean host value).map .bool)
    | value, .dateTime =>
      match host.parseDateTime value with
      | some d => .valid (.date d)
      | none => .invalid (defaultErrorMessage ++ " <br/><br/> Consider using <a href=\"" ++
          "https://moment.github.io/luxon/api-docs/index.html#datetimefromformat" ++
          "\" target=\"_blank\"><code>DateTime.fromFormat</code></a> to work with custom date formats.")
    | value, .object =>
      -- `isObject` is true of arrays as well
      if strict ∧ typeOf value ≠ "object" then .invalid defaultErrorMessage
      else result (tryToParseObject host value)
    | .arr items, .array => .valid (.arr items)
    | value, .array => if strict then .invalid defaultErrorMessage else result ((tryToParseArray host value).map .arr)
    | value, .any => .valid value

def isNaNValue : Value N D → Bool
  | .num x => host.isNaN x
  | _ => false

def parseSingleFilterValue (value : Value N D) (type : FilterOperatorType) (strict : Bool) (version : Nat) :
    ValidationResult N D :=
  if type = .any ∨ typeOf value = "undefined" then .valid value
  else
    match value with
    | .null => .valid .null
    | value =>
      if type = .boolean ∧ ¬ strict then
        if 2 ≤ version then
          match validateFieldType host "filter" value type false false with
          | .valid newValue => .valid newValue
          | .invalid _ => .valid (.bool (toBoolean host value))
        else .valid (.bool (toBoolean host value))
      else
        let isEmpty : Bool := match value with
          | .str s => isBlank s
          | .arr items => items.isEmpty
          | _ => false
        if type = .number ∧ isNaNValue host value then .valid value
        else if type = .number ∧ isEmpty ∧ 3 ≤ version then .valid .null
        else validateFieldType host "filter" value type strict true

end Reading

structure FilterOperatorValue where
  type : FilterOperatorType
  operation : String
  rightType : Option FilterOperatorType
  singleValue : Option Bool

structure FilterConditionValue (N D : Type) where
  leftValue : Value N D
  operator : FilterOperatorValue
  rightValue : Value N D

inductive TypeValidation where
  | strict
  | loose
  deriving DecidableEq

structure FilterOptionsValue where
  caseSensitive : Bool
  typeValidation : TypeValidation
  version : Option Nat

inductive ErrorFormat where
  | full
  | inline
  deriving DecidableEq

structure FilterConditionMetadata where
  index : Option Nat
  unresolvedExpressions : Bool
  itemIndex : Option Nat
  errorFormat : Option ErrorFormat

def withIndefiniteArticle (noun : String) : String :=
  (if noun.toList.head? ∈ ['a', 'e', 'i', 'o', 'u'].map some then "an" else "a") ++ " " ++ noun

def getTypeDescription (strict : Bool) : String :=
  if strict then
    "Try changing the type of comparison. Alternatively you can enable 'Convert types where required'."
  else "Try changing the type of the comparison."

def composeInvalidTypeMessage (strict : Bool) (suffix type fromType value : String) : String :=
  if strict then
    "Wrong type: '" ++ value ++ "' is " ++ withIndefiniteArticle fromType ++ " but was expecting " ++
      withIndefiniteArticle type ++ " " ++ suffix
  else
    "Conversion error: the " ++ fromType ++ " '" ++ value ++ "' can't be converted to " ++ withIndefiniteArticle type
      ++
      " " ++ suffix

def conversionFunction : FilterOperatorType → Option String
  | .string => some ".toString()"
  | .number => some ".toNumber()"
  | .boolean => some ".toBoolean()"
  | _ => none

def composeInvalidTypeDescription (strict : Bool) (type : FilterOperatorType) (valuePosition : String) : String :=
  match conversionFunction type with
  | some suggested =>
    if strict then
      "\n<p>Try either:</p>\n<ol>\n  <li>Enabling 'Convert types where required'</li>\n  <li>Converting the " ++
        valuePosition ++ " field to " ++ withIndefiniteArticle type.name ++ " by adding <code>" ++ suggested ++
        "</code></li>\n</ol>\n\t\t\t"
    else getTypeDescription strict
  | none => getTypeDescription strict

section Execution

variable {N D : Type} (host : Host N D)

def isExpression : Value N D → Bool
  | .str s => s.toList.head? = some '='
  | _ => false

/-- The outer outcome is what is thrown, the inner one what is returned. -/
def parseFilterConditionValues (condition : FilterConditionValue N D) (options : FilterOptionsValue)
    (metadata : FilterConditionMetadata) : Except Thrown (Except FilterError (Value N D × Value N D)) := do
  let strict : Bool := options.typeValidation = .strict
  let version := options.version.getD 1
  let operator := condition.operator
  let rightType := operator.rightType.getD operator.type
  let parsedLeftValue := parseSingleFilterValue host condition.leftValue operator.type strict version
  let parsedRightValue := parseSingleFilterValue host condition.rightValue rightType strict version
  let leftValid := parsedLeftValue.isValid || metadata.unresolvedExpressions && isExpression condition.leftValue
  let rightValid := parsedRightValue.isValid || operator.singleValue.getD false ||
    metadata.unresolvedExpressions && isExpression condition.rightValue
  let leftValueString ← toText host condition.leftValue
  let rightValueString ← toText host condition.rightValue
  let item := "item " ++ toString (metadata.itemIndex.getD 0) ++ "]"
  let suffix :=
    if metadata.errorFormat.getD .full = .full then "[condition " ++ toString (metadata.index.getD 0) ++ ", " ++ item
    else "[" ++ item
  let newValue : ValidationResult N D → Value N D
    | .valid value => value
    | .invalid _ => .undefined
  .ok (
    if ¬ leftValid ∧ ¬ rightValid ∧ typeOf condition.leftValue = typeOf condition.rightValue then
      .error ⟨"Comparison type expects " ++ withIndefiniteArticle operator.type.name ++ " but both fields are " ++
        withIndefiniteArticle (typeOf condition.leftValue), getTypeDescription strict⟩
    else if ¬ leftValid then
      .error ⟨composeInvalidTypeMessage strict suffix operator.type.name (typeOf condition.leftValue) leftValueString,
        composeInvalidTypeDescription strict operator.type "first"⟩
    else if ¬ rightValid then
      .error ⟨composeInvalidTypeMessage strict suffix rightType.name (typeOf condition.rightValue) rightValueString,
        composeInvalidTypeDescription strict rightType "second"⟩
    else .ok (newValue parsedLeftValue, newValue parsedRightValue))

structure PreparedFilterCondition (N D : Type) where
  isThere : Bool
  ignoreCase : Bool
  leftValue : Value N D
  rightValue : Value N D

/-- The field `exists` is `isThere` here. -/
def prepareFilterCondition (condition : FilterConditionValue N D) (filterOptions : FilterOptionsValue)
    (metadata : FilterConditionMetadata) : Except Thrown (PreparedFilterCondition N D) := do
  match ← parseFilterConditionValues host condition filterOptions metadata with
  | .error error => .error (.filterError error)
  | .ok (leftValue, rightValue) =>
    let isThere := typeOf leftValue ≠ "undefined" ∧ ¬ (leftValue matches .null) ∧ ¬ isNaNValue host leftValue
    .ok ⟨isThere, ¬ filterOptions.caseSensitive, leftValue, rightValue⟩

/-- What stands in for a missing operand. -/
def orElse (value default : Value N D) : Value N D :=
  match value with
  | .undefined | .null => default
  | value => value

def lowered : Value N D → Value N D
  | .str s => .str (host.toLocaleLowerCase s)
  | value => value

def prepareStringFilterValues (operation : String) (prepared : PreparedFilterCondition N D) : Value N D × Value N D :=
  let isRegex := operation = "regex" ∨ operation = "notRegex"
  (orElse (if prepared.ignoreCase then lowered host prepared.leftValue else prepared.leftValue) (.str ""),
    orElse (if prepared.ignoreCase ∧ ¬ isRegex then lowered host prepared.rightValue else prepared.rightValue)
      (.str ""))

/-- The source and the flags of a literal such as `/a+/i`; any other text is a source itself. -/
def parseRegexLiteral (literal : String) : String × String :=
  let flags := literal.toList.reverse.takeWhile (· ≠ '/')
  let body := (literal.toList.drop 1).take (literal.length - flags.length - 2)
  if literal.toList.head? = some '/' ∧ flags.length + 2 ≤ literal.length ∧
      flags.all (· ∈ ['g', 'i', 'm', 'u', 's', 'y']) ∧
      body.all (fun c => c.toNat ∉ [0x0A, 0x0D, 0x2028, 0x2029]) then
    (String.ofList body, String.ofList flags.reverse)
  else (literal, "")

/-- What `value.toString()` gives. -/
def literalText : Value N D → Except Thrown String
  | .undefined | .null => .error .typeError
  | value => toText host value

def matchesRegex (left right : Value N D) : Except Thrown Bool := do
  let literal ← literalText host right
  let text ← toText host left
  match host.regexTest (parseRegexLiteral literal).1 text (parseRegexLiteral literal).2 with
  | some found => .ok found
  | none => .error .regexError

def testText (test : List Char → List Char → Bool) (left right : Value N D) : Except Thrown Bool := do
  let text ← toText host left
  let part ← toText host right
  .ok (test part.toList text.toList)

def stringOperation (left right : Value N D) : String → Option (Except Thrown Bool)
  | "empty" => some ((toText host left).map (· = ""))
  | "notEmpty" => some ((toText host left).map (· ≠ ""))
  | "equals" => some (.ok (strictEquals host left right))
  | "notEquals" => some (.ok (!strictEquals host left right))
  | "contains" => some (testText host (fun part text => decide (part <:+: text)) left right)
  | "notContains" => some ((testText host (fun part text => decide (part <:+: text)) left right).map (!·))
  | "startsWith" => some (testText host (fun part text => decide (part <+: text)) left right)
  | "notStartsWith" => some ((testText host (fun part text => decide (part <+: text)) left right).map (!·))
  | "endsWith" => some (testText host (fun part text => decide (part <:+ text)) left right)
  | "notEndsWith" => some ((testText host (fun part text => decide (part <:+ text)) left right).map (!·))
  | "regex" => some (matchesRegex host left right)
  | "notRegex" => some ((matchesRegex host left right).map (!·))
  | _ => none

def numberOperation (isThere : Bool) (left right : Value N D) : String → Option (Except Thrown Bool)
  | "empty" => some (.ok !isThere)
  | "notEmpty" => some (.ok isThere)
  | "equals" => some (.ok (strictEquals host left right))
  | "notEquals" => some (.ok (!strictEquals host left right))
  | "gt" => some (lessThan host right left)
  | "lt" => some (lessThan host left right)
  | "gte" => some (atMost host right left)
  | "lte" => some (atMost host left right)
  | _ => none

def toMillis : Value N D → Except Thrown N
  | .date d => .ok (host.toMillis d)
  | _ => .error .typeError

def dateTimeOperation (isThere : Bool) (left right : Value N D) (operation : String) : Option (Except Thrown Bool) :=
  let compareMillis (test : N → N → Bool) : Option (Except Thrown Bool) := some (do
    let x ← toMillis host left
    let y ← toMillis host right
    .ok (test x y))
  match operation with
  | "empty" => some (.ok !isThere)
  | "notEmpty" => some (.ok isThere)
  | operation =>
    if ¬ toBoolean host left ∨ ¬ toBoolean host right then some (.ok false)
    else
      match operation with
      | "equals" => compareMillis host.eq
      | "notEquals" => compareMillis fun x y => !host.eq x y
      | "after" => compareMillis fun x y => host.lt y x
      | "before" => compareMillis host.lt
      | "afterOrEquals" => compareMillis fun x y => host.le y x
      | "beforeOrEquals" => compareMillis host.le
      | _ => none

def booleanOperation (isThere : Bool) (left right : Value N D) : String → Option (Except Thrown Bool)
  | "empty" => some (.ok !isThere)
  | "notEmpty" => some (.ok isThere)
  | "true" => some (.ok (toBoolean host left))
  | "false" => some (.ok (!toBoolean host left))
  | "equals" => some (.ok (strictEquals host left right))
  | "notEquals" => some (.ok (!strictEquals host left right))
  | _ => none

def arrayContainsValue (array : List (Value N D)) (value : Value N D) (ignoreCase : Bool) : Bool :=
  match ignoreCase, value with
  | true, .str s => array.any fun item =>
    match item with
    | .str t => host.toLocaleLowerCase t = host.toLocaleLowerCase s
    | _ => false
  | _, value => array.any fun item => sameValueZero host item value

def elements : Value N D → List (Value N D)
  | .arr items => items
  | _ => []

def arrayOperation (ignoreCase : Bool) (left : List (Value N D)) (right : Value N D) :
    String → Option (Except Thrown Bool)
  | "contains" => some (.ok (arrayContainsValue host left right ignoreCase))
  | "notContains" => some (.ok (!arrayContainsValue host left right ignoreCase))
  | "lengthEquals" => some (.ok (strictEquals host (.num (host.ofNat left.length)) right))
  | "lengthNotEquals" => some (.ok (!strictEquals host (.num (host.ofNat left.length)) right))
  | "lengthGt" => some (lessThan host right (.num (host.ofNat left.length)))
  | "lengthLt" => some (lessThan host (.num (host.ofNat left.length)) right)
  | "lengthGte" => some (atMost host right (.num (host.ofNat left.length)))
  | "lengthLte" => some (atMost host (.num (host.ofNat left.length)) right)
  | "empty" => some (.ok left.isEmpty)
  | "notEmpty" => some (.ok !left.isEmpty)
  | _ => none

/-- An object without keys, or none at all. -/
def isEmptyObject : Value N D → Bool
  | .obj entries => entries.isEmpty
  | .date d => host.keyCount d = 0
  | value => !toBoolean host value

def objectOperation (left : Value N D) : String → Option (Except Thrown Bool)
  | "empty" => some (.ok (isEmptyObject host left))
  | "notEmpty" => some (.ok !isEmptyObject host left)
  | _ => none

def evaluateExistsOperation (operation : String) (isThere : Bool) : Option Bool :=
  if operation = "exists" then some isThere else if operation = "notExists" then some !isThere else none

def evaluateOperation (operator : FilterOperatorValue) (prepared : PreparedFilterCondition N D) : Except Thrown Bool :=
  let outcome := match operator.type with
    | .string =>
      let values := prepareStringFilterValues host operator.operation prepared
      stringOperation host values.1 values.2 operator.operation
    | .number => numberOperation host prepared.isThere prepared.leftValue prepared.rightValue operator.operation
    | .dateTime => dateTimeOperation host prepared.isThere prepared.leftValue prepared.rightValue operator.operation
    | .boolean => booleanOperation host prepared.isThere prepared.leftValue prepared.rightValue operator.operation
    | .array => arrayOperation host prepared.ignoreCase (elements prepared.leftValue) prepared.rightValue
        operator.operation
    | .object => objectOperation host prepared.leftValue operator.operation
    | .any => none
  outcome.getD (.ok false)

def executeFilterCondition (condition : FilterConditionValue N D) (filterOptions : FilterOptionsValue)
    (metadata : FilterConditionMetadata) : Except Thrown Bool := do
  let prepared ← prepareFilterCondition host condition filterOptions metadata
  match evaluateExistsOperation condition.operator.operation prepared.isThere with
  | some existsResult => .ok existsResult
  | none => evaluateOperation host condition.operator prepared

structure FilterValue (N D : Type) where
  options : FilterOptionsValue
  conditions : List (FilterConditionValue N D)

def issueKey (name : String) (index : Nat) : String := name ++ "." ++ toString index

def validateCondition (name : String) (options : FilterOptionsValue) (issues : ObjectMap String (List String))
    (entry : FilterConditionValue N D × Nat) : Except Thrown (ObjectMap String (List String)) :=
  match parseFilterConditionValues host entry.1 options ⟨some entry.2, true, none, some .inline⟩ with
  | .ok _ => .ok issues
  | .error (.filterError error) =>
    match issues.get? (issueKey name entry.2) with
    | none => .error .typeError
    | some messages => .ok (issues.set (issueKey name entry.2) (messages ++ [error.message]))
  | .error _ => .ok issues

def validateFilterParameter (name : String) (value : FilterValue N D) :
    Except Thrown (ObjectMap String (List String)) :=
  value.conditions.zipIdx.foldlM (validateCondition host name value.options) .empty

end Execution

section Agreement

variable {N D : Type} {host : Host N D}

/-- What is thrown, if anything, is no `FilterError`. -/
def Unfiltered {α : Type} (outcome : Except Thrown α) : Prop := ∀ error, outcome ≠ .error (.filterError error)

theorem Unfiltered.ok {α : Type} (a : α) : Unfiltered (.ok a) := fun _ h => nomatch h

theorem Unfiltered.bind {α β : Type} {outcome : Except Thrown α} {f : α → Except Thrown β} (h : Unfiltered outcome)
    (hf : ∀ a, Unfiltered (f a)) : Unfiltered (outcome >>= f) := by
  cases outcome with
  | error thrown => exact fun error he => h error (congrArg Except.error (Except.error.inj he))
  | ok a => exact hf a

theorem Unfiltered.map {α β : Type} {outcome : Except Thrown α} (f : α → β) (h : Unfiltered outcome) :
    Unfiltered (outcome.map f) := by
  cases outcome with
  | error thrown => exact fun error he => h error (congrArg Except.error (Except.error.inj he))
  | ok a => exact .ok (f a)

mutual

theorem toText_unfiltered : ∀ value : Value N D, Unfiltered (toText host value)
  | .undefined | .null | .bool _ | .num _ | .str _ | .date _ => by
      rw [toText]
      exact .ok _
  | .arr items => by
      rw [toText]
      exact (joinTexts_unfiltered items).map _
  | .obj entries => by
      rw [toText]
      split
      · exact fun _ h => nomatch h
      · exact .ok _

theorem joinTexts_unfiltered : ∀ items : List (Value N D), Unfiltered (joinTexts host items)
  | [] => by
      rw [joinTexts]
      exact .ok _
  | item :: items => by
      have hitems := joinTexts_unfiltered items
      have hitem := toText_unfiltered item
      unfold joinTexts
      split
      · exact .ok _
      · next he => exact (List.cons.inj he).2 ▸ hitems.map _
      · next he => exact (List.cons.inj he).2 ▸ hitems.map _
      · next he =>
        obtain ⟨rfl, rfl⟩ := List.cons.inj he
        exact hitem.bind fun _ => hitems.bind fun _ => .ok _

end

theorem toNumber_unfiltered (value : Value N D) : Unfiltered (toNumber host value) := by
  cases value with
  | arr items => exact (toText_unfiltered _).map _
  | obj entries => exact (toText_unfiltered _).map _
  | _ => exact .ok _

theorem compare_unfiltered (ofTexts : String → String → Bool) (ofNumbers : N → N → Bool) (a b : Value N D) :
    Unfiltered (compare host ofTexts ofNumbers a b) := by
  rw [compare.eq_def]
  split
  · exact .ok _
  · exact (toNumber_unfiltered _).bind fun _ => (toNumber_unfiltered _).bind fun _ => .ok _

theorem matchesRegex_unfiltered (left right : Value N D) : Unfiltered (matchesRegex host left right) := by
  have hliteral : Unfiltered (literalText host right) := by
    rw [literalText.eq_def]
    split
    · exact fun _ h => nomatch h
    · exact fun _ h => nomatch h
    · exact toText_unfiltered _
  refine hliteral.bind fun literal => (toText_unfiltered left).bind fun text => ?_
  split
  · exact .ok _
  · exact fun _ h => nomatch h

theorem testText_unfiltered (test : List Char → List Char → Bool) (left right : Value N D) :
    Unfiltered (testText host test left right) :=
  (toText_unfiltered left).bind fun _ => (toText_unfiltered right).bind fun _ => .ok _

theorem toMillis_unfiltered (value : Value N D) : Unfiltered (toMillis host value) := by
  cases value with
  | date d => exact .ok _
  | _ => exact fun _ h => nomatch h

/-- No operation of a table throws a `FilterError`. -/
def TableUnfiltered (table : Option (Except Thrown Bool)) : Prop := ∀ outcome, table = some outcome →
    Unfiltered outcome

theorem TableUnfiltered.some {outcome : Except Thrown Bool} (h : Unfiltered outcome) :
    TableUnfiltered (.some outcome) := fun _ he => Option.some.inj he ▸ h

theorem TableUnfiltered.none : TableUnfiltered .none := fun _ he => nomatch he

theorem stringOperation_unfiltered (left right : Value N D) (operation : String) :
    TableUnfiltered (stringOperation host left right operation) := by
  rw [stringOperation.eq_def]
  split
  · exact .some ((toText_unfiltered left).map _)
  · exact .some ((toText_unfiltered left).map _)
  · exact .some (.ok _)
  · exact .some (.ok _)
  · exact .some (testText_unfiltered _ left right)
  · exact .some ((testText_unfiltered _ left right).map _)
  · exact .some (testText_unfiltered _ left right)
  · exact .some ((testText_unfiltered _ left right).map _)
  · exact .some (testText_unfiltered _ left right)
  · exact .some ((testText_unfiltered _ left right).map _)
  · exact .some (matchesRegex_unfiltered left right)
  · exact .some ((matchesRegex_unfiltered left right).map _)
  · exact .none

theorem numberOperation_unfiltered (isThere : Bool) (left right : Value N D) (operation : String) :
    TableUnfiltered (numberOperation host isThere left right operation) := by
  rw [numberOperation.eq_def]
  split
  · exact .some (.ok _)
  · exact .some (.ok _)
  · exact .some (.ok _)
  · exact .some (.ok _)
  · exact .some (compare_unfiltered _ _ _ _)
  · exact .some (compare_unfiltered _ _ _ _)
  · exact .some (compare_unfiltered _ _ _ _)
  · exact .some (compare_unfiltered _ _ _ _)
  · exact .none

theorem dateTimeOperation_unfiltered (isThere : Bool) (left right : Value N D) (operation : String) :
    TableUnfiltered (dateTimeOperation host isThere left right operation) := by
  have hcompare : ∀ test : N → N → Bool, TableUnfiltered (.some (do
      let x ← toMillis host left
      let y ← toMillis host right
      .ok (test x y))) := fun test =>
    .some ((toMillis_unfiltered left).bind fun _ => (toMillis_unfiltered right).bind fun _ => .ok _)
  rw [dateTimeOperation.eq_def]
  dsimp only
  split
  · exact .some (.ok _)
  · exact .some (.ok _)
  · split
    · exact .some (.ok _)
    · split
      · exact hcompare _
      · exact hcompare _
      · exact hcompare _
      · exact hcompare _
      · exact hcompare _
      · exact hcompare _
      · exact .none

theorem booleanOperation_unfiltered (isThere : Bool) (left right : Value N D) (operation : String) :
    TableUnfiltered (booleanOperation host isThere left right operation) := by
  rw [booleanOperation.eq_def]
  split
  · exact .some (.ok _)
  · exact .some (.ok _)
  · exact .some (.ok _)
  · exact .some (.ok _)
  · exact .some (.ok _)
  · exact .some (.ok _)
  · exact .none

theorem arrayOperation_unfiltered (ignoreCase : Bool) (left : List (Value N D)) (right : Value N D)
    (operation : String) : TableUnfiltered (arrayOperation host ignoreCase left right operation) := by
  rw [arrayOperation.eq_def]
  split
  · exact .some (.ok _)
  · exact .some (.ok _)
  · exact .some (.ok _)
  · exact .some (.ok _)
  · exact .some (compare_unfiltered _ _ _ _)
  · exact .some (compare_unfiltered _ _ _ _)
  · exact .some (compare_unfiltered _ _ _ _)
  · exact .some (compare_unfiltered _ _ _ _)
  · exact .some (.ok _)
  · exact .some (.ok _)
  · exact .none

theorem objectOperation_unfiltered (left : Value N D) (operation : String) :
    TableUnfiltered (objectOperation host left operation) := by
  rw [objectOperation.eq_def]
  split
  · exact .some (.ok _)
  · exact .some (.ok _)
  · exact .none

theorem evaluateOperation_unfiltered (operator : FilterOperatorValue) (prepared : PreparedFilterCondition N D) :
    Unfiltered (evaluateOperation host operator prepared) := by
  have htable : ∀ table : Option (Except Thrown Bool), TableUnfiltered table →
    Unfiltered (table.getD (.ok false)) := by
    intro table h
    cases table with
    | none => exact .ok _
    | some outcome => exact h outcome rfl
  rw [evaluateOperation]
  refine htable _ ?_
  cases operator.type with
  | string => exact stringOperation_unfiltered _ _ _
  | number => exact numberOperation_unfiltered _ _ _ _
  | boolean => exact booleanOperation_unfiltered _ _ _ _
  | array => exact arrayOperation_unfiltered _ _ _ _
  | object => exact objectOperation_unfiltered _ _
  | dateTime => exact dateTimeOperation_unfiltered _ _ _ _
  | any => exact .none

def OperandsAccepted (host : Host N D) (options : FilterOptionsValue) (condition : FilterConditionValue N D) : Prop :=
  let strict : Bool := options.typeValidation = .strict
  let version := options.version.getD 1
  (parseSingleFilterValue host condition.leftValue condition.operator.type strict version).isValid ∧
    ((parseSingleFilterValue host condition.rightValue
      (condition.operator.rightType.getD condition.operator.type) strict version).isValid ∨
        condition.operator.singleValue = some true)

def Printable (host : Host N D) (condition : FilterConditionValue N D) : Prop :=
  (∃ text, toText host condition.leftValue = .ok text) ∧ ∃ text, toText host condition.rightValue = .ok text

theorem parseFilterConditionValues_unfiltered (condition : FilterConditionValue N D) (options : FilterOptionsValue)
    (metadata : FilterConditionMetadata) : Unfiltered (parseFilterConditionValues host condition options metadata) :=
  (toText_unfiltered _).bind fun _ => (toText_unfiltered _).bind fun _ => .ok _

theorem parse_error_iff {condition : FilterConditionValue N D} {options : FilterOptionsValue}
    {metadata : FilterConditionMetadata} (hresolved : metadata.unresolvedExpressions = false) :
    (∃ error, parseFilterConditionValues host condition options metadata = .ok (.error error)) ↔
      Printable host condition ∧ ¬ OperandsAccepted host options condition := by
  cases hleft : toText host condition.leftValue with
  | error thrown =>
    rw [parseFilterConditionValues, hleft, Printable, hleft]
    exact ⟨(fun ⟨_, h⟩ => nomatch h), (fun ⟨⟨⟨_, ht⟩, _⟩, _⟩ => nomatch ht)⟩
  | ok left =>
    cases hright : toText host condition.rightValue with
    | error thrown =>
      rw [parseFilterConditionValues, hleft, hright, Printable, hright]
      exact ⟨(fun ⟨_, h⟩ => nomatch h), (fun ⟨⟨_, _, ht⟩, _⟩ => nomatch ht)⟩
    | ok right =>
      have hprintable : Printable host condition := ⟨⟨left, hleft⟩, right, hright⟩
      have hsingle : condition.operator.singleValue.getD false = true ↔ condition.operator.singleValue = some
        true := by
        cases condition.operator.singleValue <;> simp
      rw [and_iff_right hprintable, parseFilterConditionValues, hleft, hright, OperandsAccepted, hresolved,
        ← hsingle]
      dsimp only
      rw [Bool.false_and, Bool.or_false, Bool.false_and, Bool.or_false]
      generalize (parseSingleFilterValue host condition.leftValue _ _ _) = leftResult
      generalize (parseSingleFilterValue host condition.rightValue _ _ _) = rightResult
      rw [← Bool.or_eq_true, ← Bool.and_eq_true]
      cases hl : leftResult.isValid with
      | false =>
        refine iff_of_true ?_ (by simp)
        simp only [bind, Except.bind]
        split
        · exact ⟨_, rfl⟩
        · exact ⟨_, rfl⟩
      | true =>
        cases hr : rightResult.isValid || condition.operator.singleValue.getD false with
        | false => exact iff_of_true ⟨_, rfl⟩ (by simp)
        | true => exact iff_of_false (fun ⟨_, h⟩ => nomatch Except.ok.inj h) (by simp)

theorem execute_filterError_iff {condition : FilterConditionValue N D} {options : FilterOptionsValue}
    {metadata : FilterConditionMetadata} (hresolved : metadata.unresolvedExpressions = false) :
    (∃ error, executeFilterCondition host condition options metadata = .error (.filterError error)) ↔
      Printable host condition ∧ ¬ OperandsAccepted host options condition := by
  rw [← parse_error_iff hresolved]
  have hparse := @parseFilterConditionValues_unfiltered N D host condition options metadata
  refine exists_congr fun error => ?_
  rw [executeFilterCondition, prepareFilterCondition]
  cases h : parseFilterConditionValues host condition options metadata with
  | error thrown =>
    rw [h] at hparse
    exact ⟨fun he => by cases he; exact absurd rfl (hparse error), (fun he => nomatch he)⟩
  | ok outcome =>
    cases outcome with
    | error parseError => exact ⟨fun he => by cases he; rfl, fun he => by cases he; rfl⟩
    | ok values =>
      have hrest : ∀ prepared : PreparedFilterCondition N D, Unfiltered
          (match evaluateExistsOperation condition.operator.operation prepared.isThere with
          | some existsResult => .ok existsResult
          | none => evaluateOperation host condition.operator prepared) := by
        intro prepared
        split
        · exact .ok _
        · exact evaluateOperation_unfiltered _ _
      exact iff_of_false (hrest _ error) (fun he => nomatch Except.ok.inj he)

theorem validateFilterParameter_eq (name : String) (value : FilterValue N D) :
    validateFilterParameter host name value = .ok .empty := by
  rw [validateFilterParameter]
  induction value.conditions.zipIdx with
  | nil => rfl
  | cons entry entries ih =>
    have hturn : validateCondition host name value.options .empty entry = .ok .empty := by
      rw [validateCondition]
      cases h : parseFilterConditionValues host entry.1 value.options ⟨some entry.2, true, none, some .inline⟩ with
      | ok _ => rfl
      | error thrown =>
        cases thrown with
        | filterError error => exact absurd h (parseFilterConditionValues_unfiltered _ _ _ error)
        | typeError => rfl
        | regexError => rfl
    rw [List.foldlM_cons, hturn]
    exact ih

/-- A filter is validated without a throw, and an issue is reported just for the conditions that executing it would
throw a `FilterError` for. -/
def ValidationAgrees (host : Host N D) (name : String) (itemIndex : Option Nat) (value : FilterValue N D) : Prop :=
  ∃ issues, validateFilterParameter host name value = .ok issues ∧
    ∀ index condition, value.conditions[index]? = some condition →
      ((issues.get? (issueKey name index)).isSome ↔
        ∃ error, executeFilterCondition host condition value.options ⟨some index, false, itemIndex, none⟩ =
          .error (.filterError error))

/-- No issue is ever reported, so the two agree on filters that would not throw one. -/
theorem validateFilterParameter_agrees (host : Host N D) (name : String) (itemIndex : Option Nat)
    (value : FilterValue N D) :
    ValidationAgrees host name itemIndex value ↔
      ∀ condition ∈ value.conditions, OperandsAccepted host value.options condition ∨ ¬ Printable host condition := by
  have hexec : ∀ index condition,
      (∃ error, executeFilterCondition host condition value.options ⟨some index, false, itemIndex, none⟩ =
        .error (.filterError error)) ↔ Printable host condition ∧ ¬ OperandsAccepted host value.options condition :=
    fun _ _ => execute_filterError_iff rfl
  simp only [ValidationAgrees, validateFilterParameter_eq, Except.ok.injEq, exists_eq_left', hexec]
  constructor
  · intro h condition hmem
    obtain ⟨index, hindex⟩ := List.mem_iff_getElem?.1 hmem
    have hnone := (h index condition hindex).not.1 Bool.false_ne_true
    exact (Classical.not_and_iff_not_or_not.1 hnone).symm.imp_left Classical.not_not.1
  · intro h index condition hindex
    refine iff_of_false Bool.false_ne_true fun hthrows => ?_
    exact (h condition (List.mem_of_getElem? hindex)).elim hthrows.2 fun hn => hn hthrows.1

/-- The text `abc` where a number is compared strictly. -/
def textForNumber (N D : Type) : FilterValue N D where
  options := ⟨true, .strict, some 2⟩
  conditions := [⟨.str "abc", ⟨.number, "gt", none, none⟩, .str "1"⟩]

def plainHost : Host Unit Unit where
  isNaN := fun _ => true
  truthy := fun _ => false
  ofNat := fun _ => ()
  toText := fun _ => "NaN"
  ofText := fun _ => ()
  eq := fun _ _ => false
  lt := fun _ _ => false
  le := fun _ _ => false
  toLowerCase := id
  toLocaleLowerCase := id
  stringLt := fun a b => decide (a < b)
  stringify := fun _ => ""
  parseJson := fun _ => none
  parseJSObject := fun _ => none
  parseDateTime := fun _ => none
  dateText := fun _ => ""
  toMillis := fun _ => ()
  keyCount := fun _ => 0
  regexTest := fun _ _ _ => none

theorem rejected_condition_unreported :
    ¬ ValidationAgrees plainHost "conditions" none (textForNumber Unit Unit) := by
  rintro ⟨issues, hvalidate, h⟩
  rw [validateFilterParameter_eq, Except.ok.injEq] at hvalidate
  subst hvalidate
  have hleft : (parseSingleFilterValue plainHost (.str "abc") .number true 2).isValid = false := rfl
  have hthrows := (h 0 _ rfl).2 ((execute_filterError_iff rfl).2 ⟨⟨⟨_, rfl⟩, _, rfl⟩, fun haccepted => ?_⟩)
  · exact Bool.false_ne_true hthrows
  · exact Bool.false_ne_true (hleft.symm.trans haccepted.1)

end Agreement

end N8n.FilterParameter
