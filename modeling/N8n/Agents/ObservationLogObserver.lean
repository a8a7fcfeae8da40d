import Mathlib.Data.List.Lex
import Mathlib.Data.Prod.Lex
import N8n.Agents.MessageList
import N8n.Agents.ObservationLog
import N8n.Lib.CodeUnits
import N8n.Lib.Transition

/-!
The memory of an agent: what it stores for one thread. The messages of a thread are ordered by their dates and then by
their ids; the observation log stands in for the messages up to the cursor.
-/

namespace N8n.Agents

open N8n.Lib

structure Keyset where
  createdAt : Int
  id : CodeUnits
deriving DecidableEq

/-- Ids are compared by their code units. -/
def Keyset.order (a : Keyset) : Int ×ₗ List Nat := toLex (a.createdAt, a.id.map UInt16.toNat)

theorem Keyset.order_injective : Function.Injective Keyset.order := by
  rintro ⟨t, id⟩ ⟨t', id'⟩ h
  obtain ⟨ht, hid⟩ := Prod.mk.inj (toLex.injective h)
  have hmap : Function.Injective (List.map UInt16.toNat) := List.map_injective_iff.2 fun _ _ => UInt16.toNat.inj
  obtain rfl : t = t' := ht
  obtain rfl := hmap hid
  rfl

instance : LinearOrder Keyset := LinearOrder.lift' Keyset.order Keyset.order_injective

def compareKeyset (a b : Keyset) : Int :=
  let t := a.createdAt - b.createdAt
  if t ≠ 0 then t
  else if a.id.map UInt16.toNat < b.id.map UInt16.toNat then -1
  else if b.id.map UInt16.toNat < a.id.map UInt16.toNat then 1
  else 0

theorem Keyset.lt_iff {a b : Keyset} : a < b ↔ a.createdAt < b.createdAt ∨
    a.createdAt = b.createdAt ∧ a.id.map UInt16.toNat < b.id.map UInt16.toNat := Prod.Lex.toLex_lt_toLex

theorem compareKeyset_pos {a b : Keyset} : 0 < compareKeyset a b ↔ b < a := by
  rw [compareKeyset, Keyset.lt_iff]
  rcases Int.lt_trichotomy a.createdAt b.createdAt with h | h | h
  · rw [if_pos (by omega)]
    omega
  · rw [if_neg (by omega), h]
    split
    · next hlt => simp [not_lt_of_gt hlt]
    · split
      · next hlt => simp [hlt]
      · next hlt => simp [hlt]
  · rw [if_pos (by omega)]
    omega

theorem compareKeyset_nonpos {a b : Keyset} : compareKeyset a b ≤ 0 ↔ a ≤ b := by
  rw [← not_lt, compareKeyset_pos, not_lt]

structure DbMessage where
  id : CodeUnits
  createdAt : Int
  body : Body

def DbMessage.keyset (m : DbMessage) : Keyset := ⟨m.createdAt, m.id⟩

structure StoredMessage where
  message : DbMessage
  createdAt : Int
  resourceId : String

namespace StoredMessage

def keyset (s : StoredMessage) : Keyset := ⟨s.createdAt, s.message.id⟩

def returned (s : StoredMessage) : DbMessage := { s.message with createdAt := s.createdAt }

@[simp] theorem keyset_returned (s : StoredMessage) : s.returned.keyset = s.keyset := rfl

end StoredMessage

structure ObservationLogEntry extends LogEntry CodeUnits Nat where
  supersededBy : Option CodeUnits

def ObservationLogEntry.keyset (e : ObservationLogEntry) : Keyset := ⟨e.createdAt, e.id⟩

structure ObservationCursor where
  lastObservedMessageId : CodeUnits
  lastObservedAt : Int
  updatedAt : Int

def ObservationCursor.keyset (c : ObservationCursor) : Keyset := ⟨c.lastObservedAt, c.lastObservedMessageId⟩

structure MemoryStore where
  messages : List StoredMessage
  messages_unique : (messages.map fun s => s.message.id).Nodup
  observationLog : List ObservationLogEntry
  cursor : Option ObservationCursor

/-- A message that is there is replaced in place, a new one is appended. -/
def upsert (messages : List StoredMessage) (entry : StoredMessage) : List StoredMessage :=
  if entry.message.id ∈ messages.map (fun s => s.message.id) then
    messages.map fun s => if s.message.id = entry.message.id then entry else s
  else messages ++ [entry]

theorem upsert_unique {messages : List StoredMessage} (entry : StoredMessage)
    (h : (messages.map fun s => s.message.id).Nodup) :
    ((upsert messages entry).map fun s => s.message.id).Nodup := by
  rw [upsert]
  split
  · have hsame : ((messages.map fun s => if s.message.id = entry.message.id then entry else s).map
        fun s => s.message.id) = messages.map fun s => s.message.id := by
      rw [List.map_map]
      apply List.map_congr_left
      intro s _
      by_cases he : s.message.id = entry.message.id
      · simp [he]
      · simp [he]
    rwa [hsame]
  · next hnew =>
    rw [List.map_append, List.map_singleton]
    exact h.append (List.nodup_singleton _) (List.disjoint_singleton.2 hnew)

inductive ReadOrder
  | asc | desc
  deriving DecidableEq

namespace MemoryStore

def empty : MemoryStore := ⟨[], List.nodup_nil, [], none⟩

def saveMessage (store : MemoryStore) (resourceId : String) (msg : DbMessage) : MemoryStore :=
  { store with
    messages := upsert store.messages ⟨msg, msg.createdAt, resourceId⟩
    messages_unique := upsert_unique _ store.messages_unique }

def saveMessages (store : MemoryStore) (resourceId : Option String) (messages : List DbMessage) : MemoryStore :=
  messages.foldl (fun store msg => store.saveMessage (resourceId.getD "") msg) store

def sortedMessages (messages : List StoredMessage) : List StoredMessage :=
  messages.insertionSort fun a b => compareKeyset a.keyset b.keyset ≤ 0

/-- The messages that were saved last under the resource. -/
def getMessages (store : MemoryStore) (resourceId : String) : List DbMessage :=
  (sortedMessages (store.messages.filter fun s => s.resourceId = resourceId)).map StoredMessage.returned

/-- The messages behind the cursor, or all of them. The messages are sorted in place. -/
def getMessagesForObservationScope (store : MemoryStore) (since : Option ObservationCursor) :
    List DbMessage × MemoryStore :=
  let rows := sortedMessages store.messages
  let rows' :=
    match since with
    | some cursor => rows.filter fun s : StoredMessage => compareKeyset s.keyset cursor.keyset > 0
    | none => rows
  (rows'.map StoredMessage.returned,
    { store with
      messages := rows
      messages_unique := ((List.perm_insertionSort _ _).map _).nodup_iff.2 store.messages_unique })

def getActiveObservationLog (store : MemoryStore) (limit : Nat) (order : ReadOrder) : List ObservationLogEntry :=
  let rows := store.observationLog.insertionSort fun a b => compareKeyset a.keyset b.keyset ≤ 0
  let rows := match order with
    | .asc => rows
    | .desc => rows.reverse
  (rows.filter fun entry => entry.status = .active).take limit

def appendObservationLogEntry (store : MemoryStore) (entry : ObservationLogEntry) : MemoryStore :=
  { store with observationLog := store.observationLog ++ [entry] }

def setCursor (store : MemoryStore) (cursor : ObservationCursor) : MemoryStore := { store with cursor := some cursor }

def thread (store : MemoryStore) : List DbMessage := store.messages.map StoredMessage.returned

end MemoryStore

structure ObserverTools where
  toISOString : Int → String
  redactText : String → String
  serializeForObserver : Option Json → String
  serializeErrorForObserver : Option Json → String
  renderObservationLog : List ObservationLogEntry → Option String

def hasPendingToolCall (m : DbMessage) : Bool :=
  match m.body with
  | .llm message => message.content.any fun block => block.toolCall?.any fun call => call.state = some .pending
  | .custom _ => false

def MessageRole.name : MessageRole → String
  | .system => "system"
  | .user => "user"
  | .assistant => "assistant"
  | .tool => "tool"

def escapeXmlAttribute (value : String) : String :=
  String.ofList (value.toList.flatMap fun c =>
    match c with
    | '&' => "&amp;".toList
    | '"' => "&quot;".toList
    | '<' => "&lt;".toList
    | '>' => "&gt;".toList
    | c => [c])

def closingTag : List Char := "</untrusted_tool_data".toList

def escapeClosingTags : Nat → List Char → List Char
  | _, [] => []
  | skip + 1, _ :: rest => escapeClosingTags skip rest
  | 0, c :: rest =>
    if closingTag <+: (c :: rest).map Char.toLower then
      "&lt;/untrusted_tool_data".toList ++ escapeClosingTags (closingTag.length - 1) rest
    else c :: escapeClosingTags 0 rest

def wrapUntrustedObserverData (content source : String) : String :=
  "<untrusted_tool_data source=\"" ++ escapeXmlAttribute source ++ "\">" ++
    String.ofList (escapeClosingTags 0 content.toList) ++ "</untrusted_tool_data>"

section Transcript

variable (tools : ObserverTools)

def toolCallLines (timestamp : String) (toolCall : ContentToolCall) : List String :=
  let start := "[" ++ timestamp ++ "] "
  let result := start ++ "tool_result " ++ toolCall.toolName
  (start ++ "tool_call " ++ toolCall.toolName ++ " input=" ++ tools.serializeForObserver (some toolCall.input)) ::
    match toolCall.state with
    | some .resolved =>
      [result ++ " output=" ++
        wrapUntrustedObserverData (tools.serializeForObserver toolCall.output) toolCall.toolName]
    | some .rejected =>
      [result ++ " error=" ++
        wrapUntrustedObserverData (tools.serializeErrorForObserver toolCall.error) toolCall.toolName]
    | some .pending | none => []

def messageLines (m : DbMessage) : List String :=
  match m.body with
  | .custom _ => []
  | .llm message =>
    let timestamp := tools.toISOString m.createdAt
    let text := "\n".intercalate (message.content.filterMap fun block =>
      match block.content with
      | .text text => some text
      | _ => none)
    let textLines :=
      if text = "" then []
      else
        match message.origin with
        | some toolName =>
          ["[" ++ timestamp ++ "] tool_message " ++ toolName ++ ":",
            wrapUntrustedObserverData (tools.redactText text) toolName]
        | none => ["[" ++ timestamp ++ "] " ++ message.role.name ++ ":", tools.redactText text]
    textLines ++ (message.content.filterMap ContentBlock.toolCall?).flatMap (toolCallLines tools timestamp)

def renderObserverTranscript (messages : List DbMessage) : String :=
  "\n".intercalate (messages.flatMap (messageLines tools))

end Transcript

structure ParsedObservationLogEntry where
  marker : ObservationLogMarker
  text : String
  parentIndex : Option Nat
deriving DecidableEq

structure ParseObservationLogMarkdownResult where
  entries : List ParsedObservationLogEntry
  skippedLines : List String
deriving DecidableEq

section Parse

def isSpaceChar (c : Char) : Bool := c.toNat < 0x10000 && isSpace c.toNat.toUInt16

/-- What the `.` of a regular expression does not match. -/
def isLineTerminator (c : Char) : Bool := c ∈ ['\n', '\r', '\u2028', '\u2029']

def trimChars (s : List Char) : List Char := (s.dropWhile isSpaceChar).rdropWhile isSpaceChar

def markerTokens : List (List Char × ObservationLogMarker) :=
  [("CRITICAL".toList, .critical), ("IMPORTANT".toList, .important), ("INFO".toList, .info),
    ("COMPLETION".toList, .completion)]

/-- `\s+(.+)$`. If there is only white space, the last of it is the text. -/
def matchText (s : List Char) : Option (List Char) :=
  match s.takeWhile isSpaceChar, s.dropWhile isSpaceChar with
  | [], _ => none
  | spaces, [] =>
    match spaces.reverse with
    | last :: _ :: _ => if isLineTerminator last then none else some [last]
    | _ => none
  | _, text => if text.any isLineTerminator then none else some text

/-- `\s+\(\d{2}:\d{2}\)` -/
def matchTime (s : List Char) : Option (List Char) :=
  if s.takeWhile isSpaceChar = [] then none
  else
    match s.dropWhile isSpaceChar with
    | '(' :: a :: b :: ':' :: c :: d :: ')' :: rest => if [a, b, c, d].all Char.isDigit then some rest else none
    | _ => none

def matchBullet (rawLine : List Char) : Option (List Char × ObservationLogMarker × List Char) :=
  match rawLine.dropWhile isSpaceChar with
  | bullet :: rest =>
    if (bullet = '*' ∨ bullet = '-') ∧ rest.takeWhile isSpaceChar ≠ [] then
      let line := rest.dropWhile isSpaceChar
      markerTokens.findSome? fun (token, marker) =>
        if token <+: line.map Char.toUpper then
          let rest := line.drop token.length
          (((matchTime rest).bind matchText).or (matchText rest)).map fun text =>
            (rawLine.takeWhile isSpaceChar, marker, text)
        else none
    else none
  | [] => none

/-- `split(/\r?\n/)` -/
def splitLines : List Char → List (List Char)
  | [] => [[]]
  | '\r' :: '\n' :: rest => [] :: splitLines rest
  | '\n' :: rest => [] :: splitLines rest
  | c :: rest =>
    match splitLines rest with
    | [] => [[c]]
    | line :: lines => (c :: line) :: lines

structure ParseState where
  result : ParseObservationLogMarkdownResult
  currentParentIndex : Option Nat

def parseLine (s : ParseState) (rawLine : List Char) : ParseState :=
  let skipped : ParseState :=
    { s with result := { s.result with skippedLines := s.result.skippedLines ++ [String.ofList rawLine] } }
  if trimChars rawLine = [] then s
  else
    match matchBullet rawLine with
    | none => skipped
    | some (indentation, marker, text) =>
      let isChild := indentation.length > 0
      if isChild ∧ s.currentParentIndex = none then skipped
      else
        let parentIndex := if isChild then s.currentParentIndex else none
        let entries := s.result.entries ++ [⟨marker, String.ofList (trimChars text), parentIndex⟩]
        ⟨{ s.result with entries }, if isChild then s.currentParentIndex else some (entries.length - 1)⟩

def parseObservationLogMarkdown (markdown : String) : ParseObservationLogMarkdownResult :=
  ((splitLines markdown.toList).foldl parseLine ⟨⟨[], []⟩, none⟩).result

example : parseObservationLogMarkdown "* INFO (10:00) likes tea\n  - important\tearl grey\nnoise" =
    ⟨[⟨.info, "likes tea", none⟩, ⟨.important, "earl grey", some 0⟩], ["noise"]⟩ := by decide +kernel

end Parse

/-!
The observer of a thread beside the saving of its messages. Each awaited call of a run is a step of its own: it takes
effect in the store at once, and messages are saved between the steps of a run. One run is under way at a time.
-/

structure ObserverInput where
  now : Int
  deltaMessages : List DbMessage
  transcript : String
  transcriptTokenCount : Nat
  observationLogTail : List ObservationLogEntry
  renderedObservationLogTail : Option String

structure PreparedEntry where
  marker : ObservationLogMarker
  parentIndex : Option Nat
  text : String
  tokenCount : Nat

inductive RunObservationLogObserverResult
  | noDelta
  | pendingToolCall
  | ran (observationsWritten : Nat) (cursorAdvanced : Bool) (tokenCount : Nat) (skippedLines : List String)
deriving DecidableEq

/-- Where the run of the observer is: what it waits for, and what it holds. No run is under way after the result of the
last one, if it did not fail. -/
inductive ObserverRun
  | idle (result : Option RunObservationLogObserverResult)
  | readingCursor (now : Int)
  | readingMessages (now : Int) (cursor : Option ObservationCursor)
  | countingTranscript (now : Int) (observable : List DbMessage)
  | readingLog (now : Int) (observable : List DbMessage) (tokenCount : Nat)
  | observing (input : ObserverInput)
  | countingEntries (input : ObserverInput) (parsed : ParseObservationLogMarkdownResult)
  | appending (input : ObserverInput) (skippedLines : List String) (entry : PreparedEntry)
      (prepared : List PreparedEntry) (inserted : List ObservationLogEntry)
  | settingCursor (cursor : ObservationCursor) (result : RunObservationLogObserverResult)

structure ObserverState where
  store : MemoryStore
  run : ObserverRun
  /-- The observations that were stored, each with what the observer was given. -/
  written : List (ObserverInput × ObservationLogEntry)

inductive ObserverLabel
  | save (resourceId : Option String) (messages : List DbMessage)
  | start (now : Int)
  | cursorRead
  | messagesRead
  | transcriptCounted (tokenCount : Nat)
  | logRead
  | observed (markdown : String)
  | entriesCounted (tokenCounts : List Nat)
  | appended (id : CodeUnits)
  | cursorSet
  /-- The call in flight fails. -/
  | failed
  /-- The write in flight is carried out, but its call fails. -/
  | appendedAndFailed (id : CodeUnits)
  | cursorSetAndFailed

/-- The messages before the first one that hosts a pending tool call. -/
def observableMessages (deltaMessages : List DbMessage) : List DbMessage :=
  match deltaMessages.findIdx? hasPendingToolCall with
  | none => deltaMessages
  | some firstPendingIndex => deltaMessages.take firstPendingIndex

def PreparedEntry.row (entry : PreparedEntry) (id : CodeUnits) (now : Int) (inserted : List ObservationLogEntry) :
    ObservationLogEntry where
  id := id
  marker := entry.marker
  text := entry.text
  parentId := entry.parentIndex.bind fun parentIndex => inserted[parentIndex]?.map (·.id)
  tokenCount := entry.tokenCount
  status := .active
  supersededBy := none
  createdAt := now + inserted.length

def observerCursor (lastMessage : DbMessage) (now : Int) : ObservationCursor :=
  ⟨lastMessage.id, lastMessage.createdAt, now⟩

/-- Goes on to the next entry, and after the last one to the cursor, which stays where it is if nothing was inserted. -/
def appendNext (input : ObserverInput) (skippedLines : List String) (inserted : List ObservationLogEntry) :
    List PreparedEntry → ObserverRun
  | entry :: prepared => .appending input skippedLines entry prepared inserted
  | [] =>
    let cursorAdvanced := decide (inserted.length > 0)
    let result := .ran inserted.length cursorAdvanced input.transcriptTokenCount skippedLines
    match cursorAdvanced, input.deltaMessages.getLast? with
    | true, some lastMessage => .settingCursor (observerCursor lastMessage input.now) result
    | _, _ => .idle (some result)

section Step

variable (tools : ObserverTools) (observationLogTailLimit : Nat)

def prepareEntries (entries : List ParsedObservationLogEntry) (tokenCounts : List Nat) : List PreparedEntry :=
  (entries.zip tokenCounts).map fun (entry, tokenCount) =>
    ⟨entry.marker, entry.parentIndex, tools.redactText entry.text, tokenCount⟩

def ObserverState.reply (s : ObserverState) : ObserverRun → ObserverLabel → Option ObserverState
  | .readingCursor now, .cursorRead => some { s with run := .readingMessages now s.store.cursor }
  | .readingMessages now cursor, .messagesRead =>
    let (deltaMessages, store) := s.store.getMessagesForObservationScope cursor
    let observable := observableMessages deltaMessages
    some { s with
      store
      run :=
        if deltaMessages.length = 0 then .idle (some .noDelta)
        else if observable.length = 0 then .idle (some .pendingToolCall)
        else .countingTranscript now observable }
  | .countingTranscript now observable, .transcriptCounted tokenCount =>
    some { s with run := .readingLog now observable tokenCount }
  | .readingLog now observable tokenCount, .logRead =>
    let observationLogTail := (s.store.getActiveObservationLog observationLogTailLimit .desc).reverse
    some { s with
      run := .observing ⟨now, observable, renderObserverTranscript tools observable, tokenCount, observationLogTail,
        tools.renderObservationLog observationLogTail⟩ }
  | .observing input, .observed markdown =>
    some { s with run := .countingEntries input (parseObservationLogMarkdown markdown) }
  | .countingEntries input parsed, .entriesCounted tokenCounts =>
    if tokenCounts.length = parsed.entries.length then
      some { s with run := appendNext input parsed.skippedLines [] (prepareEntries tools parsed.entries tokenCounts) }
    else none
  | .appending input skippedLines entry prepared inserted, .appended id =>
    let row := entry.row id input.now inserted
    some ⟨s.store.appendObservationLogEntry row, appendNext input skippedLines (inserted ++ [row]) prepared,
      s.written ++ [(input, row)]⟩
  | .settingCursor cursor result, .cursorSet =>
    some { s with store := s.store.setCursor cursor, run := .idle (some result) }
  | .appending input _ entry _ inserted, .appendedAndFailed id =>
    let row := entry.row id input.now inserted
    some ⟨s.store.appendObservationLogEntry row, .idle none, s.written ++ [(input, row)]⟩
  | .settingCursor cursor _, .cursorSetAndFailed =>
    some { s with store := s.store.setCursor cursor, run := .idle none }
  | .idle _, .failed => none
  | _, .failed => some { s with run := .idle none }
  | _, _ => none

def ObserverState.step (s : ObserverState) : ObserverLabel → Option ObserverState
  | .save resourceId messages => some { s with store := s.store.saveMessages resourceId messages }
  | .start now =>
    match s.run with
    | .idle _ => some { s with run := .readingCursor now }
    | _ => none
  | label => s.reply tools observationLogTailLimit s.run label

def observerSystem : TransitionSystem ObserverState ObserverLabel where
  init s := s = ⟨.empty, .idle none, []⟩
  step s label := s.step tools observationLogTailLimit label

end Step

/-- A message is new and later than all messages saved before, or it is saved again: as it was, or with what has become
of its pending tool call. -/
def SavesNext (store : MemoryStore) (msg : DbMessage) : Prop :=
  (∀ s ∈ store.messages, s.message.id ≠ msg.id ∧ s.keyset < msg.keyset) ∨
    ∃ s ∈ store.messages, s.message.id = msg.id ∧ s.keyset = msg.keyset ∧
      (s.message = msg ∨ hasPendingToolCall s.message = true)

def SavesInOrder (resourceId : Option String) : MemoryStore → List DbMessage → Prop
  | _, [] => True
  | store, msg :: messages =>
    SavesNext store msg ∧ SavesInOrder resourceId (store.saveMessage (resourceId.getD "") msg) messages

/-- The messages are saved in the order of their dates and ids; the rest may happen at any time. -/
def InOrder (s : ObserverState) : ObserverLabel → Prop
  | .save resourceId messages => SavesInOrder resourceId s.store messages
  | _ => True

end N8n.Agents
