import N8n.Agents.Message
import N8n.Lib.JsonText

namespace N8n.Agents

open N8n.Lib

structure NumberFormat where
  write : Rat → Decimal
  read : Decimal → Rat

namespace NumberFormat

variable (format : NumberFormat)

mutual

def toValue : Json → JsonText.Value
  | .null => .null
  | .bool b => .bool b
  | .num q => .num (format.write q)
  | .str s => .str (Utf16.units s.toList)
  | .arr items => .arr (toValues items)
  | .obj fields => .obj (toEntries fields)

def toValues : List Json → List JsonText.Value
  | [] => []
  | v :: vs => toValue v :: toValues vs

def toEntries : List (String × Json) → List (CodeUnits × JsonText.Value)
  | [] => []
  | (k, v) :: fields => (Utf16.units k.toList, toValue v) :: toEntries fields

end

mutual

def ofValue : JsonText.Value → Json
  | .null => .null
  | .bool b => .bool b
  | .num x => .num (format.read x)
  | .str s => .str (String.ofList (Utf16.chars s))
  | .arr items => .arr (ofValues items)
  | .obj entries => .obj (ofEntries entries)
  | .buffer _ => .null

def ofValues : List JsonText.Value → List Json
  | [] => []
  | v :: vs => ofValue v :: ofValues vs

def ofEntries : List (CodeUnits × JsonText.Value) → List (String × Json)
  | [] => []
  | (k, v) :: entries => (String.ofList (Utf16.chars k), ofValue v) :: ofEntries entries

end

def stringify (v : Json) : String := String.ofList (JsonText.stringify (format.toValue v))

def parse (text : String) : Option Json := (JsonText.parse text.toList).map format.ofValue

end NumberFormat

inductive AiData
  | inline (data : FileData)
  | url (href : String)

inductive ReasoningFileData
  | plain (data : AiData)
  | data (data : FileData)
  | url (href : String)

inductive ToolResultOutput
  | json (value : Option Json)
  | text (value : String)
  /-- An output of the type `content`, as a whole. -/
  | content (output : Json)
  | errorJson (value : Option Json)
  | errorText (value : String)
  /-- An output of another type, as a whole. -/
  | other (output : Json)

inductive AiPart
  | text (text : String)
  | file (data : AiData) (mediaType : String)
  | image (data : AiData) (mediaType : Option String)
  | reasoning (text : String)
  | reasoningFile (data : ReasoningFileData) (mediaType : String)
  | custom (kind : String)
  | toolCall (toolCallId toolName : String) (input : Json) (providerExecuted : Option Bool)
  | toolResult (toolCallId toolName : String) (output : ToolResultOutput)
  | toolApproval

structure AiContentPart where
  part : AiPart
  metadata : ContentMetadata := {}

inductive ModelContent
  | text (text : String)
  | parts (parts : List AiContentPart)

structure ModelMessage where
  role : MessageRole
  content : ModelContent
  providerOptions : Option IDataObject

structure ProviderQuirks where
  reasoningReplayKeys : Option (List String) := none
  mergesAdjacentAssistantMessages : Bool := false

def PROVIDER_QUIRKS : List (String × ProviderQuirks) :=
  [("anthropic",
      { reasoningReplayKeys := some ["signature", "redactedData"], mergesAdjacentAssistantMessages := true }),
    ("google-vertex-anthropic", {}),
    ("openai", { reasoningReplayKeys := some ["itemId", "reasoningEncryptedContent"] }), ("groq", {}), ("google", {}),
    ("xai", {}), ("custom", {}), ("moonshotai", {})]

def getProviderQuirks (providerId : String) : ProviderQuirks := (Entries.lookup providerId PROVIDER_QUIRKS).getD {}

def isString : Json → Bool
  | .str _ => true
  | _ => false

def hasEntries : Json → Bool
  | .obj fields => !fields.isEmpty
  | .arr items => !items.isEmpty
  | .str s => s ≠ ""
  | .null | .bool _ | .num _ => false

def hasReplayableReasoningProviderOptions (providerOptions : Option IDataObject) : Bool :=
  match providerOptions with
  | none => false
  | some providerOptions => providerOptions.any fun (provider, options) =>
    match (getProviderQuirks provider).reasoningReplayKeys with
    | some replayKeys => replayKeys.any fun key => (options.member key).any isString
    | none => hasEntries options

def isReasoningMergedByProvider (part : AiContentPart) : Bool :=
  match part.part with
  | .reasoning _ =>
    (part.metadata.providerOptions.getD []).any fun (ns, _) => (getProviderQuirks ns).mergesAdjacentAssistantMessages
  | _ => false

/-- The fields of an object; other values have none to spread. -/
def recordFields : Json → IDataObject
  | .obj fields => fields
  | _ => []

def toReasoningProviderOptions (metadata : ContentMetadata) : Option IDataObject :=
  let additions := PROVIDER_QUIRKS.foldl (fun additions (provider, quirks) =>
    match quirks.reasoningReplayKeys with
    | none => additions
    | some replayKeys =>
      let record := metadata.providerMetadata.bind (field · provider)
      let replayed := replayKeys.foldl (fun replayed key =>
        match record.bind (·.member key) with
        | some (.str s) => withField replayed key (.str s)
        | _ => replayed) []
      if replayed.isEmpty then additions
      else
        let options := (metadata.providerOptions.bind (field · provider)).getD .null
        withField additions provider (.obj (spread replayed (recordFields options)))) []
  if additions.isEmpty then metadata.providerOptions else some (spread (metadata.providerOptions.getD []) additions)

structure NormalizedInput where
  input : IDataObject
  error : Option String

def describeValue : Json → String
  | .arr _ => "array"
  | .null => "null"
  | .bool _ => "boolean"
  | .num _ => "number"
  | .str _ => "string"
  | .obj _ => "object"

variable (format : NumberFormat)

def normalizeToolInputForModel : Json → NormalizedInput
  | .str s =>
    match format.parse s with
    | some (.obj fields) => ⟨fields, none⟩
    | some parsed => ⟨[], some ("Tool input must be a JSON object, got " ++ describeValue parsed ++ ".")⟩
    | none => ⟨[], some "Tool input must be a valid JSON object string."⟩
  | .obj fields => ⟨fields, none⟩
  | .null => ⟨[], none⟩
  | value => ⟨[], some ("Tool input must be a JSON object, got " ++ describeValue value ++ ".")⟩

def toToolInputObject (value : Json) : Json := .obj (normalizeToolInputForModel format value).input

def isContentToolResultOutput (value : Json) : Bool :=
  match value.member "type", value.member "value" with
  | some (.str "content"), some (.arr parts) => parts.all fun part =>
    match part.member "type" with
    | some (.str "text") => (part.member "text").any isString
    | some (.str _) => true
    | _ => false
  | _, _ => false

def toFixed1 (n d : Nat) : String :=
  let tenths := (20 * n + d) / (2 * d)
  toString (tenths / 10) ++ "." ++ toString (tenths % 10)

def formatFileSize (bytes : Nat) : String :=
  if bytes < 1024 then toString bytes ++ " B"
  else if bytes < 1024 * 1024 then toFixed1 bytes 1024 ++ " KB"
  else toFixed1 bytes (1024 * 1024) ++ " MB"

def fileMetadataText (mediaType : Option String) (fileRef : Option ContentFileRef) : String :=
  let name := (fileRef.bind (·.fileName)).getD "file"
  let size := fileRef.bind (·.sizeBytes)
  let details := ", ".intercalate (mediaType.toList ++ (size.map formatFileSize).toList)
  let id := (fileRef.map (·.id)).getD ""
  "[File attachment \"" ++ name ++ "\"" ++ (if details = "" then "" else " (" ++ details ++ ")") ++
    (if id = "" then "" else ", fileId: " ++ id) ++ " — not directly viewable by this model]"

def toolCallPart (call : ContentToolCall) : AiPart :=
  .toolCall call.toolCallId call.toolName (toToolInputObject format call.input) call.providerExecuted

def toAiContent (block : ContentBlock) : Option AiContentPart :=
  match block.content with
  | .text text => some ⟨.text text, block.metadata⟩
  | .file mediaType none fileRef => some ⟨.text (fileMetadataText mediaType fileRef), block.metadata⟩
  | .file mediaType (some data) _ =>
    some ⟨.file (.inline data) (mediaType.getD "application/octet-stream"), block.metadata⟩
  | .reasoningFile none _ => none
  | .reasoningFile (some data) mediaType => some ⟨.reasoningFile (.plain (.inline data)) mediaType, block.metadata⟩
  | .custom kind => some ⟨.custom kind, block.metadata⟩
  | .toolCall call => some ⟨toolCallPart format call, block.metadata⟩
  | .reasoning text =>
    let providerOptions := toReasoningProviderOptions block.metadata
    if hasReplayableReasoningProviderOptions providerOptions then
      some ⟨.reasoning text, { block.metadata with providerOptions }⟩
    else none
  | .invalidToolCall _ | .citation _ | .provider _ => none

def isProviderExecuted (call : ContentToolCall) : Bool := call.providerExecuted = some true

def toolCallOutput (call : ContentToolCall) : ToolResultOutput :=
  if call.state = some .resolved then
    match call.output with
    | some output => if isContentToolResultOutput output then .content output else .json (some output)
    | none => .json none
  else
    match call.error with
    | some (.str error) => if isProviderExecuted call then .errorJson (some (.str error)) else .errorText error
    | error => .errorJson error

def toolCallToResultPart (call : ContentToolCall) : AiContentPart :=
  ⟨.toolResult call.toolCallId call.toolName (toolCallOutput call), {}⟩

def toAssistantParts (block : ContentBlock) : List AiContentPart × List ModelMessage :=
  match block.content with
  | .toolCall call =>
    -- calls of old rows and pending calls are left out
    if call.state = some .resolved ∨ call.state = some .rejected then
      let part := ⟨toolCallPart format call, block.metadata⟩
      if isProviderExecuted call then ([part, toolCallToResultPart call], [])
      else ([part], [⟨.tool, .parts [toolCallToResultPart call], none⟩])
    else ([], [])
  | _ => ((toAiContent format block).toList, [])

def isTextOrFile (part : AiContentPart) : Bool :=
  match part.part with
  | .text _ | .file _ _ => true
  | _ => false

def toAiMessageList (msg : Message) : List ModelMessage :=
  match msg.role with
  | .system =>
    let text := String.join (msg.content.filterMap fun block =>
      match block.content with
      | .text text => some text
      | _ => none)
    [⟨.system, .text text, msg.providerOptions⟩]
  | .user => [⟨.user, .parts ((msg.content.filterMap (toAiContent format)).filter isTextOrFile), msg.providerOptions⟩]
  | .assistant =>
    let assistantParts := msg.content.flatMap fun block => (toAssistantParts format block).1
    let resultMessages := msg.content.flatMap fun block => (toAssistantParts format block).2
    (if assistantParts.length > 0 then [⟨.assistant, .parts assistantParts, msg.providerOptions⟩] else []) ++
      resultMessages
  | .tool => []

/-- Reasoning is kept only on the last of the assistant messages that a provider merges. -/
def keepReplayable : List ModelMessage → List ModelMessage
  | [] => []
  | message :: rest =>
    match message.role, message.content, rest.head?.map ModelMessage.role with
    | .assistant, .parts parts, some .assistant =>
      let content := parts.filter fun part => !isReasoningMergedByProvider part
      if content.length > 0 then { message with content := .parts content } :: keepReplayable rest
      else keepReplayable rest
    | _, _, _ => message :: keepReplayable rest

def toAiMessages (messages : List Message) : List ModelMessage :=
  keepReplayable (messages.flatMap (toAiMessageList format))

def AiData.toFileData : AiData → FileData
  | .inline data => data
  | .url href => .text href

def normalizeReasoningFileData : ReasoningFileData → FileData
  | .plain data => data.toFileData
  | .data data => data
  | .url href => .text href

def fromAiPart : AiPart → Option MessageContent
  | .text text => some (.text text)
  | .file data mediaType => some (.file (some mediaType) (some data.toFileData) none)
  | .image data mediaType => some (.file mediaType (some data.toFileData) none)
  | .reasoning text => some (.reasoning text)
  | .reasoningFile data mediaType => some (.reasoningFile (some (normalizeReasoningFileData data)) mediaType)
  | .custom kind => some (.custom kind)
  | .toolCall toolCallId toolName input providerExecuted =>
    let normalized := normalizeToolInputForModel format input
    some (.toolCall
      { toolCallId
        toolName
        input := .obj normalized.input
        providerExecuted
        state := some (if normalized.error.isNone then .pending else .rejected)
        error := normalized.error.map .str })
  | .toolResult .. | .toolApproval => none

def fromAiContent (part : AiContentPart) : Option ContentBlock :=
  (fromAiPart format part.part).map fun content => ⟨content, part.metadata⟩

structure BlockRef where
  message : Nat
  block : Nat

structure Conversion where
  result : List Message
  toolCallIndex : String → Option BlockRef

def settleCall (output : ToolResultOutput) (call : ContentToolCall) : ContentToolCall :=
  match output with
  | .json value => { call with state := some .resolved, output := value }
  | .text value => { call with state := some .resolved, output := some (.str value) }
  | .content output => { call with state := some .resolved, output := some output }
  | .errorJson value =>
    { call with state := some .rejected, error := value.map fun v => .str (format.stringify v) }
  | .errorText value => { call with state := some .rejected, error := some (.str value) }
  | .other output => { call with state := some .rejected, error := some (.str (format.stringify output)) }

namespace Conversion

def writeBlock (c : Conversion) (ref : BlockRef) (f : ContentToolCall → ContentToolCall) : Conversion :=
  { c with result := c.result.modify ref.message fun msg =>
      { msg with content := msg.content.modify ref.block (·.writeCall f) } }

def settleToolCall (c : Conversion) (part : AiContentPart) : Conversion :=
  match part.part with
  | .toolResult toolCallId _ output =>
    match c.toolCallIndex toolCallId with
    | some ref => c.writeBlock ref (settleCall format output)
    | none => c
  | _ => c

def settleToolCalls (c : Conversion) (parts : List AiContentPart) : Conversion :=
  parts.foldl (settleToolCall format) c

def indexToolCalls (message : Nat) : Nat → List ContentBlock → (String → Option BlockRef) → String → Option BlockRef
  | _, [], index => index
  | j, block :: blocks, index =>
    indexToolCalls message (j + 1) blocks
      (match block.toolCall? with
        | some call =>
          if call.toolCallId = "" then index else Function.update index call.toolCallId (some ⟨message, j⟩)
        | none => index)

def addMessage (c : Conversion) (msg : ModelMessage) : Conversion :=
  match msg.role, msg.content with
  | .tool, .parts parts => c.settleToolCalls format parts
  | .tool, .text _ => c
  | role, .text text => { c with result := c.result ++ [⟨role, [⟨.text text, {}⟩], none, msg.providerOptions, none⟩] }
  | role, .parts parts =>
    let content := parts.filterMap (fromAiContent format)
    let pushed := { c with result := c.result ++ [⟨role, content, none, msg.providerOptions, none⟩] }
    if role = .assistant then
      let toolCallIndex := indexToolCalls c.result.length 0 content c.toolCallIndex
      { pushed with toolCallIndex }.settleToolCalls format parts
    else pushed

end Conversion

def fromAiMessages (messages : List ModelMessage) : List Message :=
  (messages.foldl (Conversion.addMessage format) ⟨[], fun _ => none⟩).result

end N8n.Agents
