import N8n.Workflow.Interfaces

namespace N8n.Agents

inductive MessageRole
  | system | user | assistant | tool
  deriving DecidableEq

structure ContentMetadata where
  providerMetadata : Option IDataObject := none
  providerOptions : Option IDataObject := none

/-- The data of a file: inline text, binary data, or what a JSON text has left of binary data. -/
inductive FileData
  | text (s : String)
  | uint8Array (bytes : List UInt8)
  | arrayBuffer (bytes : List UInt8)
  | buffer (bytes : List UInt8)
  | record (fields : IDataObject)

structure ContentFileRef where
  id : String
  fileName : Option String := none
  sizeBytes : Option Nat := none

inductive ToolCallState
  | pending | resolved | rejected
  deriving DecidableEq

structure ContentToolCall where
  toolCallId : String
  toolName : String
  input : Json
  providerExecuted : Option Bool := none
  state : Option ToolCallState
  output : Option Json := none
  error : Option Json := none
  canceled : Option Bool := none
  suspension : Option Json := none

inductive MessageContent
  | text (text : String)
  | toolCall (call : ContentToolCall)
  | invalidToolCall (fields : IDataObject)
  | reasoning (text : String)
  | reasoningFile (data : Option FileData) (mediaType : String)
  | file (mediaType : Option String) (data : Option FileData) (fileRef : Option ContentFileRef)
  | citation (fields : IDataObject)
  | custom (kind : String)
  | provider (value : IDataObject)

structure ContentBlock where
  content : MessageContent
  metadata : ContentMetadata := {}

structure Message where
  role : MessageRole
  content : List ContentBlock
  name : Option String := none
  providerOptions : Option IDataObject := none
  /-- The name of the tool that the message comes from. -/
  origin : Option String := none

def byteValue (byte : UInt8) : Json := .num byte.toNat

/-- The data after `JSON.stringify` and `JSON.parse`. -/
def FileData.jsonRoundTrip : FileData → FileData
  | .text s => .text s
  | .uint8Array bytes => .record (bytes.zipIdx.map fun (byte, i) => (toString i, byteValue byte))
  | .arrayBuffer _ => .record []
  | .buffer bytes => .record [("type", .str "Buffer"), ("data", .arr (bytes.map byteValue))]
  | .record fields => .record fields

def FileData.isBinary : FileData → Bool
  | .uint8Array _ | .arrayBuffer _ | .buffer _ => true
  | .text _ | .record _ => false

theorem FileData.jsonRoundTrip_of_not_isBinary {data : FileData} (h : data.isBinary = false) :
    data.jsonRoundTrip = data := by
  cases data with
  | text | record => rfl
  | uint8Array | arrayBuffer | buffer => cases h

def MessageContent.jsonRoundTrip : MessageContent → MessageContent
  | .file mediaType data fileRef => .file mediaType (data.map (·.jsonRoundTrip)) fileRef
  | .reasoningFile data mediaType => .reasoningFile (data.map (·.jsonRoundTrip)) mediaType
  | content => content

def MessageContent.fileData : MessageContent → Option FileData
  | .file _ data _ | .reasoningFile data _ => data
  | _ => none

theorem FileData.map_jsonRoundTrip {data : Option FileData} (h : ∀ d ∈ data, d.isBinary = false) :
    data.map (·.jsonRoundTrip) = data := by
  cases data with
  | none => rfl
  | some d => exact congrArg some (jsonRoundTrip_of_not_isBinary (h d rfl))

theorem MessageContent.jsonRoundTrip_of_not_isBinary {content : MessageContent}
    (h : ∀ data ∈ content.fileData, data.isBinary = false) : content.jsonRoundTrip = content := by
  cases content with
  | file mediaType data fileRef =>
    exact congrArg (MessageContent.file mediaType · fileRef) (FileData.map_jsonRoundTrip h)
  | reasoningFile data mediaType =>
    exact congrArg (MessageContent.reasoningFile · mediaType) (FileData.map_jsonRoundTrip h)
  | _ => rfl

def ContentToolCall.made (call : ContentToolCall) : ContentToolCall :=
  { call with state := none, output := none, error := none, canceled := none, suspension := none }

namespace ContentBlock

def jsonRoundTrip (block : ContentBlock) : ContentBlock := { block with content := block.content.jsonRoundTrip }

def toolCall? (block : ContentBlock) : Option ContentToolCall :=
  match block.content with
  | .toolCall call => some call
  | _ => none

def isToolCall (toolCallId : String) (block : ContentBlock) : Bool :=
  match block.toolCall? with
  | some call => call.toolCallId = toolCallId
  | none => false

def writeCall (f : ContentToolCall → ContentToolCall) (block : ContentBlock) : ContentBlock :=
  match block.content with
  | .toolCall call => { block with content := .toolCall (f call) }
  | _ => block

def made (block : ContentBlock) : ContentBlock := block.writeCall ContentToolCall.made

def writeFirst (toolCallId : String) (f : ContentToolCall → ContentToolCall) : List ContentBlock → List ContentBlock
  | [] => []
  | block :: blocks =>
    if block.isToolCall toolCallId then block.writeCall f :: blocks else block :: writeFirst toolCallId f blocks

variable {toolCallId : String} {f : ContentToolCall → ContentToolCall}

theorem map_writeFirst {β : Type} (g : ContentBlock → β) (hg : ∀ block, g (block.writeCall f) = g block)
    (blocks : List ContentBlock) : (writeFirst toolCallId f blocks).map g = blocks.map g := by
  induction blocks with
  | nil => rfl
  | cons block blocks ih =>
    rw [writeFirst]
    split
    · rw [List.map_cons, hg, List.map_cons]
    · rw [List.map_cons, ih, List.map_cons]

theorem made_writeCall (hf : ∀ call, (f call).made = call.made) (block : ContentBlock) :
    (block.writeCall f).made = block.made := by
  rcases block with ⟨content, metadata⟩
  cases content with
  | toolCall call => exact congrArg (fun call => ContentBlock.mk (.toolCall call) metadata) (hf call)
  | _ => rfl

def isPlain (block : ContentBlock) : Bool := block.content.fileData.all fun data => !data.isBinary

theorem isPlain_writeCall (block : ContentBlock) : (block.writeCall f).isPlain = block.isPlain := by
  rcases block with ⟨content, metadata⟩
  cases content <;> rfl

theorem jsonRoundTrip_of_isPlain {block : ContentBlock} (h : block.isPlain) : block.jsonRoundTrip = block := by
  rcases block with ⟨content, metadata⟩
  have hsame : content.jsonRoundTrip = content := by
    apply MessageContent.jsonRoundTrip_of_not_isBinary
    intro data hdata
    have hall := Option.all_eq_true _ _ |>.1 h data hdata
    simpa using hall
  exact congrArg (ContentBlock.mk · metadata) hsame

end ContentBlock

end N8n.Agents
