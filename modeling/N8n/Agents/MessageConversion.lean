import N8n.Agents.ModelMessages

namespace N8n.Agents

open N8n.Lib

variable {format : NumberFormat} {call : ContentToolCall}

namespace ContentToolCall

structure Convertible (call : ContentToolCall) : Prop where
  id_ne : call.toolCallId ≠ ""
  input_obj : ∃ fields, call.input = .obj fields
  settled : call.state = some .resolved ∧ (∃ output, call.output = some output) ∧ call.error = none ∨
    call.state = some .rejected ∧ call.output = none ∧ (∃ error, call.error = some (.str error)) ∧
      isProviderExecuted call = false
  canceled_eq : call.canceled = none
  suspension_eq : call.suspension = none

def pending (call : ContentToolCall) : ContentToolCall :=
  { call with state := some .pending, output := none, error := none, canceled := none, suspension := none }

theorem Convertible.isSettled (h : call.Convertible) : call.state = some .resolved ∨ call.state = some .rejected := by
  rcases h.settled with ⟨hs, -⟩ | ⟨hs, -⟩
  · exact .inl hs
  · exact .inr hs

theorem Convertible.settleCall (h : call.Convertible) :
    settleCall format (toolCallOutput call) call.pending = call := by
  have hcanceled := h.canceled_eq
  have hsuspension := h.suspension_eq
  rcases h.settled with ⟨hs, ⟨output, ho⟩, he⟩ | ⟨hs, ho, ⟨error, he⟩, hp⟩
  · cases call
    simp only at hs ho he hcanceled hsuspension
    subst hs ho he hcanceled hsuspension
    simp only [toolCallOutput, if_pos]
    split <;> rfl
  · have hout : toolCallOutput call = .errorText error := by
      simp [toolCallOutput, hs, he, hp]
    rw [hout]
    cases call
    simp only at hs ho he hcanceled hsuspension
    subst hs ho he hcanceled hsuspension
    rfl

end ContentToolCall

namespace ContentBlock

def Convertible (block : ContentBlock) : Prop :=
  match block.content with
  | .text _ => True
  | .file (some _) (some _) none => True
  | .toolCall call => call.Convertible
  | _ => False

def callId (block : ContentBlock) : Option String := block.toolCall?.map (·.toolCallId)

def pending (block : ContentBlock) : ContentBlock := block.writeCall ContentToolCall.pending

end ContentBlock

def Message.callIds (msg : Message) : List String := msg.content.filterMap ContentBlock.callId

structure Message.Convertible (msg : Message) : Prop where
  role : msg.role = .user ∧ msg.callIds = [] ∨ msg.role = .assistant
  blocks : ∀ block ∈ msg.content, block.Convertible
  distinct : msg.callIds.Nodup

def Message.carried (msg : Message) : Message := { msg with name := none, origin := none }

def Message.hasBlocks (msg : Message) : Bool := !msg.content.isEmpty

variable {block : ContentBlock} {blocks : List ContentBlock} {index : String → Option BlockRef}

theorem fromAiContent_toAiContent (format : NumberFormat) (h : block.Convertible) (hcall : block.toolCall? = none) :
    ∃ part, toAiContent format block = some part ∧ isTextOrFile part = true ∧ fromAiContent format part = some block ∧
      isReasoningMergedByProvider part = false := by
  rcases block with ⟨content, metadata⟩
  cases content with
  | text text => exact ⟨⟨.text text, metadata⟩, rfl, rfl, rfl, rfl⟩
  | file mediaType data fileRef =>
    cases mediaType <;> cases data <;> cases fileRef <;> first | exact h.elim | exact ⟨_, rfl, rfl, rfl, rfl⟩
  | toolCall call => cases hcall
  | _ => exact h.elim

theorem toAssistantParts_of_no_call (h : block.toolCall? = none) :
    toAssistantParts format block = ((toAiContent format block).toList, []) := by
  rcases block with ⟨content, metadata⟩
  cases content with
  | toolCall call => cases h
  | _ => rfl

theorem mem_toAssistantParts_snd {m : ModelMessage} (h : m ∈ (toAssistantParts format block).2) :
    ∃ call, block.toolCall? = some call ∧ m = ⟨.tool, .parts [toolCallToResultPart call], none⟩ := by
  rcases block with ⟨content, metadata⟩
  cases content with
  | toolCall call =>
    refine ⟨call, rfl, ?_⟩
    simp only [toAssistantParts] at h
    split at h
    · split at h
      · cases h
      · exact List.mem_singleton.1 h
    · cases h
  | _ => cases h

theorem filterMap_toAssistantParts (format : NumberFormat) (h : block.Convertible) :
    (toAssistantParts format block).1.filterMap (fromAiContent format) = [block.pending] := by
  rcases block with ⟨content, metadata⟩
  cases content with
  | toolCall call =>
    have hcall : call.Convertible := h
    have hpart : fromAiContent format ⟨toolCallPart format call, metadata⟩ =
        some (ContentBlock.pending ⟨.toolCall call, metadata⟩) := by
      obtain ⟨fields, hf⟩ := hcall.input_obj
      simp only [fromAiContent, toolCallPart, toToolInputObject, hf, fromAiPart, normalizeToolInputForModel]
      simp only [ContentBlock.pending, ContentBlock.writeCall, ContentToolCall.pending, hf]
      rfl
    simp only [toAssistantParts, if_pos hcall.isSettled]
    split
    · rw [List.filterMap_cons_some hpart]
      rfl
    · rw [List.filterMap_cons_some hpart]
      rfl
  | text | file =>
    obtain ⟨part, hpart, -, hback, -⟩ := fromAiContent_toAiContent format h rfl
    simp only [toAssistantParts, hpart, Option.toList_some]
    rw [List.filterMap_cons_some hback]
    rfl
  | _ => exact h.elim

theorem filterMap_assistantParts (h : ∀ block ∈ blocks, block.Convertible) :
    (blocks.flatMap fun block => (toAssistantParts format block).1).filterMap (fromAiContent format) =
      blocks.map ContentBlock.pending := by
  induction blocks with
  | nil => rfl
  | cons block blocks ih =>
    rw [List.flatMap_cons, List.filterMap_append, filterMap_toAssistantParts format (h block List.mem_cons_self)]
    rw [ih fun b hb => h b (List.mem_cons_of_mem _ hb)]
    rfl

def Placed (index : String → Option BlockRef) (message : Nat) (blocks : List ContentBlock) : Prop :=
  ∀ (k : Nat) id, (blocks[k]?).bind ContentBlock.callId = some id → index id = some ⟨message, k⟩

def settleBlock (format : NumberFormat) (call : ContentToolCall) (block : ContentBlock) : ContentBlock :=
  if block.callId = some call.toolCallId then block.writeCall (settleCall format (toolCallOutput call)) else block

theorem callId_writeCall {f : ContentToolCall → ContentToolCall} (hf : ∀ call, (f call).toolCallId = call.toolCallId)
    (block : ContentBlock) : (block.writeCall f).callId = block.callId := by
  rcases block with ⟨content, metadata⟩
  cases content with
  | toolCall call => exact congrArg some (hf call)
  | _ => rfl

theorem toolCallId_settleCall (output : ToolResultOutput) (call : ContentToolCall) :
    (settleCall format output call).toolCallId = call.toolCallId := by
  cases output <;> rfl

theorem callId_settleBlock (call : ContentToolCall) (block : ContentBlock) :
    (settleBlock format call block).callId = block.callId := by
  rw [settleBlock]
  split
  · exact callId_writeCall (toolCallId_settleCall _) block
  · rfl

theorem Placed.map {n : Nat} {f : ContentBlock → ContentBlock}
    (h : Placed index n blocks) (hf : ∀ block, (f block).callId = block.callId) : Placed index n (blocks.map f) := by
  intro k id hk
  apply h k id
  rw [List.getElem?_map] at hk
  cases hb : blocks[k]? with
  | none =>
    rw [hb] at hk
    cases hk
  | some block =>
    rw [hb] at hk
    exact (hf block).symm.trans hk

theorem Placed.modify {n k : Nat}
    (h : Placed index n blocks) (hk : (blocks[k]?).bind ContentBlock.callId = some call.toolCallId) :
    blocks.modify k (·.writeCall (settleCall format (toolCallOutput call))) =
      blocks.map (settleBlock format call) := by
  apply List.ext_getElem?
  intro j
  rw [List.getElem?_modify, List.getElem?_map]
  cases hb : blocks[j]? with
  | none => rfl
  | some block =>
    rw [Option.map_eq_map, Option.map_some, Option.map_some, settleBlock]
    by_cases hj : k = j
    · subst hj
      rw [hb, Option.bind_some] at hk
      rw [if_pos rfl, if_pos hk]
    · have hne : block.callId ≠ some call.toolCallId := by
        intro hid
        have hplace := h j _ (by rw [hb]; exact hid)
        rw [h k _ hk] at hplace
        exact hj (by injection Option.some.inj hplace)
      rw [if_neg hj, if_neg hne]

theorem modify_last {α : Type} (f : α → α) (l : List α) (x : α) : (l ++ [x]).modify l.length f = l ++ [f x] := by
  induction l with
  | nil => rfl
  | cons y l ih => exact congrArg (y :: ·) ih

theorem foldl_settleToolCall {result : List Message} {msg : Message}
    {calls : List ContentToolCall} (h : Placed index result.length msg.content)
    (hcalls : ∀ call ∈ calls, some call.toolCallId ∈ msg.content.map ContentBlock.callId) :
    (calls.map toolCallToResultPart).foldl (Conversion.settleToolCall format) ⟨result ++ [msg], index⟩ =
      ⟨result ++ [{ msg with
        content := msg.content.map fun block => calls.foldl (fun b call => settleBlock format call b) block }],
        index⟩ := by
  induction calls generalizing msg with
  | nil => simp
  | cons call calls ih =>
    obtain ⟨block, hblock, hid⟩ := List.mem_map.1 (hcalls call List.mem_cons_self)
    obtain ⟨k, hk⟩ := List.getElem?_of_mem hblock
    have hplace : (msg.content[k]?).bind ContentBlock.callId = some call.toolCallId := by
      rw [hk]
      exact hid
    have hstep : Conversion.settleToolCall format ⟨result ++ [msg], index⟩ (toolCallToResultPart call) =
        ⟨result ++ [{ msg with content := msg.content.map (settleBlock format call) }], index⟩ := by
      simp only [Conversion.settleToolCall, toolCallToResultPart, h k _ hplace, Conversion.writeBlock]
      rw [modify_last, h.modify hplace]
    rw [List.map_cons, List.foldl_cons, hstep]
    have hkeep : ∀ block, (settleBlock format call block).callId = block.callId := callId_settleBlock call
    have hmap : (msg.content.map (settleBlock format call)).map ContentBlock.callId =
        msg.content.map ContentBlock.callId := by
      rw [List.map_map]
      exact List.map_congr_left fun block _ => hkeep block
    have hrest : ∀ c ∈ calls,
        some c.toolCallId ∈ (msg.content.map (settleBlock format call)).map ContentBlock.callId :=
      fun c hc => hmap ▸ hcalls c (List.mem_cons_of_mem _ hc)
    have hplaced : Placed index result.length
        { msg with content := msg.content.map (settleBlock format call) }.content := h.map hkeep
    rw [ih hplaced hrest, List.map_map]
    rfl

theorem foldl_settleBlock_of_ne {calls : List ContentToolCall}
    (h : ∀ call ∈ calls, block.callId ≠ some call.toolCallId) :
    calls.foldl (fun b call => settleBlock format call b) block = block := by
  induction calls with
  | nil => rfl
  | cons call calls ih =>
    rw [List.foldl_cons, settleBlock, if_neg (h call List.mem_cons_self)]
    exact ih fun c hc => h c (List.mem_cons_of_mem _ hc)

theorem foldl_settleBlock {calls : List ContentToolCall} (h : block.Convertible)
    (hdistinct : (calls.map (·.toolCallId)).Nodup) (hmem : ∀ call ∈ block.toolCall?, call ∈ calls) :
    calls.foldl (fun b call => settleBlock format call b) block.pending = block := by
  have hid : block.pending.callId = block.callId := callId_writeCall (f := ContentToolCall.pending) (fun _ => rfl) block
  cases hcall : block.toolCall? with
  | none =>
    have hpending : block.pending = block := by
      rcases block with ⟨content, metadata⟩
      cases content <;> first | rfl | cases hcall
    have hnone : block.callId = none := by rw [ContentBlock.callId, hcall, Option.map_none]
    rw [hpending]
    apply foldl_settleBlock_of_ne
    intro call _
    rw [hnone]
    simp
  | some call =>
    obtain ⟨before, after, rfl⟩ := List.append_of_mem (hmem call hcall)
    have hsome : block.callId = some call.toolCallId := by rw [ContentBlock.callId, hcall, Option.map_some]
    rw [List.map_append, List.map_cons, List.nodup_middle, List.nodup_cons, List.mem_append] at hdistinct
    obtain ⟨hnot, -⟩ := hdistinct
    have hother : ∀ c, c ∈ before ∨ c ∈ after → call.toolCallId ≠ c.toolCallId := by
      rintro c hc heq
      apply hnot
      rw [heq]
      exact hc.imp List.mem_map_of_mem List.mem_map_of_mem
    have hsettled : settleBlock format call block.pending = block := by
      rw [settleBlock, hid, if_pos hsome]
      rcases block with ⟨content, metadata⟩
      cases content with
      | toolCall c =>
        cases hcall
        exact congrArg (fun call => ContentBlock.mk (.toolCall call) metadata)
          (ContentToolCall.Convertible.settleCall h)
      | _ => cases hcall
    rw [List.foldl_append, List.foldl_cons]
    have hbefore : before.foldl (fun b call => settleBlock format call b) block.pending = block.pending := by
      apply foldl_settleBlock_of_ne
      intro c hc
      rw [hid, hsome]
      exact fun heq => hother c (.inl hc) (Option.some.inj heq)
    rw [hbefore, hsettled]
    apply foldl_settleBlock_of_ne
    intro c hc
    rw [hsome]
    exact fun heq => hother c (.inr hc) (Option.some.inj heq)

theorem indexToolCalls_of_notMem {n j : Nat} {id : String}
    (h : id ∉ blocks.filterMap ContentBlock.callId) : Conversion.indexToolCalls n j blocks index id = index id := by
  induction blocks generalizing j index with
  | nil => rfl
  | cons block blocks ih =>
    rw [Conversion.indexToolCalls, ih]
    · cases hcall : block.toolCall? with
      | none => rfl
      | some call =>
        have hne : id ≠ call.toolCallId := by
          rintro rfl
          apply h
          have hid : block.callId = some call.toolCallId := by rw [ContentBlock.callId, hcall, Option.map_some]
          rw [List.filterMap_cons_some hid]
          exact List.mem_cons_self
        by_cases hempty : call.toolCallId = ""
        · simp only [if_pos hempty]
        · simp only [if_neg hempty, Function.update_of_ne hne]
    · intro hmem
      apply h
      rw [List.filterMap_cons]
      split
      · exact hmem
      · exact List.mem_cons_of_mem _ hmem

theorem indexToolCalls_getElem {n j k : Nat} {id : String} (hne : id ≠ "")
    (hdistinct : (blocks.filterMap ContentBlock.callId).Nodup) (hk : (blocks[k]?).bind ContentBlock.callId = some id) :
    Conversion.indexToolCalls n j blocks index id = some ⟨n, j + k⟩ := by
  induction blocks generalizing j k index with
  | nil => cases hk
  | cons block blocks ih =>
    rw [Conversion.indexToolCalls]
    cases k with
    | zero =>
      rw [List.getElem?_cons_zero, Option.bind_some] at hk
      rw [List.filterMap_cons_some hk, List.nodup_cons] at hdistinct
      rw [indexToolCalls_of_notMem hdistinct.1]
      obtain ⟨call, hcall, rfl⟩ := Option.map_eq_some_iff.1 hk
      simp only [hcall, if_neg hne, Function.update_self, Nat.add_zero]
    | succ k =>
      rw [List.getElem?_cons_succ] at hk
      have hrest : (blocks.filterMap ContentBlock.callId).Nodup := by
        rw [List.filterMap_cons] at hdistinct
        split at hdistinct
        · exact hdistinct
        · exact (List.nodup_cons.1 hdistinct).2
      rw [ih hrest hk, Nat.add_right_comm, Nat.add_assoc]

def calls (blocks : List ContentBlock) : List ContentToolCall := blocks.filterMap ContentBlock.toolCall?

theorem map_calls (blocks : List ContentBlock) :
    (calls blocks).map (·.toolCallId) = blocks.filterMap ContentBlock.callId := by
  rw [calls, List.map_filterMap]
  rfl

theorem calls_cons_none (h : block.toolCall? = none) : calls (block :: blocks) = calls blocks :=
  List.filterMap_cons_none h

theorem calls_cons_some (h : block.toolCall? = some call) : calls (block :: blocks) = call :: calls blocks :=
  List.filterMap_cons_some h

variable {c : Conversion} {msg : Message} {l : List ModelMessage}

theorem settleToolCalls_parts (h : ∀ block ∈ blocks, block.Convertible) :
    c.settleToolCalls format (blocks.flatMap fun block => (toAssistantParts format block).1) =
      (((calls blocks).filter isProviderExecuted).map toolCallToResultPart).foldl
        (Conversion.settleToolCall format) c := by
  rw [Conversion.settleToolCalls]
  induction blocks generalizing c with
  | nil => rfl
  | cons block blocks ih =>
    have hrest : ∀ block ∈ blocks, block.Convertible := fun b hb => h b (List.mem_cons_of_mem _ hb)
    have hblock := h block List.mem_cons_self
    rw [List.flatMap_cons, List.foldl_append, ih hrest]
    cases hcall : block.toolCall? with
    | none =>
      have hsame : (toAssistantParts format block).1.foldl (Conversion.settleToolCall format) c = c := by
        obtain ⟨part, hpart, htext, -, -⟩ := fromAiContent_toAiContent format hblock hcall
        have hparts : (toAssistantParts format block).1 = [part] := by
          rw [toAssistantParts_of_no_call hcall, hpart, Option.toList_some]
        rw [hparts, List.foldl_cons, List.foldl_nil, Conversion.settleToolCall]
        rcases part with ⟨part, metadata⟩
        cases part <;> first | rfl | cases htext
      rw [hsame, calls_cons_none hcall]
    | some call =>
      rcases block with ⟨content, metadata⟩
      cases content with
      | toolCall call' =>
        cases hcall
        have hsettled := ContentToolCall.Convertible.isSettled hblock
        have hcons : calls (⟨.toolCall call, metadata⟩ :: blocks) = call :: calls blocks := calls_cons_some rfl
        rw [hcons, List.filter_cons]
        simp only [toAssistantParts, if_pos hsettled]
        cases hp : isProviderExecuted call with
        | true => rfl
        | false => rfl
      | _ => cases hcall

theorem addMessage_results (h : ∀ block ∈ blocks, block.Convertible) :
    (blocks.flatMap fun block => (toAssistantParts format block).2).foldl (Conversion.addMessage format) c =
      (((calls blocks).filter fun call => !isProviderExecuted call).map toolCallToResultPart).foldl
        (Conversion.settleToolCall format) c := by
  induction blocks generalizing c with
  | nil => rfl
  | cons block blocks ih =>
    have hrest : ∀ block ∈ blocks, block.Convertible := fun b hb => h b (List.mem_cons_of_mem _ hb)
    have hblock := h block List.mem_cons_self
    rw [List.flatMap_cons, List.foldl_append, ih hrest]
    rcases block with ⟨content, metadata⟩
    cases content with
    | toolCall call =>
      have hsettled := ContentToolCall.Convertible.isSettled hblock
      have hcons : calls (⟨.toolCall call, metadata⟩ :: blocks) = call :: calls blocks := calls_cons_some rfl
      rw [hcons, List.filter_cons]
      simp only [toAssistantParts, if_pos hsettled]
      cases hp : isProviderExecuted call with
      | true => rfl
      | false => rfl
    | _ => rfl

theorem filterMap_userParts (h : ∀ block ∈ blocks, block.Convertible)
    (hcalls : blocks.filterMap ContentBlock.callId = []) :
    ((blocks.filterMap (toAiContent format)).filter isTextOrFile).filterMap (fromAiContent format) = blocks := by
  induction blocks with
  | nil => rfl
  | cons block blocks ih =>
    rw [List.filterMap_cons] at hcalls
    split at hcalls
    · next hnone =>
      have hcall : block.toolCall? = none := Option.map_eq_none_iff.1 hnone
      obtain ⟨part, hpart, htext, hback, -⟩ := fromAiContent_toAiContent format (h block List.mem_cons_self) hcall
      rw [List.filterMap_cons_some hpart, List.filter_cons_of_pos htext, List.filterMap_cons_some hback]
      rw [ih (fun b hb => h b (List.mem_cons_of_mem _ hb)) hcalls]
    · cases hcalls

theorem foldl_toAiMessageList_user (h : msg.Convertible) (hrole : msg.role = .user) (hcalls : msg.callIds = []) :
    ((toAiMessageList format msg).foldl (Conversion.addMessage format) c).result = c.result ++ [msg.carried] := by
  rw [toAiMessageList, hrole]
  simp only [List.foldl_cons, List.foldl_nil, Conversion.addMessage, filterMap_userParts h.blocks hcalls]
  rw [Message.carried, hrole]
  rfl

theorem placed_indexToolCalls (h : msg.Convertible) (n : Nat) (index : String → Option BlockRef) :
    Placed (Conversion.indexToolCalls n 0 (msg.content.map ContentBlock.pending) index) n
      (msg.content.map ContentBlock.pending) := by
  have hid : ∀ block : ContentBlock, block.pending.callId = block.callId :=
    callId_writeCall (f := ContentToolCall.pending) fun _ => rfl
  have hids : (msg.content.map ContentBlock.pending).filterMap ContentBlock.callId = msg.callIds := by
    rw [List.filterMap_map]
    exact List.filterMap_congr fun block _ => hid block
  intro k id hk
  have hne : id ≠ "" := by
    rw [List.getElem?_map] at hk
    cases hb : msg.content[k]? with
    | none =>
      rw [hb] at hk
      cases hk
    | some block =>
      rw [hb] at hk
      obtain ⟨call, hcall, rfl⟩ := Option.map_eq_some_iff.1 ((hid block).symm.trans hk)
      have hblock := h.blocks block (List.mem_of_getElem? hb)
      rcases block with ⟨content, metadata⟩
      cases content with
      | toolCall call' =>
        cases hcall
        exact ContentToolCall.Convertible.id_ne hblock
      | _ => cases hcall
  have hplace : Conversion.indexToolCalls n 0 (msg.content.map ContentBlock.pending) index id = some ⟨n, 0 + k⟩ :=
    indexToolCalls_getElem hne (hids ▸ h.distinct) hk
  rwa [Nat.zero_add] at hplace

theorem mem_calls : call ∈ calls blocks ↔ ∃ block ∈ blocks, block.toolCall? = some call :=
  List.mem_filterMap

theorem map_settled (h : msg.Convertible) :
    (msg.content.map ContentBlock.pending).map (fun block =>
      ((calls msg.content).filter isProviderExecuted ++ (calls msg.content).filter fun call =>
        !isProviderExecuted call).foldl (fun b call => settleBlock format call b) block) = msg.content := by
  have hperm : ((calls msg.content).filter isProviderExecuted ++ (calls msg.content).filter fun call =>
      !isProviderExecuted call).Perm (calls msg.content) := List.filter_append_perm _ _
  have hdistinct : ((calls msg.content).map (·.toolCallId)).Nodup := map_calls msg.content ▸ h.distinct
  rw [List.map_map]
  have hsame : ∀ block ∈ msg.content, ((calls msg.content).filter isProviderExecuted ++
      (calls msg.content).filter fun call => !isProviderExecuted call).foldl
        (fun b call => settleBlock format call b) block.pending = block := by
    intro block hblock
    apply foldl_settleBlock (h.blocks block hblock) ((hperm.map _).nodup_iff.2 hdistinct)
    exact fun call hcall => hperm.mem_iff.2 (mem_calls.2 ⟨block, hblock, hcall⟩)
  exact (List.map_congr_left hsame).trans (List.map_id _)

theorem toAssistantParts_ne_nil (format : NumberFormat) (h : block.Convertible) :
    (toAssistantParts format block).1 ≠ [] := by
  intro hnil
  have hparts := filterMap_toAssistantParts format h
  rw [hnil] at hparts
  cases hparts

theorem foldl_toAiMessageList_assistant (h : msg.Convertible) (hrole : msg.role = .assistant) :
    ((toAiMessageList format msg).foldl (Conversion.addMessage format) c).result =
      c.result ++ if msg.hasBlocks then [msg.carried] else [] := by
  rw [toAiMessageList, hrole]
  simp only
  split
  · next hparts =>
    have hne : msg.hasBlocks = true := by
      rw [Message.hasBlocks]
      cases hcontent : msg.content with
      | nil =>
        rw [hcontent] at hparts
        exact absurd hparts (Nat.lt_irrefl 0)
      | cons => rfl
    rw [if_pos hne, List.foldl_append, List.foldl_cons, List.foldl_nil, addMessage_results h.blocks]
    simp only [Conversion.addMessage, if_pos, filterMap_assistantParts h.blocks]
    rw [settleToolCalls_parts h.blocks, ← List.foldl_append, ← List.map_append]
    rw [foldl_settleToolCall (placed_indexToolCalls h c.result.length c.toolCallIndex)]
    · simp only [map_settled h]
      rw [Message.carried, hrole]
    · intro call hcall
      have hmem : call ∈ calls msg.content := by
        rcases List.mem_append.1 hcall with hcall | hcall
        · exact List.mem_of_mem_filter hcall
        · exact List.mem_of_mem_filter hcall
      obtain ⟨block, hblock, hsome⟩ := mem_calls.1 hmem
      refine List.mem_map.2 ⟨block.pending, List.mem_map_of_mem hblock, ?_⟩
      have hid : block.pending.callId = block.callId :=
        callId_writeCall (f := ContentToolCall.pending) (fun _ => rfl) block
      rw [hid, ContentBlock.callId, hsome, Option.map_some]
  · next hparts =>
    have hnil : msg.content = [] := by
      cases hcontent : msg.content with
      | nil => rfl
      | cons block blocks =>
        rw [hcontent, List.flatMap_cons, List.length_append] at hparts
        have hpos := List.length_pos_iff.2
          (toAssistantParts_ne_nil format (h.blocks block (hcontent ▸ List.mem_cons_self)))
        omega
    simp [hnil, Message.hasBlocks]

theorem foldl_toAiMessages {messages : List Message} (h : ∀ msg ∈ messages, msg.Convertible) :
    ((messages.flatMap (toAiMessageList format)).foldl (Conversion.addMessage format) c).result.filter
        Message.hasBlocks =
      c.result.filter Message.hasBlocks ++ (messages.filter Message.hasBlocks).map Message.carried := by
  induction messages generalizing c with
  | nil => simp
  | cons msg messages ih =>
    have hmsg := h msg List.mem_cons_self
    rw [List.flatMap_cons, List.foldl_append, ih fun m hm => h m (List.mem_cons_of_mem _ hm)]
    have hcarried : msg.carried.hasBlocks = msg.hasBlocks := rfl
    have hone : ((toAiMessageList format msg).foldl (Conversion.addMessage format) c).result.filter
        Message.hasBlocks = c.result.filter Message.hasBlocks ++ if msg.hasBlocks then [msg.carried] else [] := by
      rcases hmsg.role with ⟨hrole, hcalls⟩ | hrole
      · rw [foldl_toAiMessageList_user hmsg hrole hcalls, List.filter_append, List.filter_singleton, hcarried,
          Bool.cond_eq_ite]
      · rw [foldl_toAiMessageList_assistant hmsg hrole, List.filter_append]
        split
        · next hb => rw [List.filter_singleton, hcarried, hb, cond_true]
        · rfl
    rw [hone, List.filter_cons]
    split <;> simp

theorem keepReplayable_eq (h : ∀ m ∈ l, m.role = .assistant → ∀ parts,
    m.content = .parts parts → parts ≠ [] ∧ ∀ part ∈ parts, isReasoningMergedByProvider part = false) :
    keepReplayable l = l := by
  induction l with
  | nil => rfl
  | cons m l ih =>
    have hrest : keepReplayable l = l := ih fun m' hm' => h m' (List.mem_cons_of_mem _ hm')
    unfold keepReplayable
    split
    · next parts hrole hcontent _ =>
      obtain ⟨hne, hparts⟩ := h m List.mem_cons_self hrole parts hcontent
      have hfilter : (parts.filter fun part => !isReasoningMergedByProvider part) = parts := by
        apply List.filter_eq_self.2
        intro part hpart
        rw [hparts part hpart]
        rfl
      rw [hfilter]
      simp only [if_pos (List.length_pos_iff.2 hne), hrest]
      rw [← hcontent]
    · rw [hrest]

theorem not_merged_toAssistantParts (h : block.Convertible) :
    ∀ part ∈ (toAssistantParts format block).1, isReasoningMergedByProvider part = false := by
  intro part hpart
  cases hcall : block.toolCall? with
  | none =>
    obtain ⟨part', hpart', -, -, hnot⟩ := fromAiContent_toAiContent format h hcall
    rw [toAssistantParts_of_no_call hcall, hpart', Option.toList_some, List.mem_singleton] at hpart
    exact hpart ▸ hnot
  | some call =>
    rcases block with ⟨content, metadata⟩
    cases content with
    | toolCall call' =>
      simp only [toAssistantParts, if_pos (ContentToolCall.Convertible.isSettled h)] at hpart
      split at hpart
      · rcases List.mem_cons.1 hpart with rfl | hpart
        · rfl
        · rw [List.mem_singleton.1 hpart]
          rfl
      · rw [List.mem_singleton.1 hpart]
        rfl
    | _ => cases hcall

theorem keepReplayable_toAiMessageList {messages : List Message} (h : ∀ msg ∈ messages, msg.Convertible) :
    keepReplayable (messages.flatMap (toAiMessageList format)) = messages.flatMap (toAiMessageList format) := by
  apply keepReplayable_eq
  intro m hm hrole parts hparts
  obtain ⟨msg, hmsg, hm⟩ := List.mem_flatMap.1 hm
  have hconv := h msg hmsg
  rcases hconv.role with ⟨huser, -⟩ | hassistant
  · rw [toAiMessageList, huser] at hm
    rw [List.mem_singleton.1 hm] at hrole
    cases hrole
  · rw [toAiMessageList, hassistant] at hm
    simp only [List.mem_append] at hm
    rcases hm with hm | hm
    · split at hm
      · next hlen =>
        rw [List.mem_singleton.1 hm] at hparts
        cases hparts
        refine ⟨List.length_pos_iff.1 hlen, fun part hpart => ?_⟩
        obtain ⟨block, hblock, hpart⟩ := List.mem_flatMap.1 hpart
        exact not_merged_toAssistantParts (hconv.blocks block hblock) part hpart
      · cases hm
    · -- the results are tool messages
      obtain ⟨block, -, hm⟩ := List.mem_flatMap.1 hm
      obtain ⟨call, -, rfl⟩ := mem_toAssistantParts_snd hm
      cases hrole

def AiContentPart.callId (providerExecuted : Bool) (part : AiContentPart) : Option String :=
  match part.part with
  | .toolCall toolCallId _ _ executed =>
    if decide (executed = some true) = providerExecuted then some toolCallId else none
  | _ => none

def AiContentPart.resultId (part : AiContentPart) : Option String :=
  match part.part with
  | .toolResult toolCallId _ _ => some toolCallId
  | _ => none

namespace ModelMessage

def parts (m : ModelMessage) : List AiContentPart :=
  match m.content with
  | .parts parts => parts
  | .text _ => []

def callIds (providerExecuted : Bool) (m : ModelMessage) : List String :=
  m.parts.filterMap (AiContentPart.callId providerExecuted)

def resultIds (m : ModelMessage) : List String := m.parts.filterMap AiContentPart.resultId

end ModelMessage

/--
The calls that a provider executes have their results in the same message, one for each in the order of the calls, and
the other calls have theirs in the tool messages right after it. Every tool message comes right after the message of
its calls.
-/
structure Paired (l : List ModelMessage) : Prop where
  results : ∀ before m after, l = before ++ m :: after → m.role ≠ .tool →
    m.resultIds = m.callIds true ∧
      (after.takeWhile fun t => t.role = .tool).flatMap ModelMessage.resultIds = m.callIds false
  calls : ∀ before m after, l = before ++ m :: after → m.role = .tool →
    ∃ earlier host between, before = earlier ++ host :: between ∧ host.role = .assistant ∧
      (∀ t ∈ between, t.role = .tool) ∧ ∀ id ∈ m.resultIds, id ∈ host.callIds false

inductive Grouped : List ModelMessage → Prop
  | nil : Grouped []
  | cons {m : ModelMessage} {tools rest : List ModelMessage} (hrole : m.role ≠ .tool)
      (htools : ∀ t ∈ tools, t.role = .tool) (hhost : tools ≠ [] → m.role = .assistant)
      (hown : m.resultIds = m.callIds true) (hresults : tools.flatMap ModelMessage.resultIds = m.callIds false)
      (h : Grouped rest) : Grouped (m :: (tools ++ rest))

theorem Grouped.takeWhile_eq_nil (h : Grouped l) : (l.takeWhile fun t => t.role = .tool) = [] := by
  cases h with
  | nil => rfl
  | cons hrole _ _ _ _ _ => rw [List.takeWhile_cons_of_neg (by simpa using hrole)]

theorem Grouped.results (h : Grouped l) {before after : List ModelMessage} {m : ModelMessage}
    (hl : l = before ++ m :: after) (hm : m.role ≠ .tool) :
    m.resultIds = m.callIds true ∧
      (after.takeWhile fun t => t.role = .tool).flatMap ModelMessage.resultIds = m.callIds false := by
  induction h generalizing before with
  | nil => exact absurd hl (by simp)
  | @cons m' tools rest hrole htools _ hown hresults hrest ih =>
    cases before with
    | nil =>
      obtain ⟨rfl, rfl⟩ := List.cons_eq_cons.1 hl
      have htake : ((tools ++ rest).takeWhile fun t => t.role = .tool) = tools := by
        rw [List.takeWhile_append_of_pos (fun t ht => by simpa using htools t ht), hrest.takeWhile_eq_nil,
          List.append_nil]
      rw [htake]
      exact ⟨hown, hresults⟩
    | cons x before =>
      obtain ⟨-, htail⟩ := List.cons_eq_cons.1 hl
      rcases List.append_eq_append_iff.1 htail with ⟨mid, rfl, hrest⟩ | ⟨mid, rfl, hmid⟩
      · exact ih hrest
      · -- the message is not among the tool messages
        cases mid with
        | nil =>
          have hall : rest = [] ++ m :: after := hmid.symm
          exact ih hall
        | cons y mid =>
          obtain ⟨rfl, -⟩ := List.cons_eq_cons.1 hmid
          exact absurd (htools m (List.mem_append_right _ List.mem_cons_self)) hm

theorem Grouped.calls (h : Grouped l) {before after : List ModelMessage} {m : ModelMessage}
    (hl : l = before ++ m :: after) (hm : m.role = .tool) :
    ∃ earlier host between, before = earlier ++ host :: between ∧ host.role = .assistant ∧
      (∀ t ∈ between, t.role = .tool) ∧ ∀ id ∈ m.resultIds, id ∈ host.callIds false := by
  induction h generalizing before with
  | nil => exact absurd hl (by simp)
  | @cons m' tools rest hrole htools hhost hown hresults hrest ih =>
    cases before with
    | nil =>
      obtain ⟨rfl, -⟩ := List.cons_eq_cons.1 hl
      exact absurd hm hrole
    | cons x before =>
      obtain ⟨rfl, htail⟩ := List.cons_eq_cons.1 hl
      have hlater : ∀ mid, before = tools ++ mid → rest = mid ++ m :: after →
          ∃ earlier host between, m' :: before = earlier ++ host :: between ∧ host.role = .assistant ∧
            (∀ t ∈ between, t.role = .tool) ∧ ∀ id ∈ m.resultIds, id ∈ host.callIds false := by
        rintro mid rfl hmid
        obtain ⟨earlier, host, between, rfl, hrest⟩ := ih hmid
        exact ⟨m' :: (tools ++ earlier), host, between, by simp, hrest⟩
      rcases List.append_eq_append_iff.1 htail with ⟨mid, hbefore, hmid⟩ | ⟨mid, htool, hmid⟩
      · exact hlater mid hbefore hmid
      · cases mid with
        | nil => exact hlater [] (by simpa using htool.symm) hmid.symm
        | cons y mid =>
          obtain ⟨rfl, -⟩ := List.cons_eq_cons.1 hmid
          refine ⟨[], m', before, rfl, hhost (by rw [htool]; simp), fun t ht => ?_, fun id hid => ?_⟩
          · exact htools t (htool ▸ List.mem_append_left _ ht)
          · rw [← hresults, htool]
            exact List.mem_flatMap.2 ⟨m, List.mem_append_right _ List.mem_cons_self, hid⟩

theorem Grouped.paired (h : Grouped l) : Paired l :=
  ⟨fun _ _ _ => h.results, fun _ _ _ => h.calls⟩

theorem ids_toAiContent (hcall : block.toolCall? = none) {part : AiContentPart}
    (hpart : toAiContent format block = some part) : (∀ b, part.callId b = none) ∧ part.resultId = none := by
  rcases block with ⟨content, metadata⟩
  cases content with
  | text text =>
    cases hpart
    exact ⟨fun _ => rfl, rfl⟩
  | file mediaType data fileRef =>
    cases data <;> cases hpart <;> exact ⟨fun _ => rfl, rfl⟩
  | reasoningFile data mediaType =>
    cases data <;> cases hpart
    exact ⟨fun _ => rfl, rfl⟩
  | custom kind =>
    cases hpart
    exact ⟨fun _ => rfl, rfl⟩
  | reasoning text =>
    simp only [toAiContent] at hpart
    split at hpart
    · cases hpart
      exact ⟨fun _ => rfl, rfl⟩
    · cases hpart
  | toolCall call => cases hcall
  | invalidToolCall | citation | provider => cases hpart

theorem ids_toAssistantParts (format : NumberFormat) (block : ContentBlock) :
    (toAssistantParts format block).1.filterMap AiContentPart.resultId =
        (toAssistantParts format block).1.filterMap (AiContentPart.callId true) ∧
      (toAssistantParts format block).2.flatMap ModelMessage.resultIds =
        (toAssistantParts format block).1.filterMap (AiContentPart.callId false) := by
  cases hcall : block.toolCall? with
  | none =>
    rw [toAssistantParts_of_no_call hcall]
    cases hpart : toAiContent format block with
    | none => exact ⟨rfl, rfl⟩
    | some part =>
      obtain ⟨hids, hresult⟩ := ids_toAiContent hcall hpart
      simp [hids, hresult]
  | some call =>
    rcases block with ⟨content, metadata⟩
    cases content with
    | toolCall call' =>
      simp only [toAssistantParts]
      split
      · split
        · next hp =>
          have hexecuted : call'.providerExecuted = some true := of_decide_eq_true hp
          simp [toolCallPart, toolCallToResultPart, AiContentPart.callId, AiContentPart.resultId, hexecuted,
            List.filterMap_cons]
        · next hp =>
          have hexecuted : ¬ call'.providerExecuted = some true := fun h => hp (decide_eq_true h)
          simp [toolCallPart, toolCallToResultPart, AiContentPart.callId, AiContentPart.resultId, hexecuted,
            ModelMessage.resultIds, ModelMessage.parts]
      · exact ⟨rfl, rfl⟩
    | _ => cases hcall

theorem ids_assistantParts (format : NumberFormat) (blocks : List ContentBlock) :
    (blocks.flatMap fun block => (toAssistantParts format block).1).filterMap AiContentPart.resultId =
      (blocks.flatMap fun block => (toAssistantParts format block).1).filterMap (AiContentPart.callId true) ∧
    (blocks.flatMap fun block => (toAssistantParts format block).2).flatMap ModelMessage.resultIds =
      (blocks.flatMap fun block => (toAssistantParts format block).1).filterMap (AiContentPart.callId false) := by
  induction blocks with
  | nil => exact ⟨rfl, rfl⟩
  | cons block blocks ih =>
    obtain ⟨hown, hresults⟩ := ids_toAssistantParts format block
    simp only [List.flatMap_cons, List.filterMap_append, List.flatMap_append, hown, hresults, ih.1, ih.2, and_self]

theorem ids_textOrFile {parts : List AiContentPart} (h : ∀ part ∈ parts, isTextOrFile part = true) (b : Bool) :
    parts.filterMap AiContentPart.resultId = [] ∧ parts.filterMap (AiContentPart.callId b) = [] := by
  have hnone : ∀ part ∈ parts, part.resultId = none ∧ part.callId b = none := by
    rintro ⟨part, metadata⟩ hpart
    have htext := h _ hpart
    cases part <;> first | exact ⟨rfl, rfl⟩ | cases htext
  exact ⟨List.filterMap_eq_nil_iff.2 fun part hpart => (hnone part hpart).1,
    List.filterMap_eq_nil_iff.2 fun part hpart => (hnone part hpart).2⟩

theorem Grouped.single {m : ModelMessage} {rest : List ModelMessage} (h : Grouped rest) (hrole : m.role ≠ .tool)
    (hresults : m.resultIds = []) (hcalls : ∀ b, m.callIds b = []) : Grouped (m :: rest) := by
  have htools : ∀ t ∈ ([] : List ModelMessage), t.role = .tool := by simp
  exact .cons hrole htools (fun hne => absurd rfl hne) (by rw [hresults, hcalls]) (by rw [hcalls]; rfl) h

theorem Grouped.toAiMessageList {rest : List ModelMessage} (h : Grouped rest) (msg : Message) :
    Grouped (toAiMessageList format msg ++ rest) := by
  cases hrole : msg.role with
  | system =>
    simp only [N8n.Agents.toAiMessageList, hrole]
    exact h.single (by simp) rfl fun _ => rfl
  | user =>
    simp only [N8n.Agents.toAiMessageList, hrole]
    have htext : ∀ part ∈ (msg.content.filterMap (toAiContent format)).filter isTextOrFile,
        isTextOrFile part = true := fun part hpart => (List.mem_filter.1 hpart).2
    exact h.single (by simp) (ids_textOrFile htext true).1 fun b => (ids_textOrFile htext b).2
  | tool =>
    simp only [N8n.Agents.toAiMessageList, hrole]
    exact h
  | assistant =>
    simp only [N8n.Agents.toAiMessageList, hrole]
    obtain ⟨hown, hresults⟩ := ids_assistantParts format msg.content
    have htools : ∀ t ∈ msg.content.flatMap fun block => (toAssistantParts format block).2,
        t.role = .tool ∧ t.resultIds ≠ [] := by
      intro t ht
      obtain ⟨block, -, ht⟩ := List.mem_flatMap.1 ht
      obtain ⟨call, -, rfl⟩ := mem_toAssistantParts_snd ht
      exact ⟨rfl, List.cons_ne_nil _ _⟩
    split
    · rw [List.append_assoc, List.singleton_append]
      exact .cons (by simp) (fun t ht => (htools t ht).1) (fun _ => rfl) hown hresults h
    · next hparts =>
      -- without parts there are no results
      have hnil : (msg.content.flatMap fun block => (toAssistantParts format block).1) = [] :=
        List.length_eq_zero_iff.1 (Nat.le_zero.1 (Nat.not_lt.1 hparts))
      rw [hnil] at hresults
      have hnone : (msg.content.flatMap fun block => (toAssistantParts format block).2) = [] := by
        apply List.eq_nil_iff_forall_not_mem.2
        intro t ht
        exact (htools t ht).2 (List.flatMap_eq_nil_iff.1 hresults t ht)
      rw [hnone]
      exact h

theorem grouped_flatMap (messages : List Message) : Grouped (messages.flatMap (toAiMessageList format)) := by
  induction messages with
  | nil => exact .nil
  | cons msg messages ih =>
    rw [List.flatMap_cons]
    exact ih.toAiMessageList msg

theorem keepReplayable_tools {tools : List ModelMessage} (h : ∀ t ∈ tools, t.role = .tool) (rest : List ModelMessage) :
    keepReplayable (tools ++ rest) = tools ++ keepReplayable rest := by
  induction tools with
  | nil => rfl
  | cons t tools ih =>
    have hrole := h t List.mem_cons_self
    rw [List.cons_append, List.cons_append, ← ih fun t ht => h t (List.mem_cons_of_mem _ ht)]
    conv => lhs; unfold keepReplayable
    split
    · next hassistant _ _ =>
      rw [hrole] at hassistant
      cases hassistant
    · rfl

theorem keepReplayable_cons (m : ModelMessage) (rest : List ModelMessage) :
    keepReplayable (m :: rest) = m :: keepReplayable rest ∨
      (rest.head?.map ModelMessage.role = some .assistant ∧ m.role = .assistant) ∧
        ∃ parts, m.content = .parts parts ∧
          let content := parts.filter fun part => !isReasoningMergedByProvider part
          keepReplayable (m :: rest) = { m with content := .parts content } :: keepReplayable rest ∨
            content = [] ∧ keepReplayable (m :: rest) = keepReplayable rest := by
  rw [keepReplayable]
  split
  · next parts hrole hcontent hnext =>
    refine .inr ⟨⟨hnext, hrole⟩, parts, hcontent, ?_⟩
    by_cases hlen : (parts.filter fun part => !isReasoningMergedByProvider part).length > 0
    · simp only [if_pos hlen]
      exact .inl trivial
    · simp only [if_neg hlen]
      exact .inr ⟨List.length_eq_zero_iff.1 (Nat.le_zero.1 (Nat.not_lt.1 hlen)), trivial⟩
  · exact .inl rfl

theorem filterMap_replayable {f : AiContentPart → Option String}
    (hf : ∀ part, isReasoningMergedByProvider part = true → f part = none) (parts : List AiContentPart) :
    (parts.filter fun part => !isReasoningMergedByProvider part).filterMap f = parts.filterMap f := by
  rw [List.filterMap_filter]
  apply List.filterMap_congr
  intro part _
  cases hp : isReasoningMergedByProvider part with
  | true => exact (hf part hp).symm
  | false => rfl

theorem ids_reasoning {part : AiContentPart} (h : isReasoningMergedByProvider part = true) :
    part.resultId = none ∧ ∀ b, part.callId b = none := by
  rcases part with ⟨part, metadata⟩
  cases part <;> first | exact ⟨rfl, fun _ => rfl⟩ | cases h

theorem Grouped.keepReplayable (h : Grouped l) : Grouped (keepReplayable l) := by
  induction h with
  | nil => exact .nil
  | @cons m tools rest hrole htools hhost hown hresults _ ih =>
    rcases keepReplayable_cons m (tools ++ rest) with hkeep | ⟨⟨hnext, hassistant⟩, parts, hcontent, hcases⟩
    · rw [hkeep, keepReplayable_tools htools]
      exact .cons hrole htools hhost hown hresults ih
    · have hnil : tools = [] := by
        cases tools with
        | nil => rfl
        | cons t tools =>
          rw [List.cons_append, List.head?_cons, Option.map_some, htools t List.mem_cons_self] at hnext
          cases hnext
      subst hnil
      have hresultIds := filterMap_replayable (fun part hp => (ids_reasoning hp).1) parts
      have hcallIds := fun b => filterMap_replayable (fun part hp => (ids_reasoning hp).2 b) parts
      have hparts : m.parts = parts := by rw [ModelMessage.parts, hcontent]
      rw [ModelMessage.resultIds, ModelMessage.callIds, hparts] at hown
      rw [ModelMessage.callIds, hparts] at hresults
      rcases hcases with hcons | ⟨-, hdrop⟩
      · rw [List.nil_append] at hcons ⊢
        rw [hcons]
        have hnone : ∀ t ∈ ([] : List ModelMessage), t.role = .tool := by simp
        exact @Grouped.cons { m with content := .parts _ } [] _ hrole hnone (fun hne => absurd rfl hne)
          (hresultIds.trans (hown.trans (hcallIds true).symm)) (hresults.trans (hcallIds false).symm) ih
      · rw [List.nil_append] at hdrop ⊢
        rw [hdrop]
        exact ih

/--
Convertible messages come back with their blocks, their roles and their options, but for messages without blocks; and
the calls and results of any messages are paired.
-/
theorem conversion_kept (format : NumberFormat) (messages : List Message) :
    ((∀ msg ∈ messages, msg.Convertible) →
      (fromAiMessages format (toAiMessages format messages)).filter Message.hasBlocks =
        (messages.filter Message.hasBlocks).map Message.carried) ∧
    Paired (toAiMessages format messages) := by
  constructor
  · intro h
    rw [fromAiMessages, toAiMessages, keepReplayable_toAiMessageList h, foldl_toAiMessages h]
    rfl
  · exact (grouped_flatMap messages).keepReplayable.paired

def zeroFormat : NumberFormat := ⟨fun _ => .ofScaled false 0 0, fun _ => 0⟩

def settledCall (toolCallId : String) : ContentBlock :=
  ⟨.toolCall
    { toolCallId, toolName := "search", input := .obj [], state := some .resolved, output := some (.bool true) }, {}⟩

/-- A question, and an answer with a tool call. -/
theorem answer_kept :
    (fromAiMessages zeroFormat (toAiMessages zeroFormat
      [⟨.user, [⟨.text "q", {}⟩], none, none, none⟩, ⟨.assistant, [settledCall "c"], none, none, none⟩])).filter
        Message.hasBlocks =
      [⟨.user, [⟨.text "q", {}⟩], none, none, none⟩, ⟨.assistant, [settledCall "c"], none, none, none⟩] := by
  apply (conversion_kept zeroFormat _).1
  intro msg hmsg
  rcases List.mem_cons.1 hmsg with rfl | hmsg
  · refine ⟨.inl ⟨rfl, rfl⟩, fun block hblock => ?_, List.nodup_nil⟩
    rw [List.mem_singleton.1 hblock]
    trivial
  · rw [List.mem_singleton.1 hmsg]
    refine ⟨.inr rfl, fun block hblock => ?_, List.nodup_singleton "c"⟩
    rw [List.mem_singleton.1 hblock]
    exact ⟨by decide, ⟨[], rfl⟩, .inl ⟨rfl, ⟨.bool true, rfl⟩, rfl⟩, rfl, rfl⟩

/-- A file without a media type gets one, and two calls of one id in a message have two results with it. -/
theorem conversion_changes :
    (∃ msg : Message, msg.content.map (·.content) = [.file none (some (.text "aGk=")) none] ∧
      fromAiMessages zeroFormat (toAiMessages zeroFormat [msg]) ≠ [msg]) ∧
    ∃ messages : List Message, "c" ∈ (toAiMessages zeroFormat messages).flatMap (ModelMessage.callIds false) ∧
      ((toAiMessages zeroFormat messages).flatMap ModelMessage.resultIds).count "c" ≠ 1 := by
  constructor
  · refine ⟨⟨.user, [⟨.file none (some (.text "aGk=")) none, {}⟩], none, none, none⟩, rfl, fun h => ?_⟩
    have htype := congrArg (fun messages => messages.map fun msg : Message => msg.content.map fun block =>
      match block.content with
      | .file mediaType _ _ => mediaType
      | _ => none) h
    exact absurd htype (by decide +kernel)
  · exact ⟨[⟨.assistant, [settledCall "c", settledCall "c"], none, none, none⟩], by decide +kernel, by decide +kernel⟩

end N8n.Agents
