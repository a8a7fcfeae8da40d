import N8n.Agents.Message
import N8n.Lib.OrderedSet
import N8n.Lib.Loop

namespace N8n.Agents

open N8n.Lib

/-- The time value of a date; an invalid date has none. -/
abbrev Time := Option Int

/-- The last time value that a date can have. -/
def MAX_TIME : Int := 8640000000000000

def newDate (ts : Option Int) : Time := ts.filter fun t => decide (-MAX_TIME ≤ t) && decide (t ≤ MAX_TIME)

inductive CreatedAt
  | date (t : Time)
  /-- A string or a number, with the time that `new Date` reads from it. -/
  | value (t : Time)
  | null
  deriving DecidableEq

inductive Body
  | llm (message : Message)
  | custom (data : Json)

namespace Body

def content : Body → List ContentBlock
  | .llm message => message.content
  | .custom _ => []

def mapContent (f : List ContentBlock → List ContentBlock) : Body → Body
  | .llm message => .llm { message with content := f message.content }
  | .custom data => .custom data

def made : Body → Body := mapContent (List.map ContentBlock.made)

theorem made_writeFirst {toolCallId : String} {f : ContentToolCall → ContentToolCall}
    (hf : ∀ call, (f call).made = call.made) (body : Body) :
    (body.mapContent (ContentBlock.writeFirst toolCallId f)).made = body.made := by
  cases body with
  | llm message =>
    have hmap : (ContentBlock.writeFirst toolCallId f message.content).map ContentBlock.made = _ :=
      ContentBlock.map_writeFirst ContentBlock.made (ContentBlock.made_writeCall hf) message.content
    exact congrArg (fun content => Body.llm { message with content }) hmap
  | custom data => rfl

def isPlain (body : Body) : Bool := body.content.all (·.isPlain)

theorem isPlain_writeFirst {toolCallId : String} {f : ContentToolCall → ContentToolCall} (body : Body) :
    (body.mapContent (ContentBlock.writeFirst toolCallId f)).isPlain = body.isPlain := by
  cases body with
  | llm message =>
    have hmap : (ContentBlock.writeFirst toolCallId f message.content).map ContentBlock.isPlain = _ :=
      ContentBlock.map_writeFirst ContentBlock.isPlain ContentBlock.isPlain_writeCall message.content
    have hall := congrArg (List.all · id) hmap
    simpa [List.all_map, isPlain, content, mapContent] using hall
  | custom data => rfl

theorem mapContent_jsonRoundTrip {body : Body} (h : body.isPlain) :
    body.mapContent (List.map ContentBlock.jsonRoundTrip) = body := by
  cases body with
  | llm message =>
    have hmap : message.content.map ContentBlock.jsonRoundTrip = message.content := by
      have hsame := List.map_congr_left (l := message.content) (f := ContentBlock.jsonRoundTrip) (g := id)
        fun block hblock => ContentBlock.jsonRoundTrip_of_isPlain (List.all_eq_true.1 h block hblock)
      rw [hsame, List.map_id]
    exact congrArg (fun content => Body.llm { message with content }) hmap
  | custom data => rfl

end Body

structure AgentMessage where
  id : Option String
  createdAt : Option CreatedAt
  body : Body

structure AgentDbMessage where
  id : String
  createdAt : CreatedAt
  body : Body

def getCreatedAt (createdAt : Option CreatedAt) : Option Time :=
  match createdAt with
  | some (.date t) => some t
  | some (.value (some t)) => some (some t)
  | some (.value none) | some .null | none => none

namespace AgentDbMessage

/-- `m.createdAt.getTime()` of a date, and else `new Date(m.createdAt).getTime()`. -/
def getTime (m : AgentDbMessage) : Time :=
  match m.createdAt with
  | .date t | .value t => t
  | .null => some 0

/-- Sort key for chronological ordering; times that are not finite sort last. -/
def createdAtSortKey (m : AgentDbMessage) : Bool × Int := (m.getTime.isNone, m.getTime.getD 0)

def mapContent (f : List ContentBlock → List ContentBlock) (m : AgentDbMessage) : AgentDbMessage :=
  { m with body := m.body.mapContent f }

end AgentDbMessage

/-- A date is written as an ISO string, which reads as the same time; an invalid date is written as null. -/
def CreatedAt.jsonRoundTrip : CreatedAt → CreatedAt
  | .date (some t) => .value (some t)
  | .date none => .null
  | createdAt => createdAt

def AgentDbMessage.jsonRoundTrip (m : AgentDbMessage) : AgentDbMessage :=
  { m.mapContent (List.map ContentBlock.jsonRoundTrip) with createdAt := m.createdAt.jsonRoundTrip }

def compareMessages (localeCompare : String → String → Ordering) : AgentDbMessage → AgentDbMessage → Ordering :=
  compareLex (compareOn (·.createdAtSortKey.1))
    (compareLex (compareOn (·.createdAtSortKey.2)) fun a b => localeCompare a.id b.id)

instance (localeCompare : String → String → Ordering) [h : Std.TransCmp localeCompare] :
    Std.TransCmp fun a b : AgentDbMessage => localeCompare a.id b.id where
  eq_swap := h.eq_swap
  isLE_trans := h.isLE_trans

instance (localeCompare : String → String → Ordering) [Std.TransCmp localeCompare] :
    Std.TransCmp (compareMessages localeCompare) :=
  inferInstanceAs (Std.TransCmp (compareLex _ (compareLex _ _)))

inductive MessageSource
  | history | input | response
  deriving DecidableEq

abbrev Ref := Nat

structure AgentMessageList where
  activeSkillIds : Option (List String)
  objects : Ref → AgentDbMessage
  nextRef : Ref
  all : List Ref
  historySet : OrderedSet Ref
  inputSet : OrderedSet Ref
  responseSet : OrderedSet Ref
  lastCreatedAt : Option Int

structure Arrival where
  message : AgentMessage
  randomUUID : String
  now : Int

def Arrival.id (a : Arrival) : String := a.message.id.getD a.randomUUID

def Arrival.hint (a : Arrival) : Time := (getCreatedAt a.message.createdAt).getD (some a.now)

/-- The message gets a time from `t` on, when the clock is there already. -/
def Arrival.Renews (source : MessageSource) (t : Int) (a : Arrival) : Prop :=
  source = .history → ∀ existing ∈ getCreatedAt a.message.createdAt, ∀ u ∈ existing, t ≤ u

structure SerializedMessageList where
  messages : List AgentDbMessage
  historyIds : List String
  inputIds : List String
  responseIds : List String
  activeSkillIds : Option (List String)

def SerializedMessageList.jsonRoundTrip (data : SerializedMessageList) : SerializedMessageList :=
  { data with messages := data.messages.map (·.jsonRoundTrip) }

/-- `Math.max`, which is not a number when an argument is not. -/
def mathMax : Option Int → Option Int → Option Int
  | some a, some b => some (max a b)
  | _, _ => none

def SerializedMessageList.idsOf (data : SerializedMessageList) : MessageSource → List String
  | .history => data.historyIds
  | .input => data.inputIds
  | .response => data.responseIds

theorem getElem?_snoc {α : Type} {l : List α} {x y : α} {i : Nat} :
    (l ++ [x])[i]? = some y ↔ l[i]? = some y ∨ i = l.length ∧ y = x := by
  rcases Nat.lt_trichotomy i l.length with h | h | h
  · rw [List.getElem?_append_left h]
    simp [Nat.ne_of_lt h]
  · subst h
    simp [eq_comm]
  · have hout : (l ++ [x]).length ≤ i := by
      rw [List.length_append]
      exact h
    rw [List.getElem?_eq_none hout, List.getElem?_eq_none (Nat.le_of_lt h)]
    simp [Nat.ne_of_gt h]

theorem getElem?_lt {α : Type} {l : List α} {x : α} {i : Nat} (h : l[i]? = some x) : i < l.length :=
  (List.getElem?_eq_some_iff.1 h).1

namespace AgentMessageList

variable (localeCompare : String → String → Ordering)

def empty (activeSkillIds : Option (List String)) : AgentMessageList where
  activeSkillIds
  objects := fun _ => ⟨"", .null, .custom .null⟩
  nextRef := 0
  all := []
  historySet := .empty
  inputSet := .empty
  responseSet := .empty
  lastCreatedAt := some 0

def stamp (lastCreatedAt : Option Int) (a : Arrival) (source : MessageSource) : Time × Option Int :=
  match getCreatedAt a.message.createdAt, source with
  | some existing, .history => (existing, mathMax lastCreatedAt existing)
  | existing, _ =>
    let hint := existing.getD (some a.now)
    let ts := mathMax hint (lastCreatedAt.map (· + 1))
    (newDate ts, ts)

def push (l : AgentMessageList) (m : AgentDbMessage) : AgentMessageList :=
  { l with objects := Function.update l.objects l.nextRef m, nextRef := l.nextRef + 1, all := l.all ++ [l.nextRef] }

def addMessage (l : AgentMessageList) (a : Arrival) (source : MessageSource) : AgentMessageList :=
  let (createdAt, ts) := stamp l.lastCreatedAt a source
  { l with lastCreatedAt := ts }.push ⟨a.id, .date createdAt, a.message.body⟩

def toSource (l : AgentMessageList) (r : Ref) : MessageSource → AgentMessageList
  | .history => { l with historySet := l.historySet.insert r }
  | .input => { l with inputSet := l.inputSet.insert r }
  | .response => { l with responseSet := l.responseSet.insert r }

def messages (l : AgentMessageList) : List AgentDbMessage := l.all.map l.objects

def later (latest : Int) (m : AgentDbMessage) : Int :=
  match m.getTime with
  | some t => if latest < t then t else latest
  | none => latest

/-- The latest finite time of some messages, at least zero. -/
def latest (messages : List AgentDbMessage) : Int := messages.foldl later 0

def sortAllByCreatedAt (l : AgentMessageList) : AgentMessageList :=
  let all := l.all.mergeSort fun a b => (compareMessages localeCompare (l.objects a) (l.objects b)).isLE
  { l with all, lastCreatedAt := some (latest (all.map l.objects)) }

def seedLastCreatedAt (l : AgentMessageList) (timestamp : Option Int) : AgentMessageList :=
  match timestamp, l.lastCreatedAt with
  | some t, some last => if last < t then { l with lastCreatedAt := some t } else l
  | _, _ => l

def addFrom (source : MessageSource) (l : AgentMessageList) (a : Arrival) : AgentMessageList :=
  (l.addMessage a source).toSource l.nextRef source

def add (source : MessageSource) (l : AgentMessageList) (messages : List Arrival) : AgentMessageList :=
  (messages.foldl (addFrom source) l).sortAllByCreatedAt localeCompare

def addHistory : AgentMessageList → List Arrival → AgentMessageList := add localeCompare .history

def addInput : AgentMessageList → List Arrival → AgentMessageList := add localeCompare .input

def addResponse : AgentMessageList → List Arrival → AgentMessageList := add localeCompare .response

def findToolCallHost (l : AgentMessageList) (toolCallId : String) : Option Ref :=
  l.all.reverse.find? fun r => (l.objects r).body.content.any (·.isToolCall toolCallId)

def writeToolCall (l : AgentMessageList) (host : Ref) (toolCallId : String) (f : ContentToolCall → ContentToolCall) :
    AgentMessageList :=
  let m := (l.objects host).mapContent (ContentBlock.writeFirst toolCallId f)
  { l with objects := Function.update l.objects host m }

def settle (l : AgentMessageList) (toolCallId : String) (f : ContentToolCall → ContentToolCall) : AgentMessageList :=
  match l.findToolCallHost toolCallId with
  | some host => (l.writeToolCall host toolCallId f).toSource host .response
  | none => l

def setToolCallResult (l : AgentMessageList) (toolCallId : String) (output : Json) (canceled : Bool) :
    AgentMessageList :=
  l.settle toolCallId fun call =>
    { call with
      state := some .resolved
      output := some output
      canceled := if canceled then some true else none
      error := none }

/-- The error comes as the text that `stringifyError` makes of it. -/
def setToolCallError (l : AgentMessageList) (toolCallId : String) (error : String) : AgentMessageList :=
  l.settle toolCallId fun call => { call with state := some .rejected, error := some (.str error), output := none }

def markToolCallSuspended (l : AgentMessageList) (toolCallId : String) (suspension : Json) : AgentMessageList :=
  match l.findToolCallHost toolCallId with
  | some host => l.writeToolCall host toolCallId fun call =>
    if call.state = some .pending then { call with suspension := some suspension } else call
  | none => l

def turnDelta (l : AgentMessageList) : List AgentDbMessage :=
  (l.all.filter fun r => decide (r ∈ l.inputSet) || decide (r ∈ l.responseSet)).map l.objects

def responseDelta (l : AgentMessageList) : List AgentDbMessage :=
  (l.all.filter fun r => decide (r ∈ l.responseSet)).map l.objects

def inputDelta (l : AgentMessageList) : List AgentDbMessage :=
  (l.all.filter fun r => decide (r ∈ l.inputSet)).map l.objects

def serialize (l : AgentMessageList) : SerializedMessageList :=
  let toIds := fun (set : OrderedSet Ref) => set.items.map fun r => (l.objects r).id
  ⟨l.messages, toIds l.historySet, toIds l.inputSet, toIds l.responseSet, l.activeSkillIds⟩

def rehydrate (m : AgentDbMessage) : AgentDbMessage :=
  match getCreatedAt (some m.createdAt) with
  | some t => { m with createdAt := .date t }
  | none => m

def restore (data : SerializedMessageList) (l : AgentMessageList) (m : AgentDbMessage) : AgentMessageList :=
  let r := l.nextRef
  let l := l.push (rehydrate m)
  let l := if m.id ∈ data.historyIds then l.toSource r .history else l
  let l := if m.id ∈ data.inputIds then l.toSource r .input else l
  if m.id ∈ data.responseIds then l.toSource r .response else l

def deserialize (data : SerializedMessageList) : AgentMessageList :=
  (data.messages.foldl (restore data) (empty data.activeSkillIds)).sortAllByCreatedAt localeCompare

def setOf (l : AgentMessageList) : MessageSource → OrderedSet Ref
  | .history => l.historySet
  | .input => l.inputSet
  | .response => l.responseSet

def Seeded (l : AgentMessageList) : Prop := l.lastCreatedAt ≠ some (latest l.messages)

instance (l : AgentMessageList) : Decidable l.Seeded := inferInstanceAs (Decidable (_ ≠ _))

variable {localeCompare} {l : AgentMessageList} {a : Arrival} {source source' : MessageSource} {r r' : Ref}

theorem setOf_toSource : (l.toSource r source).setOf source' =
    if source' = source then (l.setOf source').insert r else l.setOf source' := by
  cases source <;> cases source' <;> rfl

@[simp] theorem objects_toSource : (l.toSource r source).objects = l.objects := by cases source <;> rfl

@[simp] theorem all_toSource : (l.toSource r source).all = l.all := by cases source <;> rfl

@[simp] theorem nextRef_toSource : (l.toSource r source).nextRef = l.nextRef := by cases source <;> rfl

@[simp] theorem lastCreatedAt_toSource : (l.toSource r source).lastCreatedAt = l.lastCreatedAt := by
  cases source <;> rfl

/-- The object that `addMessage` makes. -/
def dbMsg (l : AgentMessageList) (a : Arrival) (source : MessageSource) : AgentDbMessage :=
  ⟨a.id, .date (stamp l.lastCreatedAt a source).1, a.message.body⟩

@[simp] theorem objects_addFrom :
    (l.addFrom source a).objects = Function.update l.objects l.nextRef (l.dbMsg a source) := objects_toSource

@[simp] theorem all_addFrom : (l.addFrom source a).all = l.all ++ [l.nextRef] := all_toSource

@[simp] theorem nextRef_addFrom : (l.addFrom source a).nextRef = l.nextRef + 1 := nextRef_toSource

@[simp] theorem lastCreatedAt_addFrom :
    (l.addFrom source a).lastCreatedAt = (stamp l.lastCreatedAt a source).2 := lastCreatedAt_toSource

theorem mem_setOf_addFrom :
    r ∈ (l.addFrom source a).setOf source' ↔ r ∈ l.setOf source' ∨ source' = source ∧ r = l.nextRef := by
  have hsame : (l.addMessage a source).setOf source' = l.setOf source' := by cases source' <;> rfl
  rw [addFrom, setOf_toSource, hsame]
  split
  · next h =>
    rw [OrderedSet.mem_insert, or_comm]
    simp [h]
  · next h => simp [h]

theorem later_spec (t : Int) (m : AgentDbMessage) :
    t ≤ later t m ∧ (∀ u ∈ m.getTime, u ≤ later t m) ∧ (later t m = t ∨ m.getTime = some (later t m)) := by
  cases hm : m.getTime with
  | none => exact ⟨Int.le_of_eq (by simp [later, hm]), by simp, .inl (by simp [later, hm])⟩
  | some u =>
    have hlater : later t m = if t < u then u else t := by simp [later, hm]
    rw [hlater]
    by_cases h : t < u
    · rw [if_pos h]
      exact ⟨Int.le_of_lt h, fun v hv => Int.le_of_eq (Option.some.inj hv).symm, .inr rfl⟩
    · rw [if_neg h]
      exact ⟨Int.le_refl t, fun v hv => Option.some.inj hv ▸ Int.not_lt.1 h, .inl rfl⟩

theorem foldl_later (messages : List AgentDbMessage) (t : Int) :
    t ≤ messages.foldl later t ∧ (∀ m ∈ messages, ∀ u ∈ m.getTime, u ≤ messages.foldl later t) ∧
      (messages.foldl later t = t ∨ ∃ m ∈ messages, m.getTime = some (messages.foldl later t)) := by
  refine foldl_rule (fun (pre : List AgentDbMessage) latest => t ≤ latest ∧ (∀ m ∈ pre, ∀ u ∈ m.getTime, u ≤ latest) ∧
    (latest = t ∨ ∃ m ∈ pre, m.getTime = some latest)) ⟨Int.le_refl t, by simp, .inl rfl⟩ ?_
  rintro pre m - latest ⟨hle, hall, hone⟩
  obtain ⟨hle', hall', hone'⟩ := later_spec latest m
  refine ⟨Int.le_trans hle hle', ?_, ?_⟩
  · intro m' hm' u hu
    rcases List.mem_append.1 hm' with hm' | hm'
    · exact Int.le_trans (hall m' hm' u hu) hle'
    · exact hall' u (List.mem_singleton.1 hm' ▸ hu)
  · rcases hone' with hone' | hu
    · rw [hone']
      exact hone.imp_right fun ⟨m', hm', hu⟩ => ⟨m', List.mem_append_left _ hm', hu⟩
    · exact .inr ⟨m, List.mem_concat_self, hu⟩

theorem latest_nonneg (messages : List AgentDbMessage) : 0 ≤ latest messages := (foldl_later messages 0).1

theorem le_latest {messages : List AgentDbMessage} {m : AgentDbMessage} (hm : m ∈ messages) {u : Int}
    (hu : m.getTime = some u) : u ≤ latest messages := (foldl_later messages 0).2.1 m hm u hu

theorem latest_eq (messages : List AgentDbMessage) :
    latest messages = 0 ∨ ∃ m ∈ messages, m.getTime = some (latest messages) := (foldl_later messages 0).2.2

theorem getCreatedAt_eq_invalid {createdAt : Option CreatedAt} (h : getCreatedAt createdAt = some none) :
    createdAt = some (.date none) := by
  unfold getCreatedAt at h
  split at h
  · next t => rw [Option.some.inj h]
  · cases h
  · cases h
  · cases h
  · cases h

theorem newDate_eq {ts : Int} (h : 0 ≤ ts) (h' : ts ≤ MAX_TIME) : newDate (some ts) = some ts := by
  have hlow : -MAX_TIME ≤ ts := Int.le_trans (by decide) h
  simp [newDate, hlow, h']

/--
A clock at `c` gives a message with a usable date a time up to the clock that it leaves, and moves on to the time that
the message asks for, or else by one. A live message gets a time after the clock.
-/
theorem stamp_spec {c : Int} (hc : 0 ≤ c) (hdate : a.message.createdAt ≠ some (.date none)) (hmax : c + 1 ≤ MAX_TIME)
    (hhint : ∀ h ∈ a.hint, h ≤ MAX_TIME) :
    ∃ t c', stamp (some c) a source = (some t, some c') ∧ t ≤ c' ∧ c ≤ c' ∧
      (∀ bound, c + 1 ≤ bound → (∀ h ∈ a.hint, h ≤ bound) → c' ≤ bound) ∧ (source ≠ .history → c < t) ∧
      ∀ b ≤ c, a.Renews source b → b ≤ t := by
  -- the time of a message that is not dated by the history
  have hlive : ∀ h, a.hint = some h → stamp (some c) a source = (newDate (some (max h (c + 1))), some (max h (c + 1))) →
      ∃ t c', stamp (some c) a source = (some t, some c') ∧ t ≤ c' ∧ c ≤ c' ∧
        (∀ bound, c + 1 ≤ bound → (∀ h ∈ a.hint, h ≤ bound) → c' ≤ bound) ∧ (source ≠ .history → c < t) ∧
        ∀ b ≤ c, a.Renews source b → b ≤ t := by
    intro h hh hstamp
    have hle : h ≤ MAX_TIME := hhint h hh
    have hdate : newDate (some (max h (c + 1))) = some (max h (c + 1)) := newDate_eq (by omega) (by omega)
    refine ⟨_, _, hstamp.trans (by rw [hdate]), Int.le_refl _, by omega, fun bound hb hall => ?_, fun _ => by omega,
      fun b hb _ => by omega⟩
    have := hall h hh
    omega
  cases hexisting : getCreatedAt a.message.createdAt with
  | none =>
    have hh : a.hint = some a.now := by rw [Arrival.hint, hexisting, Option.getD_none]
    apply hlive a.now hh
    simp [stamp, hexisting, mathMax]
  | some existing =>
    cases existing with
    | none => exact absurd (getCreatedAt_eq_invalid hexisting) hdate
    | some u =>
      have hh : a.hint = some u := by rw [Arrival.hint, hexisting, Option.getD_some]
      by_cases hs : source = .history
      · subst hs
        refine ⟨u, max c u, by simp [stamp, hexisting, mathMax], by omega, by omega, fun bound hb hall => ?_,
          fun h => absurd rfl h, fun b _ hr => hr rfl _ hexisting u rfl⟩
        have := hall u hh
        omega
      · apply hlive u hh
        cases source with
        | history => exact absurd rfl hs
        | input | response => simp [stamp, hexisting, mathMax]

structure SameMessages (l l' : AgentMessageList) : Prop where
  all : l'.all = l.all
  lastCreatedAt : l'.lastCreatedAt = l.lastCreatedAt
  id : ∀ r, (l'.objects r).id = (l.objects r).id
  createdAt : ∀ r, (l'.objects r).createdAt = (l.objects r).createdAt
  isPlain : ∀ r, (l'.objects r).body.isPlain = (l.objects r).body.isPlain

theorem SameMessages.refl (l : AgentMessageList) : SameMessages l l :=
  ⟨rfl, rfl, fun _ => rfl, fun _ => rfl, fun _ => rfl⟩

variable {toolCallId : String} {f : ContentToolCall → ContentToolCall}

theorem sameMessages_writeToolCall (host : Ref) : SameMessages l (l.writeToolCall host toolCallId f) := by
  have hobject : ∀ r, (l.writeToolCall host toolCallId f).objects r =
      if r = host then (l.objects r).mapContent (ContentBlock.writeFirst toolCallId f) else l.objects r := by
    intro r
    simp only [writeToolCall, Function.update_apply]
    split
    · next h => rw [h]
    · rfl
  refine ⟨rfl, rfl, fun r => ?_, fun r => ?_, fun r => ?_⟩
  · rw [hobject]
    split <;> rfl
  · rw [hobject]
    split <;> rfl
  · rw [hobject]
    split
    · exact Body.isPlain_writeFirst _
    · rfl

theorem sameMessages_settle : SameMessages l (l.settle toolCallId f) := by
  unfold settle
  split
  · next host _ =>
    have h : SameMessages l (l.writeToolCall host toolCallId f) := sameMessages_writeToolCall host
    exact ⟨h.all, h.lastCreatedAt, h.id, h.createdAt, h.isPlain⟩
  · exact .refl l

theorem sameMessages_markToolCallSuspended {suspension : Json} :
    SameMessages l (l.markToolCallSuspended toolCallId suspension) := by
  unfold markToolCallSuspended
  split
  · exact sameMessages_writeToolCall _
  · exact .refl l

theorem rehydrate_jsonRoundTrip {m : AgentDbMessage} {t : Int} (hdate : m.createdAt = .date (some t))
    (hplain : m.body.isPlain) : rehydrate m.jsonRoundTrip = m := by
  rcases m with ⟨id, createdAt, body⟩
  subst hdate
  exact congrArg (AgentDbMessage.mk id (.date (some t))) (Body.mapContent_jsonRoundTrip hplain)

theorem mem_setOf_restore {data : SerializedMessageList} {m : AgentDbMessage} :
    r ∈ (restore data l m).setOf source ↔ r ∈ l.setOf source ∨ r = l.nextRef ∧ m.id ∈ data.idsOf source := by
  have hpush : ∀ source, (l.push (rehydrate m)).setOf source = l.setOf source := fun source => by cases source <;> rfl
  have hif : ∀ (l' : AgentMessageList) (source' : MessageSource) (p : Prop) [Decidable p],
      r ∈ (if p then l'.toSource l.nextRef source' else l').setOf source ↔
        r ∈ l'.setOf source ∨ source = source' ∧ p ∧ r = l.nextRef := by
    intro l' source' p _
    by_cases hp : p
    · rw [if_pos hp, setOf_toSource]
      split
      · next hs =>
        rw [OrderedSet.mem_insert, or_comm]
        simp [hs, hp]
      · next hs => simp [hs]
    · rw [if_neg hp]
      simp [hp]
  rw [restore, hif, hif, hif, hpush]
  cases source <;> simp [SerializedMessageList.idsOf, and_comm]

theorem foldl_restore (data : SerializedMessageList) (activeSkillIds : Option (List String))
    (messages : List AgentDbMessage) :
    let l := messages.foldl (restore data) (empty activeSkillIds)
    l.nextRef = messages.length ∧ l.all = List.range messages.length ∧
      (∀ i m, messages[i]? = some m → l.objects i = rehydrate m) ∧
      ∀ source i, i ∈ l.setOf source ↔ ∃ m, messages[i]? = some m ∧ m.id ∈ data.idsOf source := by
  intro l
  induction messages using List.reverseRecOn with
  | nil =>
    refine ⟨rfl, rfl, fun i m h => ?_, fun source i => ?_⟩
    · rw [List.getElem?_nil] at h
      cases h
    · cases source <;> simp [l, empty, setOf]
  | append_singleton messages m ih =>
    obtain ⟨hnext, hall, hobjects, hsets⟩ := ih
    have hl : l = restore data (messages.foldl (restore data) (empty activeSkillIds)) m := List.foldl_append
    have hpush : ∃ historySet inputSet responseSet, l =
        { (messages.foldl (restore data) (empty activeSkillIds)).push (rehydrate m) with
          historySet, inputSet, responseSet } := by
      rw [hl]
      simp only [restore]
      split <;> split <;> split <;> exact ⟨_, _, _, rfl⟩
    refine ⟨?_, ?_, fun i m' hm' => ?_, fun source i => ?_⟩
    · obtain ⟨_, _, _, hpush⟩ := hpush
      rw [hpush]
      simp [push, hnext]
    · obtain ⟨_, _, _, hpush⟩ := hpush
      rw [hpush]
      simp [push, hall, hnext, List.range_succ]
    · obtain ⟨_, _, _, hpush⟩ := hpush
      rw [hpush]
      rcases getElem?_snoc.1 hm' with hm' | ⟨rfl, rfl⟩
      · have hne : i ≠ messages.length := Nat.ne_of_lt (getElem?_lt hm')
        simp only [push, hnext, Function.update_of_ne hne]
        exact hobjects i m' hm'
      · simp only [push, hnext, Function.update_self]
    · rw [hl, mem_setOf_restore, hsets, hnext]
      simp only [getElem?_snoc]
      constructor
      · rintro (⟨m', hm', hid⟩ | ⟨hi, hid⟩)
        · exact ⟨m', .inl hm', hid⟩
        · exact ⟨m, .inr ⟨hi, rfl⟩, hid⟩
      · rintro ⟨m', hm' | ⟨hi, rfl⟩, hid⟩
        · exact .inl ⟨m', hm', hid⟩
        · exact .inr ⟨hi, hid⟩

end AgentMessageList

end N8n.Agents
