import N8n.Agents.MessageList
import N8n.Lib.Transition

namespace N8n.Agents

open N8n.Lib

structure Added where
  source : MessageSource
  arrival : Arrival

/-- The list with the calls on it so far: the messages added, in order, the seeds, and the hosts of settled calls. -/
structure Turn where
  list : AgentMessageList
  added : List Added
  /-- Each seed with the number of messages added before it. -/
  seeds : List (Int × Nat)
  settled : List Ref

inductive ListCall
  | add (source : MessageSource) (messages : List Arrival)
  | seedLastCreatedAt (timestamp : Option Int)
  | setToolCallResult (toolCallId : String) (output : Json) (canceled : Bool)
  | setToolCallError (toolCallId : String) (error : String)
  | markToolCallSuspended (toolCallId : String) (suspension : Json)

/--
The list comes back from its JSON text with the same messages in the same order and the same sources, and a message
added next gets the same date in both.
-/
def AgentMessageList.RoundTrips (localeCompare : String → String → Ordering) (l : AgentMessageList) : Prop :=
  let l' := deserialize localeCompare l.serialize.jsonRoundTrip
  l'.messages = l.messages ∧
    (∀ source, l'.all.map (fun r => decide (r ∈ l'.setOf source)) = l.all.map fun r => decide (r ∈ l.setOf source)) ∧
    ∀ a source, ((l'.addMessage a source).objects l'.nextRef).createdAt =
      ((l.addMessage a source).objects l.nextRef).createdAt

namespace Turn

variable (localeCompare : String → String → Ordering)

def step (s : Turn) : ListCall → Option Turn
  | .add source messages =>
    some { s with
      list := s.list.add localeCompare source messages
      added := s.added ++ messages.map fun arrival => ⟨source, arrival⟩ }
  | .seedLastCreatedAt timestamp =>
    some { s with
      list := s.list.seedLastCreatedAt timestamp
      seeds := s.seeds ++ (timestamp.map fun t => (t, s.added.length)).toList }
  | .setToolCallResult toolCallId output canceled =>
    some { s with
      list := s.list.setToolCallResult toolCallId output canceled
      settled := s.settled ++ (s.list.findToolCallHost toolCallId).toList }
  | .setToolCallError toolCallId error =>
    some { s with
      list := s.list.setToolCallError toolCallId error
      settled := s.settled ++ (s.list.findToolCallHost toolCallId).toList }
  | .markToolCallSuspended toolCallId suspension =>
    some { s with list := s.list.markToolCallSuspended toolCallId suspension }

def start (activeSkillIds : Option (List String)) : Turn := ⟨.empty activeSkillIds, [], [], []⟩

def system : TransitionSystem Turn ListCall where
  init s := ∃ activeSkillIds, s = start activeSkillIds
  step := step localeCompare

def Complete (s : Turn) : Prop :=
  s.list.all.Perm (List.range s.added.length) ∧
    ∀ r e, s.added[r]? = some e →
      (s.list.objects r).id = e.arrival.id ∧ (s.list.objects r).body.made = e.arrival.message.body.made

def Sorted (s : Turn) : Prop := s.list.messages.Pairwise fun a b => (compareMessages localeCompare a b).isLE

def sourceOf (s : Turn) (r : Ref) : Option MessageSource := s.added[r]?.map (·.source)

def Deltas (s : Turn) : Prop :=
  s.list.inputDelta = (s.list.all.filter fun r => decide (s.sourceOf r = some .input)).map s.list.objects ∧
  s.list.responseDelta =
    (s.list.all.filter fun r => decide (s.sourceOf r = some .response ∨ r ∈ s.settled)).map s.list.objects ∧
  s.list.turnDelta =
    (s.list.all.filter fun r => decide (s.sourceOf r = some .input ∨ s.sourceOf r = some .response ∨
      r ∈ s.settled)).map s.list.objects

structure Kept (s : Turn) : Prop where
  nextRef_eq : s.list.nextRef = s.added.length
  complete : s.Complete
  mem_setOf : ∀ source r, r ∈ s.list.setOf source ↔ s.sourceOf r = some source ∨ source = .response ∧ r ∈ s.settled
  settled_lt : ∀ r ∈ s.settled, r < s.added.length

variable {localeCompare} {s s' : Turn} {call : ListCall} {source : MessageSource} {a : Arrival}

def addFrom (source : MessageSource) (s : Turn) (a : Arrival) : Turn :=
  { s with list := s.list.addFrom source a, added := s.added ++ [⟨source, a⟩] }

theorem foldl_addFrom (source : MessageSource) (s : Turn) (messages : List Arrival) :
    messages.foldl (addFrom source) s =
      { s with
        list := messages.foldl (AgentMessageList.addFrom source) s.list
        added := s.added ++ messages.map fun arrival => ⟨source, arrival⟩ } := by
  induction messages generalizing s with
  | nil => simp
  | cons a messages ih =>
    rw [List.foldl_cons, ih]
    simp [addFrom]

theorem objects_addFrom_of_lt (h : s.Kept) {r : Ref} (hr : r < s.added.length) :
    (s.addFrom source a).list.objects r = s.list.objects r := by
  have hne : r ≠ s.list.nextRef := by
    rw [h.nextRef_eq]
    exact Nat.ne_of_lt hr
  simp only [addFrom, AgentMessageList.objects_addFrom, Function.update_of_ne hne]

theorem objects_addFrom_self (h : s.Kept) :
    (s.addFrom source a).list.objects s.added.length = s.list.dbMsg a source := by
  simp only [addFrom, AgentMessageList.objects_addFrom, h.nextRef_eq, Function.update_self]

theorem sourceOf_addFrom {r : Ref} {source' : MessageSource} :
    (s.addFrom source a).sourceOf r = some source' ↔
      s.sourceOf r = some source' ∨ source' = source ∧ r = s.added.length := by
  simp only [sourceOf, addFrom, Option.map_eq_some_iff, getElem?_snoc]
  constructor
  · rintro ⟨e, he | ⟨hr, rfl⟩, rfl⟩
    · exact .inl ⟨e, he, rfl⟩
    · exact .inr ⟨rfl, hr⟩
  · rintro (⟨e, he, rfl⟩ | ⟨rfl, hr⟩)
    · exact ⟨e, .inl he, rfl⟩
    · exact ⟨_, .inr ⟨hr, rfl⟩, rfl⟩

theorem Kept.addFrom (h : s.Kept) : (s.addFrom source a).Kept where
  nextRef_eq := by simp [Turn.addFrom, h.nextRef_eq]
  complete := by
    constructor
    · simp only [Turn.addFrom, AgentMessageList.all_addFrom, List.length_append, List.length_singleton,
        List.range_succ, h.nextRef_eq]
      exact h.complete.1.append_right _
    · intro r e he
      rcases getElem?_snoc.1 he with he | ⟨rfl, rfl⟩
      · rw [objects_addFrom_of_lt h (getElem?_lt he)]
        exact h.complete.2 r e he
      · rw [objects_addFrom_self h]
        exact ⟨rfl, rfl⟩
  mem_setOf source' r := by
    rw [sourceOf_addFrom]
    show r ∈ (s.list.addFrom source a).setOf source' ↔ _
    rw [AgentMessageList.mem_setOf_addFrom, h.mem_setOf, h.nextRef_eq]
    tauto
  settled_lt r hr := by
    simp only [Turn.addFrom, List.length_append, List.length_singleton]
    exact Nat.lt_succ_of_lt (h.settled_lt r hr)

theorem Kept.foldl_addFrom (h : s.Kept) (messages : List Arrival) : (messages.foldl (Turn.addFrom source) s).Kept := by
  induction messages generalizing s with
  | nil => exact h
  | cons a messages ih => exact ih h.addFrom

theorem Kept.mem_of_eq (h : s.Kept) (hset : ∀ source, s'.list.setOf source = s.list.setOf source)
    (hadded : s'.added = s.added) (hsettled : s'.settled = s.settled) (source : MessageSource) (r : Ref) :
    r ∈ s'.list.setOf source ↔ s'.sourceOf r = some source ∨ source = .response ∧ r ∈ s'.settled := by
  rw [hset, sourceOf, hadded, hsettled]
  exact h.mem_setOf source r

theorem Kept.sort (h : s.Kept) : { s with list := s.list.sortAllByCreatedAt localeCompare }.Kept where
  nextRef_eq := h.nextRef_eq
  complete := ⟨(List.mergeSort_perm ..).trans h.complete.1, h.complete.2⟩
  mem_setOf := h.mem_of_eq (fun source => by cases source <;> rfl) rfl rfl
  settled_lt := h.settled_lt

theorem Kept.add (h : s.Kept) (messages : List Arrival) :
    Kept { s with
      list := s.list.add localeCompare source messages
      added := s.added ++ messages.map fun arrival => ⟨source, arrival⟩ } := by
  have hfold : (messages.foldl (Turn.addFrom source) s).Kept := h.foldl_addFrom messages
  rw [Turn.foldl_addFrom] at hfold
  exact hfold.sort

theorem Kept.seedLastCreatedAt (h : s.Kept) (timestamp : Option Int) (seeds : List (Int × Nat)) :
    { s with list := s.list.seedLastCreatedAt timestamp, seeds }.Kept := by
  have hsame : ∃ last, s.list.seedLastCreatedAt timestamp = { s.list with lastCreatedAt := last } := by
    unfold AgentMessageList.seedLastCreatedAt
    split
    · split
      · exact ⟨_, rfl⟩
      · exact ⟨s.list.lastCreatedAt, rfl⟩
    · exact ⟨s.list.lastCreatedAt, rfl⟩
  obtain ⟨last, hlast⟩ := hsame
  rw [hlast]
  exact ⟨h.nextRef_eq, h.complete, h.mem_of_eq (fun source => by cases source <;> rfl) rfl rfl, h.settled_lt⟩

theorem Kept.writeToolCall {toolCallId : String} {f : ContentToolCall → ContentToolCall} {host : Ref} (h : s.Kept)
    (hf : ∀ call, (f call).made = call.made) : { s with list := s.list.writeToolCall host toolCallId f }.Kept where
  nextRef_eq := h.nextRef_eq
  complete := by
    refine ⟨h.complete.1, fun r e he => ?_⟩
    obtain ⟨hid, hbody⟩ := h.complete.2 r e he
    by_cases hr : r = host
    · subst hr
      simp only [AgentMessageList.writeToolCall, Function.update_self]
      exact ⟨hid, (Body.made_writeFirst hf _).trans hbody⟩
    · simp only [AgentMessageList.writeToolCall, Function.update_of_ne hr]
      exact ⟨hid, hbody⟩
  mem_setOf := h.mem_of_eq (fun source => by cases source <;> rfl) rfl rfl
  settled_lt := h.settled_lt

theorem Kept.findToolCallHost_lt {toolCallId : String} {host : Ref} (h : s.Kept)
    (hhost : s.list.findToolCallHost toolCallId = some host) : host < s.added.length := by
  have hmem : host ∈ s.list.all := List.mem_reverse.1 (List.mem_of_find?_eq_some hhost)
  exact List.mem_range.1 (h.complete.1.mem_iff.1 hmem)

theorem Kept.settle {toolCallId : String} {f : ContentToolCall → ContentToolCall} (h : s.Kept)
    (hf : ∀ call, (f call).made = call.made) :
    Kept { s with
      list := s.list.settle toolCallId f
      settled := s.settled ++ (s.list.findToolCallHost toolCallId).toList } := by
  cases hhost : s.list.findToolCallHost toolCallId with
  | none =>
    have hsame : s.list.settle toolCallId f = s.list := by rw [AgentMessageList.settle, hhost]
    rw [hsame, Option.toList_none, List.append_nil]
    exact h
  | some host =>
    have hset : s.list.settle toolCallId f = (s.list.writeToolCall host toolCallId f).toSource host .response := by
      rw [AgentMessageList.settle, hhost]
    rw [hset, Option.toList_some]
    have hw : Kept { s with list := s.list.writeToolCall host toolCallId f } := h.writeToolCall hf
    refine ⟨hw.nextRef_eq, hw.complete, fun source r => ?_, fun r hr => ?_⟩
    · have hmem : r ∈ (s.list.writeToolCall host toolCallId f).setOf source ↔
          s.sourceOf r = some source ∨ source = .response ∧ r ∈ s.settled := hw.mem_setOf source r
      show r ∈ ((s.list.writeToolCall host toolCallId f).toSource host .response).setOf source ↔
        s.sourceOf r = some source ∨ source = .response ∧ r ∈ s.settled ++ [host]
      rw [AgentMessageList.setOf_toSource, List.mem_append, List.mem_singleton]
      split
      · next hs =>
        rw [OrderedSet.mem_insert, hmem]
        tauto
      · next hs =>
        rw [hmem]
        simp [hs]
    · rcases List.mem_append.1 hr with hr | hr
      · exact h.settled_lt r hr
      · rw [List.mem_singleton.1 hr]
        exact h.findToolCallHost_lt hhost

theorem Kept.markToolCallSuspended {toolCallId : String} {suspension : Json} (h : s.Kept) :
    { s with list := s.list.markToolCallSuspended toolCallId suspension }.Kept := by
  cases hhost : s.list.findToolCallHost toolCallId with
  | none =>
    have hsame : s.list.markToolCallSuspended toolCallId suspension = s.list := by
      rw [AgentMessageList.markToolCallSuspended, hhost]
    rw [hsame]
    exact h
  | some host =>
    rw [AgentMessageList.markToolCallSuspended, hhost]
    refine h.writeToolCall fun call => ?_
    split <;> rfl

theorem Kept.step (h : s.Kept) (hs : step localeCompare s call = some s') : s'.Kept := by
  cases call with
  | add source messages =>
    cases hs
    exact h.add messages
  | seedLastCreatedAt timestamp =>
    cases hs
    exact h.seedLastCreatedAt timestamp _
  | setToolCallResult toolCallId output canceled =>
    cases hs
    exact h.settle fun _ => rfl
  | setToolCallError toolCallId error =>
    cases hs
    exact h.settle fun _ => rfl
  | markToolCallSuspended toolCallId suspension =>
    cases hs
    exact h.markToolCallSuspended

theorem Kept.start (activeSkillIds : Option (List String)) : (start activeSkillIds).Kept where
  nextRef_eq := rfl
  complete := by
    refine ⟨?_, fun r e he => ?_⟩
    · exact List.Perm.nil
    · rw [Turn.start, List.getElem?_nil] at he
      cases he
  mem_setOf source r := by cases source <;> simp [Turn.start, AgentMessageList.empty, AgentMessageList.setOf, sourceOf]
  settled_lt r hr := by cases hr

theorem Kept.deltas (h : s.Kept) : s.Deltas := by
  have hin : ∀ r, r ∈ s.list.inputSet ↔ s.sourceOf r = some .input := by
    intro r
    simpa [AgentMessageList.setOf] using h.mem_setOf .input r
  have hres : ∀ r, r ∈ s.list.responseSet ↔ s.sourceOf r = some .response ∨ r ∈ s.settled := by
    intro r
    simpa [AgentMessageList.setOf] using h.mem_setOf .response r
  refine ⟨?_, ?_, ?_⟩
  · simp only [AgentMessageList.inputDelta, hin]
  · simp only [AgentMessageList.responseDelta, hres]
  · simp only [AgentMessageList.turnDelta, hin, hres, Bool.decide_or]

def Later (s : Turn) : Prop :=
  ∀ r e, s.added[r]? = some e → e.source ≠ .history →
    ∃ t, (s.list.objects r).createdAt = .date (some t) ∧
      (∀ r' < r, ∀ t', (s.list.objects r').getTime = some t' → t' < t) ∧ ∀ q ∈ s.seeds, q.2 ≤ r → q.1 < t

def Distinct (s : Turn) : ListCall → Prop
  | .add _ messages => (s.added.map (·.arrival.id) ++ messages.map (·.id)).Nodup
  | _ => True

def Usable (s : Turn) (messages : List Arrival) : Prop :=
  (∀ a ∈ messages, a.message.createdAt ≠ some (.date none) ∧ a.message.body.isPlain ∧
    ∀ t ∈ a.hint, t + messages.length ≤ MAX_TIME) ∧
  ∀ t ∈ s.list.lastCreatedAt, t + messages.length ≤ MAX_TIME

def Renewed (s : Turn) (source : MessageSource) (messages : List Arrival) : Prop :=
  s.list.Seeded → ∃ a ∈ messages, ∀ t ∈ s.list.lastCreatedAt, a.Renews source t

def Proper (s : Turn) (call : ListCall) : Prop :=
  s.Distinct call ∧ match call with
    | .add source messages => s.Usable messages ∧ s.Renewed source messages
    | _ => True

/-- What holds of the dates when the clock is at `c`. -/
structure Timed (s : Turn) (c : Int) : Prop where
  kept : s.Kept
  last_eq : s.list.lastCreatedAt = some c
  nonneg : 0 ≤ c
  dated : ∀ r < s.added.length, ∃ t, (s.list.objects r).createdAt = .date (some t) ∧ t ≤ c
  seeded : ∀ q ∈ s.seeds, q.1 ≤ c
  later : s.Later
  distinct : (s.added.map (·.arrival.id)).Nodup
  plain : ∀ r < s.added.length, (s.list.objects r).body.isPlain

variable {c : Int}

theorem Timed.addFrom (h : s.Timed c) (hid : a.id ∉ s.added.map (·.arrival.id))
    (hdate : a.message.createdAt ≠ some (.date none)) (hplain : a.message.body.isPlain) (hmax : c + 1 ≤ MAX_TIME)
    (hhint : ∀ t ∈ a.hint, t ≤ MAX_TIME) :
    ∃ c', (s.addFrom source a).Timed c' ∧ c ≤ c' ∧
      (∀ bound, c + 1 ≤ bound → (∀ t ∈ a.hint, t ≤ bound) → c' ≤ bound) ∧
      ∀ b ≤ c, a.Renews source b →
        ∃ t, ((s.addFrom source a).list.objects s.added.length).createdAt = .date (some t) ∧ b ≤ t := by
  obtain ⟨t, c', hstamp, htc, hcc, hbound, hlive, hrenew⟩ :=
    @AgentMessageList.stamp_spec a source c h.nonneg hdate hmax hhint
  have hnew : ((s.addFrom source a).list.objects s.added.length).createdAt = .date (some t) := by
    rw [objects_addFrom_self h.kept]
    simp only [AgentMessageList.dbMsg, h.last_eq, hstamp]
  have hlength : (s.addFrom source a).added.length = s.added.length + 1 := by simp [Turn.addFrom]
  refine ⟨c', ⟨h.kept.addFrom, ?_, Int.le_trans h.nonneg hcc, ?_, ?_, ?_, ?_, ?_⟩, hcc, hbound, ?_⟩
  · simp only [Turn.addFrom, AgentMessageList.lastCreatedAt_addFrom, h.last_eq, hstamp]
  · intro r hr
    rw [hlength] at hr
    rcases Nat.lt_succ_iff_lt_or_eq.1 hr with hr | rfl
    · obtain ⟨u, hu, huc⟩ := h.dated r hr
      exact ⟨u, (objects_addFrom_of_lt h.kept hr).symm ▸ hu, Int.le_trans huc hcc⟩
    · exact ⟨t, hnew, htc⟩
  · exact fun q hq => Int.le_trans (h.seeded q hq) hcc
  · intro r e he hsource
    rcases getElem?_snoc.1 he with he | ⟨rfl, rfl⟩
    · have hr := getElem?_lt he
      obtain ⟨u, hu, hbefore, hseeds⟩ := h.later r e he hsource
      refine ⟨u, (objects_addFrom_of_lt h.kept hr).symm ▸ hu, fun r' hr' t' ht' => ?_, hseeds⟩
      rw [objects_addFrom_of_lt h.kept (Nat.lt_trans hr' hr)] at ht'
      exact hbefore r' hr' t' ht'
    · have hct : c < t := hlive hsource
      refine ⟨t, hnew, fun r' hr' t' ht' => ?_, fun q hq _ => Int.lt_of_le_of_lt (h.seeded q hq) hct⟩
      obtain ⟨u, hu, huc⟩ := h.dated r' hr'
      rw [objects_addFrom_of_lt h.kept hr', AgentDbMessage.getTime, hu] at ht'
      cases ht'
      exact Int.lt_of_le_of_lt huc hct
  · simp only [Turn.addFrom, List.map_append, List.map_cons, List.map_nil]
    exact h.distinct.append (List.nodup_singleton _) (by simpa using hid)
  · intro r hr
    rw [hlength] at hr
    rcases Nat.lt_succ_iff_lt_or_eq.1 hr with hr | rfl
    · rw [objects_addFrom_of_lt h.kept hr]
      exact h.plain r hr
    · rw [objects_addFrom_self h.kept]
      exact hplain
  · exact fun b hb hr => ⟨t, hnew, hrenew b hb hr⟩

theorem Timed.foldl_addFrom {messages : List Arrival} (h : s.Timed c)
    (hid : (s.added.map (·.arrival.id) ++ messages.map (·.id)).Nodup)
    (husable : ∀ a ∈ messages, a.message.createdAt ≠ some (.date none) ∧ a.message.body.isPlain ∧
      ∀ t ∈ a.hint, t + messages.length ≤ MAX_TIME)
    (hmax : c + messages.length ≤ MAX_TIME) :
    let s' := messages.foldl (Turn.addFrom source) s
    ∃ c', s'.Timed c' ∧ c ≤ c' ∧ s.added.length ≤ s'.added.length ∧
      (∀ r < s.added.length, s'.list.objects r = s.list.objects r) ∧
      ∀ b ≤ c, (∃ a ∈ messages, a.Renews source b) →
        ∃ r < s'.added.length, ∃ t, (s'.list.objects r).createdAt = .date (some t) ∧ b ≤ t := by
  induction messages generalizing s c with
  | nil => exact ⟨c, h, Int.le_refl c, Nat.le_refl _, fun _ _ => rfl, fun _ _ ⟨a, ha, _⟩ => nomatch ha⟩
  | cons a messages ih =>
    obtain ⟨hdate, hplain, hhint⟩ := husable a List.mem_cons_self
    simp only [List.length_cons, Int.natCast_add, Int.natCast_one] at hmax hhint husable
    have hnew : a.id ∉ s.added.map (·.arrival.id) := by
      intro hmem
      exact (List.nodup_append.1 hid).2.2 _ hmem _ List.mem_cons_self rfl
    have hnow : ∀ t ∈ a.hint, t ≤ MAX_TIME := by
      intro t ht
      have := hhint t ht
      omega
    obtain ⟨c₁, h₁, hc₁, hbound, hrenew⟩ :
        ∃ c', (s.addFrom source a).Timed c' ∧ c ≤ c' ∧
          (∀ bound, c + 1 ≤ bound → (∀ t ∈ a.hint, t ≤ bound) → c' ≤ bound) ∧
          ∀ b ≤ c, a.Renews source b →
            ∃ t, ((s.addFrom source a).list.objects s.added.length).createdAt = .date (some t) ∧ b ≤ t :=
      h.addFrom hnew hdate hplain (by omega) hnow
    have hc₁max : c₁ ≤ MAX_TIME - messages.length := by
      apply hbound
      · omega
      · intro t ht
        have := hhint t ht
        omega
    have hid₁ : ((s.addFrom source a).added.map (·.arrival.id) ++ messages.map (·.id)).Nodup := by
      simpa [Turn.addFrom] using hid
    obtain ⟨c', h', hc', hlen, hold, hrenews⟩ := ih h₁ hid₁ (fun b hb => by
      obtain ⟨hdate, hplain, hhint⟩ := husable b (List.mem_cons_of_mem _ hb)
      refine ⟨hdate, hplain, fun t ht => ?_⟩
      have := hhint t ht
      omega) (by omega)
    have hlen₁ : (s.addFrom source a).added.length = s.added.length + 1 := by simp [Turn.addFrom]
    rw [hlen₁] at hlen hold
    refine ⟨c', h', Int.le_trans hc₁ hc', Nat.le_of_succ_le hlen, fun r hr => ?_, fun b hb hex => ?_⟩
    · rw [List.foldl_cons, hold r (Nat.lt_succ_of_lt hr)]
      exact objects_addFrom_of_lt h.kept hr
    · obtain ⟨a', ha', hr⟩ := hex
      rcases List.mem_cons.1 ha' with rfl | ha'
      · obtain ⟨t, ht, hbt⟩ := hrenew b hb hr
        exact ⟨s.added.length, hlen, t, (hold _ (Nat.lt_succ_self _)).symm ▸ ht, hbt⟩
      · exact hrenews b (Int.le_trans hb hc₁) ⟨a', ha', hr⟩

theorem Timed.mem_messages (h : s.Timed c) {r : Ref} (hr : r < s.added.length) :
    s.list.objects r ∈ s.list.messages :=
  List.mem_map_of_mem (h.kept.complete.1.mem_iff.2 (List.mem_range.2 hr))

theorem Timed.exists_ref (h : s.Timed c) {m : AgentDbMessage} (hm : m ∈ s.list.messages) :
    ∃ r < s.added.length, s.list.objects r = m := by
  obtain ⟨r, hr, rfl⟩ := List.mem_map.1 hm
  exact ⟨r, List.mem_range.1 (h.kept.complete.1.mem_iff.1 hr), rfl⟩

theorem Timed.le_latest_sort (h : s.Timed c) {r : Ref} (hr : r < s.added.length) {t : Int}
    (ht : (s.list.objects r).createdAt = .date (some t)) :
    t ≤ AgentMessageList.latest (s.list.sortAllByCreatedAt localeCompare).messages := by
  have hperm : (s.list.sortAllByCreatedAt localeCompare).messages.Perm s.list.messages :=
    (List.mergeSort_perm ..).map _
  apply AgentMessageList.le_latest (hperm.mem_iff.2 (h.mem_messages hr))
  rw [AgentDbMessage.getTime, ht]

theorem Timed.sort (h : s.Timed c) {latest : Int}
    (hlatest : latest = AgentMessageList.latest (s.list.sortAllByCreatedAt localeCompare).messages)
    (hseeds : ∀ q ∈ s.seeds, q.1 ≤ latest) :
    { s with list := s.list.sortAllByCreatedAt localeCompare }.Timed latest where
  kept := h.kept.sort
  last_eq := hlatest ▸ rfl
  nonneg := hlatest ▸ AgentMessageList.latest_nonneg _
  dated r hr := by
    obtain ⟨t, ht, _⟩ := h.dated r hr
    exact ⟨t, ht, hlatest ▸ h.le_latest_sort hr ht⟩
  seeded := hseeds
  later := h.later
  distinct := h.distinct
  plain := h.plain

theorem isLE_total [Std.TransCmp localeCompare] (a b : AgentDbMessage) :
    (compareMessages localeCompare a b).isLE || (compareMessages localeCompare b a).isLE := by
  have hswap : compareMessages localeCompare b a = (compareMessages localeCompare a b).swap := Std.OrientedCmp.eq_swap
  rw [hswap]
  cases compareMessages localeCompare a b <;> rfl

theorem sorted_sort [Std.TransCmp localeCompare] (s : Turn) :
    Sorted localeCompare { s with list := s.list.sortAllByCreatedAt localeCompare } := by
  rw [Sorted, AgentMessageList.messages, List.pairwise_map]
  apply List.pairwise_mergeSort
  · exact fun _ _ _ => Std.TransCmp.isLE_trans
  · exact fun a b => isLE_total _ _

theorem Sorted.of_sameMessages (h : s.Sorted localeCompare) (hsame : s.list.SameMessages s'.list) :
    s'.Sorted localeCompare := by
  rw [Sorted, AgentMessageList.messages, List.pairwise_map] at h ⊢
  rw [hsame.all]
  refine h.imp fun {a b} hab => ?_
  have hkey : ∀ r, (s'.list.objects r).createdAtSortKey = (s.list.objects r).createdAtSortKey := by
    intro r
    simp only [AgentDbMessage.createdAtSortKey, AgentDbMessage.getTime, hsame.createdAt]
  simpa only [compareMessages, compareLex, compareOn, hkey, hsame.id] using hab

theorem Timed.of_sameMessages (h : s.Timed c) (hkept : s'.Kept) (hadded : s'.added = s.added)
    (hseeds : s'.seeds = s.seeds) (hsame : s.list.SameMessages s'.list) : s'.Timed c where
  kept := hkept
  last_eq := hsame.lastCreatedAt.trans h.last_eq
  nonneg := h.nonneg
  dated r hr := by
    rw [hsame.createdAt]
    exact h.dated r (hadded ▸ hr)
  seeded := hseeds ▸ h.seeded
  later := by
    rw [Later, hadded, hseeds]
    simp only [AgentDbMessage.getTime, hsame.createdAt]
    exact h.later
  distinct := hadded ▸ h.distinct
  plain r hr := by
    rw [hsame.isPlain]
    exact h.plain r (hadded ▸ hr)

theorem Timed.add {messages : List Arrival} (h : s.Timed c) (hok : s.Proper (.add source messages)) :
    ∃ c', Timed { s with
      list := s.list.add localeCompare source messages
      added := s.added ++ messages.map fun arrival => ⟨source, arrival⟩ } c' := by
  obtain ⟨hid, ⟨husable, hmax⟩, hrenewed⟩ := hok
  have hbatch : ∃ c', (messages.foldl (Turn.addFrom source) s).Timed c' ∧ c ≤ c' ∧
      s.added.length ≤ (messages.foldl (Turn.addFrom source) s).added.length ∧
      (∀ r < s.added.length, (messages.foldl (Turn.addFrom source) s).list.objects r = s.list.objects r) ∧
      ∀ b ≤ c, (∃ a ∈ messages, a.Renews source b) →
        ∃ r < (messages.foldl (Turn.addFrom source) s).added.length,
          ∃ t, ((messages.foldl (Turn.addFrom source) s).list.objects r).createdAt = .date (some t) ∧ b ≤ t :=
    h.foldl_addFrom hid husable (hmax c h.last_eq)
  rw [Turn.foldl_addFrom] at hbatch
  obtain ⟨c', h', hcc, hlen, hold, hrenews⟩ := hbatch
  refine ⟨_, h'.sort rfl fun q hq => Int.le_trans (h.seeded q hq) ?_⟩
  by_cases hseeded : s.list.Seeded
  · -- a message of the batch gets a time from the clock on
    obtain ⟨a, ha, hrenew⟩ := hrenewed hseeded
    obtain ⟨r, hr, t, ht, hct⟩ := hrenews c (Int.le_refl c) ⟨a, ha, hrenew c h.last_eq⟩
    exact Int.le_trans hct (h'.le_latest_sort hr ht)
  · -- the clock is at the date of a message before the batch
    have hc : c = AgentMessageList.latest s.list.messages := by
      rw [AgentMessageList.Seeded, h.last_eq, not_not] at hseeded
      exact Option.some.inj hseeded
    rcases AgentMessageList.latest_eq s.list.messages with hzero | ⟨m, hm, ht⟩
    · rw [hc, hzero]
      exact AgentMessageList.latest_nonneg _
    · obtain ⟨r, hr, rfl⟩ := h.exists_ref hm
      obtain ⟨t, hdate, _⟩ := h.dated r hr
      rw [AgentDbMessage.getTime, hdate, ← hc] at ht
      cases ht
      exact h'.le_latest_sort (Nat.lt_of_lt_of_le hr hlen) ((hold r hr).symm ▸ hdate)

theorem Timed.seedLastCreatedAt (h : s.Timed c) (timestamp : Option Int) :
    ∃ c', Timed { s with
      list := s.list.seedLastCreatedAt timestamp
      seeds := s.seeds ++ (timestamp.map fun t => (t, s.added.length)).toList } c' := by
  have hkept := h.kept.seedLastCreatedAt timestamp (s.seeds ++ (timestamp.map fun t => (t, s.added.length)).toList)
  cases timestamp with
  | none =>
    rw [Option.map_none, Option.toList_none, List.append_nil]
    exact ⟨c, h⟩
  | some t =>
    rw [Option.map_some, Option.toList_some] at hkept ⊢
    have hlast : s.list.seedLastCreatedAt (some t) = { s.list with lastCreatedAt := some (max c t) } := by
      simp only [AgentMessageList.seedLastCreatedAt, h.last_eq]
      split
      · next hlt => rw [max_eq_right (Int.le_of_lt hlt)]
      · next hle => rw [max_eq_left (Int.not_lt.1 hle), ← h.last_eq]
    rw [hlast] at hkept ⊢
    refine ⟨max c t, hkept, rfl, Int.le_trans h.nonneg (Int.le_max_left c t), fun r hr => ?_, fun q hq => ?_,
      fun r e he hsource => ?_, h.distinct, h.plain⟩
    · obtain ⟨u, hu, huc⟩ := h.dated r hr
      exact ⟨u, hu, Int.le_trans huc (Int.le_max_left c t)⟩
    · rcases List.mem_append.1 hq with hq | hq
      · exact Int.le_trans (h.seeded q hq) (Int.le_max_left c t)
      · rw [List.mem_singleton.1 hq]
        exact Int.le_max_right c t
    · obtain ⟨u, hu, hbefore, hseeds⟩ := h.later r e he hsource
      refine ⟨u, hu, hbefore, fun q hq hr => ?_⟩
      rcases List.mem_append.1 hq with hq | hq
      · exact hseeds q hq hr
      · -- the message was there before the seed
        rw [List.mem_singleton.1 hq] at hr
        exact absurd (getElem?_lt he) (Nat.not_lt.2 hr)

theorem Timed.step [Std.TransCmp localeCompare] (h : s.Timed c) (hsort : s.Sorted localeCompare)
    (hok : s.Proper call) (hs : step localeCompare s call = some s') :
    (∃ c', s'.Timed c') ∧ s'.Sorted localeCompare := by
  have hkept := h.kept.step hs
  cases call with
  | add source messages =>
    cases hs
    exact ⟨h.add hok, sorted_sort ⟨messages.foldl (AgentMessageList.addFrom source) s.list, _, s.seeds, s.settled⟩⟩
  | seedLastCreatedAt timestamp =>
    cases hs
    refine ⟨h.seedLastCreatedAt timestamp, ?_⟩
    have hsame : (s.list.seedLastCreatedAt timestamp).messages = s.list.messages := by
      unfold AgentMessageList.seedLastCreatedAt
      split
      · split <;> rfl
      · rfl
    rw [Sorted, hsame]
    exact hsort
  | setToolCallResult toolCallId output canceled =>
    cases hs
    have hsame : s.list.SameMessages (s.list.setToolCallResult toolCallId output canceled) :=
      AgentMessageList.sameMessages_settle
    exact ⟨⟨c, h.of_sameMessages hkept rfl rfl hsame⟩, hsort.of_sameMessages hsame⟩
  | setToolCallError toolCallId error =>
    cases hs
    have hsame : s.list.SameMessages (s.list.setToolCallError toolCallId error) :=
      AgentMessageList.sameMessages_settle
    exact ⟨⟨c, h.of_sameMessages hkept rfl rfl hsame⟩, hsort.of_sameMessages hsame⟩
  | markToolCallSuspended toolCallId suspension =>
    cases hs
    have hsame : s.list.SameMessages (s.list.markToolCallSuspended toolCallId suspension) :=
      AgentMessageList.sameMessages_markToolCallSuspended
    exact ⟨⟨c, h.of_sameMessages hkept rfl rfl hsame⟩, hsort.of_sameMessages hsame⟩

theorem Timed.start (activeSkillIds : Option (List String)) : (start activeSkillIds).Timed 0 where
  kept := .start activeSkillIds
  last_eq := rfl
  nonneg := Int.le_refl 0
  dated r hr := absurd hr (Nat.not_lt_zero r)
  seeded q hq := by cases hq
  later r e he := by
    rw [Turn.start, List.getElem?_nil] at he
    cases he
  distinct := List.nodup_nil
  plain r hr := absurd hr (Nat.not_lt_zero r)

theorem Timed.mem_setOf_lt (h : s.Timed c) {r : Ref} (hr : r ∈ s.list.setOf source) : r < s.added.length := by
  rcases (h.kept.mem_setOf source r).1 hr with hr | ⟨-, hr⟩
  · obtain ⟨e, he, -⟩ := Option.map_eq_some_iff.1 hr
    exact getElem?_lt he
  · exact h.kept.settled_lt r hr

theorem Timed.eq_of_id (h : s.Timed c) {r r' : Ref} (hr : r < s.added.length) (hr' : r' < s.added.length)
    (hid : (s.list.objects r).id = (s.list.objects r').id) : r = r' := by
  have hget : ∀ i (hi : i < s.added.length), (s.list.objects i).id = s.added[i].arrival.id := by
    intro i hi
    exact (h.kept.complete.2 i _ (List.getElem?_eq_getElem hi)).1
  rw [hget r hr, hget r' hr'] at hid
  have hmap : (s.added.map (·.arrival.id)).get ⟨r, by simpa using hr⟩ =
      (s.added.map (·.arrival.id)).get ⟨r', by simpa using hr'⟩ := by
    simpa using hid
  exact (List.Nodup.getElem_inj_iff h.distinct).1 hmap

theorem Timed.restored (h : s.Timed c) :
    let data := s.list.serialize.jsonRoundTrip
    let l := data.messages.foldl (AgentMessageList.restore data) (.empty data.activeSkillIds)
    l.all = List.range s.list.all.length ∧ (List.range s.list.all.length).map l.objects = s.list.messages ∧
      ∀ source i, i ∈ l.setOf source ↔ ∃ r, s.list.all[i]? = some r ∧ r ∈ s.list.setOf source := by
  intro data l
  obtain ⟨-, hall, hobjects, hsets⟩ := AgentMessageList.foldl_restore data data.activeSkillIds data.messages
  have hmessages : data.messages = s.list.all.map fun r => (s.list.objects r).jsonRoundTrip := List.map_map
  have hlength : data.messages.length = s.list.all.length := by rw [hmessages, List.length_map]
  have hlt : ∀ r ∈ s.list.all, r < s.added.length := fun r hr =>
    List.mem_range.1 (h.kept.complete.1.mem_iff.1 hr)
  have hget : ∀ (i : Nat) m, data.messages[i]? = some m ↔
      ∃ r, s.list.all[i]? = some r ∧ (s.list.objects r).jsonRoundTrip = m := by
    intro i m
    rw [hmessages, List.getElem?_map, Option.map_eq_some_iff]
  refine ⟨hlength ▸ hall, ?_, fun source i => ?_⟩
  · apply List.ext_getElem?
    intro i
    rw [List.getElem?_map, AgentMessageList.messages, List.getElem?_map]
    cases hr : s.list.all[i]? with
    | none =>
      have hi : s.list.all.length ≤ i := List.getElem?_eq_none_iff.1 hr
      rw [List.getElem?_eq_none (by simpa using hi)]
      rfl
    | some r =>
      have hin := hlt r (List.mem_of_getElem? hr)
      obtain ⟨t, hdate, -⟩ := h.dated r hin
      rw [List.getElem?_range (getElem?_lt hr), Option.map_some, Option.map_some]
      rw [hobjects i _ ((hget i _).2 ⟨r, hr, rfl⟩)]
      rw [AgentMessageList.rehydrate_jsonRoundTrip hdate (h.plain r hin)]
  · rw [hsets]
    constructor
    · rintro ⟨m, hm, hid⟩
      obtain ⟨r, hr, rfl⟩ := (hget i m).1 hm
      have hids : (s.list.objects r).id ∈ (s.list.setOf source).items.map fun r => (s.list.objects r).id := by
        cases source <;> exact hid
      obtain ⟨r', hr', heq⟩ := List.mem_map.1 hids
      have hsame := h.eq_of_id (h.mem_setOf_lt hr') (hlt r (List.mem_of_getElem? hr)) heq
      exact ⟨r, hr, hsame ▸ hr'⟩
    · rintro ⟨r, hr, hmem⟩
      refine ⟨_, (hget i _).2 ⟨r, hr, rfl⟩, ?_⟩
      have hids : (s.list.objects r).id ∈ (s.list.setOf source).items.map fun r => (s.list.objects r).id :=
        List.mem_map_of_mem hmem
      cases source <;> exact hids

theorem Timed.roundTrips (h : s.Timed c) (hsort : s.Sorted localeCompare) (hseeded : ¬ s.list.Seeded) :
    s.list.RoundTrips localeCompare := by
  obtain ⟨hall, hmessages, hsets⟩ := h.restored
  generalize hl : (s.list.serialize.jsonRoundTrip.messages.foldl
    (AgentMessageList.restore s.list.serialize.jsonRoundTrip)
    (.empty s.list.serialize.jsonRoundTrip.activeSkillIds)) = l at hall hmessages hsets
  -- the restored messages are in order already
  have hsorted : l.all.mergeSort (fun a b => (compareMessages localeCompare (l.objects a) (l.objects b)).isLE) =
      l.all := by
    apply List.mergeSort_of_pairwise
    rw [hall, ← List.pairwise_map (R := fun a b => (compareMessages localeCompare a b).isLE), hmessages]
    exact hsort
  have hdeserialize : AgentMessageList.deserialize localeCompare s.list.serialize.jsonRoundTrip =
      { l with lastCreatedAt := s.list.lastCreatedAt } := by
    rw [AgentMessageList.Seeded, not_not] at hseeded
    rw [AgentMessageList.deserialize, hl, AgentMessageList.sortAllByCreatedAt, hsorted, hall, hmessages, hseeded]
  rw [AgentMessageList.RoundTrips, hdeserialize]
  refine ⟨?_, fun source => ?_, fun a source => ?_⟩
  · rw [← hmessages, ← hall]
    rfl
  · have hset : AgentMessageList.setOf { l with lastCreatedAt := s.list.lastCreatedAt } source = l.setOf source := by
      cases source <;> rfl
    show (l.all.map fun i => decide (i ∈ AgentMessageList.setOf { l with lastCreatedAt := _ } source)) = _
    rw [hset, hall]
    apply List.ext_getElem?
    intro i
    rw [List.getElem?_map, List.getElem?_map]
    cases hr : s.list.all[i]? with
    | none =>
      have hi : s.list.all.length ≤ i := List.getElem?_eq_none_iff.1 hr
      rw [List.getElem?_eq_none (by simpa using hi)]
      rfl
    | some r =>
      rw [List.getElem?_range (getElem?_lt hr), Option.map_some, Option.map_some]
      have hiff : i ∈ l.setOf source ↔ r ∈ s.list.setOf source := by
        rw [hsets, hr]
        simp
      rw [decide_eq_decide.2 hiff]
  · simp only [AgentMessageList.addMessage, AgentMessageList.push, Function.update_self]

/--
Over all runs on usable messages in which no seed is forgotten: the list is complete and sorted, live messages come
later than what was there, the deltas are as the calls made them, and the serialized list comes back the same.
-/
theorem messages_kept [Std.TransCmp localeCompare] (h : (system localeCompare).Reachable Proper s) :
    s.Complete ∧ s.Sorted localeCompare ∧ s.Later ∧ s.Deltas ∧ (¬ s.list.Seeded → s.list.RoundTrips localeCompare) := by
  have hinv : (∃ c, s.Timed c) ∧ s.Sorted localeCompare := by
    apply h.invariant (P := fun s => (∃ c, s.Timed c) ∧ s.Sorted localeCompare)
    · rintro _ ⟨activeSkillIds, rfl⟩
      exact ⟨⟨0, .start activeSkillIds⟩, List.Pairwise.nil⟩
    · rintro s call s' hok ⟨⟨c, ht⟩, hs⟩ hstep
      exact ht.step hs hok hstep
  obtain ⟨⟨c, ht⟩, hs⟩ := hinv
  exact ⟨ht.kept.complete, hs, ht.later, ht.kept.deltas, ht.roundTrips hs⟩

instance (source : MessageSource) (t : Int) (a : Arrival) : Decidable (a.Renews source t) :=
  inferInstanceAs (Decidable (_ → ∀ existing ∈ getCreatedAt a.message.createdAt, ∀ u ∈ existing, _))

instance (s : Turn) (call : ListCall) : Decidable (s.Distinct call) := by
  unfold Distinct
  split <;> infer_instance

instance (s : Turn) (messages : List Arrival) : Decidable (s.Usable messages) :=
  inferInstanceAs (Decidable ((∀ a ∈ messages, _ ∧ _ ∧ ∀ t ∈ a.hint, _) ∧ ∀ t ∈ s.list.lastCreatedAt, _))

instance (s : Turn) (source : MessageSource) (messages : List Arrival) : Decidable (s.Renewed source messages) :=
  inferInstanceAs (Decidable (_ → ∃ a ∈ messages, ∀ t ∈ s.list.lastCreatedAt, _))

instance (s : Turn) (call : ListCall) : Decidable (s.Proper call) := by
  unfold Proper
  split <;> infer_instance

def userMessage (id : String) (t : Int) : Arrival :=
  ⟨⟨some id, some (.date (some t)), .llm ⟨.user, [], none, none, none⟩⟩, "", 0⟩

/-- An input after a seed. -/
theorem turn_kept : ∃ s, (system compare).Reachable Proper s ∧ s.list.lastCreatedAt = some 11 ∧
    s.Complete ∧ s.Sorted compare ∧ s.Later ∧ s.Deltas ∧ (¬ s.list.Seeded → s.list.RoundTrips compare) := by
  have hrun : ((system compare).run (fun s a => decide (Proper s a)) (start none)
      [.seedLastCreatedAt (some 10), .add .input [userMessage "a" 3]]).any
        (fun s => decide (s.list.lastCreatedAt = some 11)) = true := by
    decide +kernel
  obtain ⟨s, hrun, hs⟩ := (Option.any_eq_true ..).1 hrun
  have hreach : (system compare).Reachable Proper s :=
    ⟨start none, ⟨none, rfl⟩, (TransitionSystem.run_leads hrun).mono fun _ _ => of_decide_eq_true⟩
  exact ⟨s, hreach, of_decide_eq_true hs, messages_kept hreach⟩

/-- An empty batch after a seed: a response gets a date before the seed. A list at a seed comes back without it. -/
theorem seed_forgotten :
    (∃ s, (system compare).Reachable Distinct s ∧ ¬ s.Later) ∧
    ∃ s, (system compare).Reachable Distinct s ∧ ¬ s.list.RoundTrips compare := by
  constructor
  · have hrun : ((system compare).run (fun s a => decide (Distinct s a)) (start none)
        [.seedLastCreatedAt (some 1000), .add .input [], .add .response [userMessage "a" 500]]).any
          (fun s => decide (s.added.map (·.source) = [.response] ∧ s.seeds = [(1000, 0)] ∧
            (s.list.objects 0).createdAt = .date (some 500))) = true := by
      decide +kernel
    obtain ⟨s, hrun, hs⟩ := (Option.any_eq_true ..).1 hrun
    obtain ⟨hadded, hseeds, hdate⟩ := of_decide_eq_true hs
    refine ⟨s, ⟨start none, ⟨none, rfl⟩, (TransitionSystem.run_leads hrun).mono fun _ _ => of_decide_eq_true⟩, ?_⟩
    intro hlater
    obtain ⟨e, hsource, hmem⟩ := List.map_eq_singleton_iff.1 hadded
    obtain ⟨t, ht, -, hafter⟩ := hlater 0 e (by rw [hsource]; rfl) (by rw [hmem]; nofun)
    rw [hdate] at ht
    cases ht
    exact absurd (hafter (1000, 0) (by rw [hseeds]; exact List.mem_singleton_self _) (Nat.le_refl 0)) (by decide)
  · have hrun : ((system compare).run (fun s a => decide (Distinct s a)) (start none)
        [.seedLastCreatedAt (some 1000)]).any (fun s =>
          let l := AgentMessageList.deserialize compare s.list.serialize.jsonRoundTrip
          decide (((l.addMessage (userMessage "a" 500) .input).objects l.nextRef).createdAt ≠
            ((s.list.addMessage (userMessage "a" 500) .input).objects s.list.nextRef).createdAt)) = true := by
      decide +kernel
    obtain ⟨s, hrun, hs⟩ := (Option.any_eq_true ..).1 hrun
    refine ⟨s, ⟨start none, ⟨none, rfl⟩, (TransitionSystem.run_leads hrun).mono fun _ _ => of_decide_eq_true⟩, ?_⟩
    rintro ⟨-, -, hnext⟩
    exact of_decide_eq_true hs (hnext (userMessage "a" 500) .input)

end Turn

end N8n.Agents
