import N8n.Agents.ObserverRuns

namespace N8n.Agents

open N8n.Lib MemoryStore

def loadHistoryMessages (observationalMemory : Bool) (resourceId : String)
    (cursorStore logStore messageStore : MemoryStore) : List DbMessage :=
  match if observationalMemory then cursorStore.cursor else none with
  | some cursor =>
    if (logStore.getActiveObservationLog 1 .desc).length > 0 then
      (messageStore.getMessagesForObservationScope (some cursor)).1
    else messageStore.getMessages resourceId
  | none => messageStore.getMessages resourceId

def LoadsFrom (observationalMemory : Bool) (cursorStore logStore : MemoryStore) (cursor : ObservationCursor) : Prop :=
  observationalMemory = true ∧ cursorStore.cursor = some cursor ∧ (logStore.getActiveObservationLog 1 .desc).length > 0

section Loads

variable {observationalMemory : Bool} {resourceId : String} {cursorStore logStore messageStore : MemoryStore}
  {cursor : ObservationCursor} {m : DbMessage}

theorem mem_getMessages : m ∈ messageStore.getMessages resourceId ↔
    ∃ x ∈ messageStore.messages, x.resourceId = resourceId ∧ x.returned = m := by
  simp only [getMessages, sortedMessages, List.mem_map, List.mem_insertionSort, List.mem_filter, decide_eq_true_eq,
    and_assoc]

theorem mem_history_of_loadsFrom (ho : messageStore.Ordered)
    (h : LoadsFrom observationalMemory cursorStore logStore cursor) :
    m ∈ loadHistoryMessages observationalMemory resourceId cursorStore logStore messageStore ↔
      m ∈ messageStore.thread ∧ cursor.keyset < m.keyset := by
  obtain ⟨rfl, hcursor, hlog⟩ := h
  rw [loadHistoryMessages, if_pos rfl, hcursor]
  dsimp only
  rw [if_pos hlog, ho.mem_scope]
  simp

theorem mem_history_of_not_loadsFrom (h : ∀ cursor, ¬ LoadsFrom observationalMemory cursorStore logStore cursor) :
    m ∈ loadHistoryMessages observationalMemory resourceId cursorStore logStore messageStore ↔
      ∃ x ∈ messageStore.messages, x.resourceId = resourceId ∧ x.returned = m := by
  rw [loadHistoryMessages, ← mem_getMessages]
  split
  · next cursor hcursor =>
    split at hcursor
    · next hon => rw [if_neg fun hlog => h cursor ⟨hon, hcursor, hlog⟩]
    · cases hcursor
  · rfl

end Loads

/-- What the cursor of a thread stands for. -/
structure StandsBehind (tools : ObserverTools) (limit : Nat) (s : ObserverState) : Prop where
  settled : ∀ cursor ∈ s.store.cursor, ∀ m ∈ s.store.thread, m.keyset ≤ cursor.keyset →
    hasPendingToolCall m = false ∧ Observed tools s m
  forward : ∀ s', (observerSystem tools limit).Leads InOrder s s' →
    ∀ cursor ∈ s.store.cursor, ∃ cursor' ∈ s'.store.cursor, cursor.keyset ≤ cursor'.keyset
  advances : ∀ label s', InOrder s label → s.step tools limit label = some s' → Advances tools s s'
  from_cursor :
    ∀ (observationalMemory : Bool) (resourceId : String) (s₂ s₃ : ObserverState) (cursor : ObservationCursor),
    (observerSystem tools limit).Leads InOrder s s₂ → (observerSystem tools limit).Leads InOrder s₂ s₃ →
    LoadsFrom observationalMemory s.store s₂.store cursor → ∀ m, m ∈ s₃.store.thread ↔
      m ∈ loadHistoryMessages observationalMemory resourceId s.store s₂.store s₃.store ∨
        m ∈ s₃.store.thread ∧ m.keyset ≤ cursor.keyset
  of_resource : ∀ (observationalMemory : Bool) (resourceId : String) (s₂ s₃ : ObserverState),
    (observerSystem tools limit).Leads InOrder s s₂ → (observerSystem tools limit).Leads InOrder s₂ s₃ →
    (∀ cursor, ¬ LoadsFrom observationalMemory s.store s₂.store cursor) → ∀ m,
      m ∈ loadHistoryMessages observationalMemory resourceId s.store s₂.store s₃.store ↔
        ∃ x ∈ s₃.store.messages, x.resourceId = resourceId ∧ x.returned = m

/-- Nothing falls behind the cursor unobserved, and what is loaded from the cursor on misses nothing else. -/
theorem standsBehind_of_reachable (tools : ObserverTools) (limit : Nat) {s : ObserverState}
    (h : (observerSystem tools limit).Reachable InOrder s) : StandsBehind tools limit s := by
  have hthread := observedThread_of_reachable h
  refine ⟨hthread.settled, fun s' => cursor_forward h, fun label s' hok hs => (hthread.step hok hs).2, ?_, ?_⟩
  · intro observationalMemory resourceId s₂ s₃ cursor h₂ h₃ hfrom m
    have hordered := (observedThread_of_reachable ((h.leads h₂).leads h₃)).ordered
    rw [mem_history_of_loadsFrom hordered hfrom, ← and_or_left]
    exact (and_iff_left (lt_or_ge cursor.keyset m.keyset)).symm
  · intro observationalMemory resourceId s₂ s₃ _ _ hnone m
    exact mem_history_of_not_loadsFrom hnone

section Examples

def plainTools : ObserverTools := ⟨fun _ => "", id, fun _ => "", fun _ => "", fun _ => none⟩

def userMessage (id : String) (createdAt : Int) : DbMessage :=
  ⟨ascii id, createdAt, .llm { role := .user, content := [⟨.text id, {}⟩] }⟩

def firstSaved : MemoryStore := MemoryStore.empty.saveMessages (some "a") [userMessage "1" 1]

def sharedThread : MemoryStore := firstSaved.saveMessages (some "b") [userMessage "2" 2]

theorem sharedThread_reachable (tools : ObserverTools) (limit : Nat) :
    (observerSystem tools limit).Reachable InOrder ⟨sharedThread, .idle none, []⟩ := by
  have hfirst : SavesInOrder (some "a") MemoryStore.empty [userMessage "1" 1] :=
    ⟨.inl (fun _ h => absurd h List.not_mem_nil), trivial⟩
  have hsecond : SavesInOrder (some "b") firstSaved [userMessage "2" 2] := by
    refine ⟨.inl fun x hx => ?_, trivial⟩
    obtain rfl := List.mem_singleton.1 hx
    exact ⟨by decide +kernel, by decide +kernel⟩
  have h : (observerSystem tools limit).Leads InOrder ⟨.empty, .idle none, []⟩ ⟨firstSaved, .idle none, []⟩ :=
    .step (.save (some "a") [userMessage "1" 1]) .refl hfirst rfl
  exact ⟨_, rfl, .step (.save (some "b") [userMessage "2" 2]) h hsecond rfl⟩

/-- What is loaded for a resource misses the messages of another one, which no cursor stands for. -/
theorem history_of_shared_thread : ¬ ∀ (tools : ObserverTools) (limit : Nat) (s : ObserverState)
    (observationalMemory : Bool) (resourceId : String), (observerSystem tools limit).Reachable InOrder s →
    ∀ m ∈ s.store.thread, m ∈ loadHistoryMessages observationalMemory resourceId s.store s.store s.store ∨
      ∃ cursor ∈ s.store.cursor, m.keyset ≤ cursor.keyset := by
  intro h
  have hm : userMessage "1" 1 ∈ sharedThread.thread := List.mem_cons_self
  rcases h plainTools 0 _ true "b" (sharedThread_reachable plainTools 0) _ hm with hm | ⟨cursor, hc, -⟩
  · obtain ⟨x, hx, hresource, he⟩ := mem_getMessages.1 hm
    rcases List.mem_cons.1 hx with rfl | hx
    · exact absurd hresource (by decide)
    · obtain rfl := List.mem_singleton.1 hx
      exact absurd (congrArg DbMessage.createdAt he) (by decide)
  · cases hc

/-- Lets a first message be saved, and the observer take its steps. -/
def savesFirst (s : ObserverState) : ObserverLabel → Bool
  | .save _ [_] => s.store.messages.isEmpty
  | .save _ _ => false
  | _ => true

theorem inOrder_of_savesFirst (s : ObserverState) (label : ObserverLabel) (h : savesFirst s label = true) :
    InOrder s label := by
  cases label with
  | save resourceId messages =>
    rcases messages with - | ⟨msg, - | ⟨_, _⟩⟩
    · cases h
    · refine ⟨.inl fun x hx => ?_, trivial⟩
      rw [List.isEmpty_iff.1 h] at hx
      cases hx
    · cases h
  | _ => trivial

/-- A run of the observer that moves the cursor behind the first message. -/
theorem standsBehind_of_run : ∃ s, s.store.cursor.isSome = true ∧ StandsBehind plainTools 5 s := by
  have hrun : (((observerSystem plainTools 5).run savesFirst ⟨.empty, .idle none, []⟩
      [.save (some "a") [userMessage "1" 1], .start 2, .cursorRead, .messagesRead, .transcriptCounted 1, .logRead,
        .observed "* INFO likes tea", .entriesCounted [1], .appended (ascii "x"), .cursorSet]).any
          fun s => s.store.cursor.isSome) = true := by decide +kernel
  obtain ⟨s, hs, hcursor⟩ := (Option.any_eq_true _ _).1 hrun
  exact ⟨s, hcursor, standsBehind_of_reachable plainTools 5
    ⟨_, rfl, (TransitionSystem.run_leads hs).mono inOrder_of_savesFirst⟩⟩

end Examples

end N8n.Agents
