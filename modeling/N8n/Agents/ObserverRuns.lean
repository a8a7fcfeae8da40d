import N8n.Agents.ObservationLogObserver

namespace N8n.Agents

open N8n.Lib

def InTranscript (tools : ObserverTools) (m : DbMessage) (input : ObserverInput) : Prop :=
  m ∈ input.deltaMessages ∧
    ∃ before after, input.transcript = "\n".intercalate (before ++ messageLines tools m ++ after)

def Observed (tools : ObserverTools) (s : ObserverState) (m : DbMessage) : Prop :=
  ∃ w ∈ s.written, InTranscript tools m w.1

variable {input : ObserverInput} {store' : MemoryStore} {run : ObserverRun}

theorem inTranscript_of_rendered {tools : ObserverTools} {m : DbMessage}
    (hrendered : input.transcript = renderObserverTranscript tools input.deltaMessages)
      (hm : m ∈ input.deltaMessages) :
    InTranscript tools m input := by
  obtain ⟨front, back, he⟩ := List.append_of_mem hm
  refine ⟨hm, front.flatMap (messageLines tools), back.flatMap (messageLines tools), ?_⟩
  rw [hrendered, renderObserverTranscript, he, List.flatMap_append, List.flatMap_cons, List.append_assoc]

namespace MemoryStore

/-- The messages lie in the order of their keysets. -/
structure Ordered (store : MemoryStore) : Prop where
  sorted : (store.messages.map StoredMessage.keyset).Pairwise (· < ·)
  dated : ∀ x ∈ store.messages, x.createdAt = x.message.createdAt

structure SavedOver (store store' : MemoryStore) : Prop where
  cursor : store'.cursor = store.cursor
  kept : ∀ m ∈ store.thread, hasPendingToolCall m = false → m ∈ store'.thread
  keysets : ∀ m ∈ store.thread, ∃ m' ∈ store'.thread, m'.keyset = m.keyset
  origin : ∀ m ∈ store'.thread, (∀ m₀ ∈ store.thread, m₀.keyset < m.keyset) ∨
    ∃ m₀ ∈ store.thread, m₀.keyset = m.keyset ∧ (hasPendingToolCall m₀ = false → m₀ = m)

variable {store : MemoryStore} {resourceId : String} {msg m : DbMessage}

theorem mem_thread : m ∈ store.thread ↔ ∃ x ∈ store.messages, x.returned = m := List.mem_map

theorem Ordered.returned (ho : store.Ordered) {x : StoredMessage} (hx : x ∈ store.messages) :
    x.returned = x.message := by
  rw [StoredMessage.returned, ho.dated x hx]

theorem Ordered.sortedMessages (ho : store.Ordered) : sortedMessages store.messages = store.messages := by
  refine List.Pairwise.insertionSort_eq ((List.pairwise_map.1 ho.sorted).imp fun h => ?_)
  exact compareKeyset_nonpos.2 h.le

theorem Ordered.thread_sorted (ho : store.Ordered) : store.thread.Pairwise fun m m' => m.keyset < m'.keyset :=
  List.pairwise_map.2 (List.pairwise_map.1 ho.sorted)

theorem saveMessage_new (ho : store.Ordered)
    (h : ∀ s ∈ store.messages, s.message.id ≠ msg.id ∧ s.keyset < msg.keyset) :
    (store.saveMessage resourceId msg).Ordered ∧ SavedOver store (store.saveMessage resourceId msg) := by
  have hmessages :
      (store.saveMessage resourceId msg).messages = store.messages ++ [⟨msg, msg.createdAt, resourceId⟩] := by
    refine if_neg fun hm => ?_
    obtain ⟨x, hx, he⟩ := List.mem_map.1 hm
    exact (h x hx).1 he
  have hthread : (store.saveMessage resourceId msg).thread = store.thread ++ [msg] := by
    rw [thread, hmessages, List.map_append]
    rfl
  have hbefore : ∀ m ∈ store.thread, m.keyset < msg.keyset := by
    intro m hm
    obtain ⟨x, hx, rfl⟩ := mem_thread.1 hm
    exact (h x hx).2
  refine ⟨⟨?_, ?_⟩, ⟨rfl, ?_, ?_, ?_⟩⟩
  · rw [hmessages, List.map_append]
    refine List.pairwise_append.2 ⟨ho.sorted, List.pairwise_singleton _ _, fun k hk k' hk' => ?_⟩
    obtain ⟨x, hx, rfl⟩ := List.mem_map.1 hk
    obtain rfl := List.mem_singleton.1 hk'
    exact (h x hx).2
  · rw [hmessages]
    intro x hx
    rcases List.mem_append.1 hx with hx | hx
    · exact ho.dated x hx
    · obtain rfl := List.mem_singleton.1 hx
      rfl
  · intro m hm _
    rw [hthread]
    exact List.mem_append_left _ hm
  · intro m hm
    rw [hthread]
    exact ⟨m, List.mem_append_left _ hm, rfl⟩
  · intro m hm
    rw [hthread] at hm
    rcases List.mem_append.1 hm with hm | hm
    · exact .inr ⟨m, hm, rfl, fun _ => rfl⟩
    · obtain rfl := List.mem_singleton.1 hm
      exact .inl hbefore

theorem saveMessage_again (ho : store.Ordered) {x₀ : StoredMessage} (hx₀ : x₀ ∈ store.messages)
    (hid : x₀.message.id = msg.id) (hkeyset : x₀.keyset = msg.keyset)
    (hsame : x₀.message = msg ∨ hasPendingToolCall x₀.message = true) :
    (store.saveMessage resourceId msg).Ordered ∧ SavedOver store (store.saveMessage resourceId msg) := by
  have hmessages : (store.saveMessage resourceId msg).messages = store.messages.map fun s =>
      if s.message.id = msg.id then ⟨msg, msg.createdAt, resourceId⟩ else s :=
    if_pos (List.mem_map.2 ⟨x₀, hx₀, hid⟩)
  have hunique : ∀ x ∈ store.messages, x.message.id = msg.id → x = x₀ := fun x hx he =>
    List.inj_on_of_nodup_map store.messages_unique hx hx₀ (he.trans hid.symm)
  have hkeysets : (store.saveMessage resourceId msg).messages.map StoredMessage.keyset =
      store.messages.map StoredMessage.keyset := by
    rw [hmessages, List.map_map]
    apply List.map_congr_left
    intro x hx
    rw [Function.comp_apply]
    split
    · next he =>
      rw [hunique x hx he, hkeyset]
      rfl
    · rfl
  have hpending : hasPendingToolCall x₀.returned = false → x₀.returned = msg := by
    rw [ho.returned hx₀]
    intro hno
    exact hsame.resolve_right fun h => Bool.noConfusion (h.symm.trans hno)
  have hmsg : msg ∈ (store.saveMessage resourceId msg).thread := by
    refine mem_thread.2 ⟨⟨msg, msg.createdAt, resourceId⟩, ?_, rfl⟩
    rw [hmessages]
    exact List.mem_map.2 ⟨x₀, hx₀, if_pos hid⟩
  have hother : ∀ x ∈ store.messages, x ≠ x₀ → x.returned ∈ (store.saveMessage resourceId msg).thread := by
    intro x hx hne
    refine mem_thread.2 ⟨x, ?_, rfl⟩
    rw [hmessages]
    exact List.mem_map.2 ⟨x, hx, if_neg fun he => hne (hunique x hx he)⟩
  refine ⟨⟨hkeysets ▸ ho.sorted, ?_⟩, ⟨rfl, ?_, ?_, ?_⟩⟩
  · rw [hmessages]
    intro x hx
    obtain ⟨y, hy, rfl⟩ := List.mem_map.1 hx
    split
    · rfl
    · exact ho.dated y hy
  · intro m hm hno
    obtain ⟨x, hx, rfl⟩ := mem_thread.1 hm
    by_cases he : x = x₀
    · rw [he] at hno ⊢
      exact hpending hno ▸ hmsg
    · exact hother x hx he
  · intro m hm
    obtain ⟨x, hx, rfl⟩ := mem_thread.1 hm
    by_cases he : x = x₀
    · exact ⟨msg, hmsg, by rw [he, StoredMessage.keyset_returned, hkeyset]⟩
    · exact ⟨_, hother x hx he, rfl⟩
  · intro m hm
    obtain ⟨x, hx, rfl⟩ := mem_thread.1 hm
    rw [hmessages] at hx
    obtain ⟨y, hy, rfl⟩ := List.mem_map.1 hx
    split
    · exact .inr ⟨x₀.returned, mem_thread.2 ⟨x₀, hx₀, rfl⟩, hkeyset, hpending⟩
    · exact .inr ⟨y.returned, mem_thread.2 ⟨y, hy, rfl⟩, rfl, fun _ => rfl⟩

theorem saveMessage_over (ho : store.Ordered) (resourceId : String) (h : SavesNext store msg) :
    (store.saveMessage resourceId msg).Ordered ∧ SavedOver store (store.saveMessage resourceId msg) := by
  rcases h with h | ⟨x₀, hx₀, hid, hkeyset, hsame⟩
  · exact saveMessage_new ho h
  · exact saveMessage_again ho hx₀ hid hkeyset hsame

/-- Messages to observe: all between the cursor and the last one of them, and settled. -/
structure Delta (store : MemoryStore) (observable : List DbMessage) : Prop where
  members : ∀ m ∈ observable, m ∈ store.thread ∧ hasPendingToolCall m = false
  behind : ∀ m ∈ observable, ∀ cursor ∈ store.cursor, cursor.keyset < m.keyset
  whole : ∀ last ∈ observable, ∀ m ∈ store.thread, m.keyset ≤ last.keyset →
    m ∈ observable ∨ ∃ cursor ∈ store.cursor, m.keyset ≤ cursor.keyset

theorem observableMessages_eq (deltaMessages : List DbMessage) :
    observableMessages deltaMessages = deltaMessages.takeWhile fun m => !hasPendingToolCall m := by
  rw [observableMessages]
  induction deltaMessages with
  | nil => rfl
  | cons m deltaMessages ih =>
    by_cases hp : hasPendingToolCall m = true
    · simp [List.findIdx?_cons, hp]
    · rw [List.takeWhile_cons_of_pos (by simpa using hp), ← ih, List.findIdx?_cons, if_neg hp]
      cases deltaMessages.findIdx? hasPendingToolCall with
      | none => rfl
      | some i => rfl

theorem Ordered.mem_scope (ho : store.Ordered) {since : Option ObservationCursor} :
    m ∈ (store.getMessagesForObservationScope since).1 ↔
      m ∈ store.thread ∧ ∀ cursor ∈ since, cursor.keyset < m.keyset := by
  cases since with
  | none => simp [getMessagesForObservationScope, ho.sortedMessages, thread]
  | some cursor =>
    simp only [getMessagesForObservationScope, ho.sortedMessages, List.mem_map, List.mem_filter, decide_eq_true_eq,
      compareKeyset_pos, gt_iff_lt, mem_thread, Option.mem_some_iff, forall_eq']
    constructor
    · rintro ⟨x, ⟨hx, hlt⟩, rfl⟩
      exact ⟨⟨x, hx, rfl⟩, hlt⟩
    · rintro ⟨⟨x, hx, rfl⟩, hlt⟩
      exact ⟨x, ⟨hx, hlt⟩, rfl⟩

theorem Ordered.scope_sublist (ho : store.Ordered) (since : Option ObservationCursor) :
    (store.getMessagesForObservationScope since).1.Sublist store.thread := by
  simp only [getMessagesForObservationScope, ho.sortedMessages]
  cases since with
  | none => exact List.Sublist.refl _
  | some cursor => exact List.filter_sublist.map _

theorem Ordered.scope_store (ho : store.Ordered) (since : Option ObservationCursor) :
    (store.getMessagesForObservationScope since).2 = store := by
  simp only [getMessagesForObservationScope, ho.sortedMessages]

theorem Ordered.delta (ho : store.Ordered) :
    Delta store (observableMessages (store.getMessagesForObservationScope store.cursor).1) := by
  rw [observableMessages_eq]
  have happend := List.takeWhile_append_dropWhile (p := fun m => !hasPendingToolCall m)
    (l := (store.getMessagesForObservationScope store.cursor).1)
  have hsorted := ho.thread_sorted.sublist (ho.scope_sublist store.cursor)
  rw [← happend] at hsorted
  refine ⟨fun m hm => ?_, fun m hm => ?_, fun last hlast m hm hle => ?_⟩
  · have hno := List.mem_takeWhile_imp hm
    exact ⟨(ho.mem_scope.1 ((List.takeWhile_sublist _).subset hm)).1, by simpa using hno⟩
  · exact (ho.mem_scope.1 ((List.takeWhile_sublist _).subset hm)).2
  · by_cases hcursor : ∃ cursor ∈ store.cursor, m.keyset ≤ cursor.keyset
    · exact .inr hcursor
    · have hscope := ho.mem_scope.2 ⟨hm, fun cursor hc => not_le.1 fun h => hcursor ⟨cursor, hc, h⟩⟩
      rw [← happend] at hscope
      refine .inl ((List.mem_append.1 hscope).resolve_right fun hm' => ?_)
      exact not_le_of_gt ((List.pairwise_append.1 hsorted).2.2 last hlast m hm') hle

theorem Delta.saved {observable : List DbMessage} (hd : Delta store observable)
    (hs : SavedOver store store') : Delta store' observable := by
  refine ⟨fun m hm => ?_, fun m hm => hs.cursor ▸ hd.behind m hm, fun last hlast m hm hle => ?_⟩
  · obtain ⟨hmem, hno⟩ := hd.members m hm
    exact ⟨hs.kept m hmem hno, hno⟩
  · rw [hs.cursor]
    rcases hs.origin m hm with hnew | ⟨m₀, hm₀, hkeyset, hsame⟩
    · exact absurd hle (not_le_of_gt (hnew last (hd.members last hlast).1))
    · rcases hd.whole last hlast m₀ hm₀ (hkeyset ▸ hle) with h | h
      · exact .inl (hsame (hd.members m₀ h).2 ▸ h)
      · exact .inr (hkeyset ▸ h)

end MemoryStore

open MemoryStore

variable {tools : ObserverTools} {limit : Nat} {s s' : ObserverState}

structure Gives (tools : ObserverTools) (store : MemoryStore) (input : ObserverInput) : Prop where
  delta : Delta store input.deltaMessages
  rendered : input.transcript = renderObserverTranscript tools input.deltaMessages

def RunHolds (tools : ObserverTools) (s : ObserverState) : ObserverRun → Prop
  | .idle _ | .readingCursor _ => True
  | .readingMessages _ cursor => cursor = s.store.cursor
  | .countingTranscript _ observable | .readingLog _ observable _ => Delta s.store observable
  | .observing input | .countingEntries input _ => Gives tools s.store input
  | .appending input _ _ _ inserted => Gives tools s.store input ∧ (inserted ≠ [] → ∃ w ∈ s.written, w.1 = input)
  | .settingCursor cursor _ => ∃ w ∈ s.written, Gives tools s.store w.1 ∧
      ∃ last ∈ w.1.deltaMessages.getLast?, cursor = observerCursor last w.1.now

structure ObservedThread (tools : ObserverTools) (s : ObserverState) : Prop where
  ordered : s.store.Ordered
  settled : ∀ cursor ∈ s.store.cursor, ∀ m ∈ s.store.thread, m.keyset ≤ cursor.keyset →
    hasPendingToolCall m = false ∧ Observed tools s m
  bounded : ∀ cursor ∈ s.store.cursor, ∃ m ∈ s.store.thread, m.keyset = cursor.keyset
  run : RunHolds tools s s.run

def Advances (tools : ObserverTools) (s s' : ObserverState) : Prop :=
  s'.store.cursor = s.store.cursor ∨
    ∃ cursor, s'.store.cursor = some cursor ∧ (∀ before ∈ s.store.cursor, before.keyset < cursor.keyset) ∧
      ∀ m ∈ s'.store.thread, m.keyset ≤ cursor.keyset → hasPendingToolCall m = false ∧ Observed tools s m

section Saves

theorem Gives.saved {store : MemoryStore} (h : Gives tools store input)
    (hs : SavedOver store store') : Gives tools store' input := ⟨h.delta.saved hs, h.rendered⟩

theorem RunHolds.saved (h : RunHolds tools s run)
    (hs : SavedOver s.store store') : RunHolds tools { s with store := store' } run := by
  cases run with
  | idle | readingCursor => trivial
  | readingMessages => exact (show _ = _ from h).trans hs.cursor.symm
  | countingTranscript | readingLog => exact MemoryStore.Delta.saved h hs
  | observing | countingEntries => exact Gives.saved h hs
  | appending => exact ⟨h.1.saved hs, h.2⟩
  | settingCursor =>
    obtain ⟨w, hw, hgives, hlast⟩ := h
    exact ⟨w, hw, hgives.saved hs, hlast⟩

theorem ObservedThread.saveMessage (h : ObservedThread tools s) {resourceId : String} {msg : DbMessage}
    (hnext : SavesNext s.store msg) : ObservedThread tools { s with store := s.store.saveMessage resourceId msg } := by
  obtain ⟨hordered, hover⟩ := saveMessage_over h.ordered resourceId hnext
  refine ⟨hordered, fun cursor hc m hm hle => ?_, fun cursor hc => ?_, h.run.saved hover⟩
  · rw [hover.cursor] at hc
    rcases hover.origin m hm with hnew | ⟨m₀, hm₀, hkeyset, hsame⟩
    · obtain ⟨last, hlast, he⟩ := h.bounded cursor hc
      exact absurd (he ▸ hle) (not_le_of_gt (hnew last hlast))
    · obtain ⟨hno, hobserved⟩ := h.settled cursor hc m₀ hm₀ (hkeyset ▸ hle)
      obtain rfl := hsame hno
      exact ⟨hno, hobserved⟩
  · rw [hover.cursor] at hc
    obtain ⟨m, hm, he⟩ := h.bounded cursor hc
    obtain ⟨m', hm', he'⟩ := hover.keysets m hm
    exact ⟨m', hm', he'.trans he⟩

theorem saveMessages_cursor (store : MemoryStore) (resourceId : Option String) (messages : List DbMessage) :
    (store.saveMessages resourceId messages).cursor = store.cursor := by
  induction messages generalizing store with
  | nil => rfl
  | cons msg messages ih => exact ih _

theorem ObservedThread.saveMessages (h : ObservedThread tools s) {resourceId : Option String}
    {messages : List DbMessage} (hin : SavesInOrder resourceId s.store messages) :
    ObservedThread tools { s with store := s.store.saveMessages resourceId messages } := by
  induction messages generalizing s with
  | nil => exact h
  | cons msg messages ih => exact ih (h.saveMessage hin.1) hin.2

end Saves

section Replies

theorem RunHolds.appendNext {skippedLines : List String}
    {inserted : List ObservationLogEntry} (prepared : List PreparedEntry) (hgives : Gives tools s.store input)
    (hwritten : inserted ≠ [] → ∃ w ∈ s.written, w.1 = input) :
    RunHolds tools s (appendNext input skippedLines inserted prepared) := by
  cases prepared with
  | cons entry prepared => exact ⟨hgives, hwritten⟩
  | nil =>
    rw [Agents.appendNext]
    split
    · next last hinserted hlast =>
      obtain ⟨w, hw, rfl⟩ := hwritten (List.ne_nil_of_length_pos (of_decide_eq_true hinserted))
      exact ⟨w, hw, hgives, last, hlast, rfl⟩
    · trivial

theorem Gives.appended (h : Gives tools s.store input) (row : ObservationLogEntry) :
    Gives tools (s.store.appendObservationLogEntry row) input :=
  ⟨⟨h.delta.members, h.delta.behind, h.delta.whole⟩, h.rendered⟩

theorem ObservedThread.append (h : ObservedThread tools s) {row : ObservationLogEntry}
    (hrun : RunHolds tools ⟨s.store.appendObservationLogEntry row, run, s.written ++ [(input, row)]⟩ run) :
    ObservedThread tools ⟨s.store.appendObservationLogEntry row, run, s.written ++ [(input, row)]⟩ := by
  refine ⟨⟨h.ordered.sorted, h.ordered.dated⟩, fun cursor hc m hm hle => ?_, h.bounded, hrun⟩
  obtain ⟨hno, w, hw, hin⟩ := h.settled cursor hc m hm hle
  exact ⟨hno, w, List.mem_append_left _ hw, hin⟩

theorem ObservedThread.setCursor (h : ObservedThread tools s) {cursor : ObservationCursor}
    {result : RunObservationLogObserverResult}
    (hrun : RunHolds tools s (.settingCursor cursor result)) (last : Option RunObservationLogObserverResult) :
    ObservedThread tools { s with store := s.store.setCursor cursor, run := .idle last } ∧
      Advances tools s { s with store := s.store.setCursor cursor, run := .idle last } := by
  obtain ⟨w, hw, hgives, m, hm, rfl⟩ := hrun
  have hlast : m ∈ w.1.deltaMessages := List.mem_of_getLast? hm
  have hsettled : ∀ m' ∈ s.store.thread, m'.keyset ≤ m.keyset →
      hasPendingToolCall m' = false ∧ Observed tools s m' := by
    intro m' hm' hle
    rcases hgives.delta.whole m hlast m' hm' hle with hdelta | ⟨before, hb, hle'⟩
    · exact ⟨(hgives.delta.members m' hdelta).2, w, hw, inTranscript_of_rendered hgives.rendered hdelta⟩
    · exact h.settled before hb m' hm' hle'
  refine ⟨⟨⟨h.ordered.sorted, h.ordered.dated⟩, ?_, ?_, trivial⟩, .inr ⟨_, rfl, ?_, ?_⟩⟩
  · intro cursor hc m' hm' hle
    cases hc
    exact hsettled m' hm' hle
  · intro cursor hc
    cases hc
    exact ⟨m, (hgives.delta.members m hlast).1, rfl⟩
  · exact hgives.delta.behind m hlast
  · exact fun m' hm' hle => hsettled m' hm' hle

theorem ObservedThread.goOn (h : ObservedThread tools s) (hrun : RunHolds tools { s with run } run) :
    ObservedThread tools { s with run } ∧ Advances tools s { s with run } :=
  ⟨⟨h.ordered, h.settled, h.bounded, hrun⟩, .inl rfl⟩

theorem ObservedThread.reply {label : ObserverLabel} (h : ObservedThread tools s)
    (hs : s.reply tools limit s.run label = some s') : ObservedThread tools s' ∧ Advances tools s s' := by
  have hrun := h.run
  generalize s.run = run at hs hrun
  rw [ObserverState.reply.eq_def] at hs
  split at hs
  · cases hs
    exact h.goOn rfl
  · next now cursor =>
    obtain rfl : cursor = s.store.cursor := hrun
    dsimp only at hs
    rw [h.ordered.scope_store] at hs
    cases hs
    refine h.goOn ?_
    split
    · trivial
    · split
      · trivial
      · exact h.ordered.delta
  · cases hs
    exact h.goOn hrun
  · cases hs
    exact h.goOn ⟨hrun, rfl⟩
  · cases hs
    exact h.goOn hrun
  · next input parsed tokenCounts =>
    split at hs
    · cases hs
      exact h.goOn (RunHolds.appendNext _ hrun fun hne => absurd rfl hne)
    · cases hs
  · next input skippedLines entry prepared inserted id =>
    cases hs
    refine ⟨h.append (RunHolds.appendNext _ (hrun.1.appended _) fun _ => ?_), .inl rfl⟩
    exact ⟨_, List.mem_append_right _ List.mem_cons_self, rfl⟩
  · next cursor result =>
    cases hs
    exact h.setCursor hrun _
  · cases hs
    exact ⟨h.append trivial, .inl rfl⟩
  · next cursor result =>
    cases hs
    exact h.setCursor hrun _
  · cases hs
  · cases hs
    exact h.goOn trivial
  · cases hs

theorem ObservedThread.step {label : ObserverLabel} (h : ObservedThread tools s) (hok : InOrder s label)
    (hs : s.step tools limit label = some s') : ObservedThread tools s' ∧ Advances tools s s' := by
  rw [ObserverState.step.eq_def] at hs
  split at hs
  · cases hs
    exact ⟨h.saveMessages hok, .inl (saveMessages_cursor _ _ _)⟩
  · split at hs
    · cases hs
      exact h.goOn trivial
    · cases hs
  · exact h.reply hs

theorem observedThread_of_reachable (h : (observerSystem tools limit).Reachable InOrder s) :
    ObservedThread tools s := by
  refine h.invariant ?_ fun s label s' hok hinv hs => (hinv.step hok hs).1
  rintro s rfl
  exact ⟨⟨.nil, fun _ h => absurd h List.not_mem_nil⟩, nofun, nofun, trivial⟩

theorem cursor_forward (h : (observerSystem tools limit).Reachable InOrder s)
    (hl : (observerSystem tools limit).Leads InOrder s s') :
    ∀ cursor ∈ s.store.cursor, ∃ cursor' ∈ s'.store.cursor, cursor.keyset ≤ cursor'.keyset := by
  refine hl.relates (R := fun s s' => ∀ cursor ∈ s.store.cursor, ∃ cursor' ∈ s'.store.cursor,
    cursor.keyset ≤ cursor'.keyset) (fun cursor hc => ⟨cursor, hc, le_rfl⟩) ?_
  intro s₁ label s₂ hsome hl₁ hok hs cursor hc
  obtain ⟨cursor₁, hc₁, hle⟩ := hsome cursor hc
  rcases ((observedThread_of_reachable (h.leads hl₁)).step hok hs).2 with hsame | ⟨cursor₂, hc₂, hlt, -⟩
  · exact ⟨cursor₁, hsame ▸ hc₁, hle⟩
  · exact ⟨cursor₂, hc₂, hle.trans (hlt cursor₁ hc₁).le⟩

end Replies

end N8n.Agents
