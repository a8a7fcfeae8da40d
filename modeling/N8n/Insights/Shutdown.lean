import N8n.Insights.Collection

namespace N8n.Insights

open N8n.Lib

variable {ι : Type} {s s' : CollectionState ι} {flushBatchSize i : Nat} {flush : Flush ι}
  {action : CollectionAction ι}

namespace CollectionState

def places (s : CollectionState ι) : List (BufferedInsight ι) :=
  s.bufferedInsights.items ++ s.flushes.flatMap Flush.held ++ s.database

structure Inv (s : CollectionState ι) : Prop where
  numbered : s.accepted.map BufferedInsight.object = List.range s.accepted.length
  places : s.accepted.Perm s.places

theorem Inv.accepted_nodup (h : s.Inv) : s.accepted.Nodup := by
  have hn : (s.accepted.map BufferedInsight.object).Nodup := by
    rw [h.numbered]
    exact List.nodup_range
  exact hn.of_map

theorem Inv.nodup (h : s.Inv) : s.places.Nodup := h.places.nodup_iff.1 h.accepted_nodup

theorem Inv.of_perm (h : s.Inv) (ha : s'.accepted = s.accepted) (hp : s.places.Perm s'.places) : s'.Inv := by
  constructor
  · rw [ha]
    exact h.numbered
  · rw [ha]
    exact h.places.trans hp

theorem scheduleFlushing_places : s.scheduleFlushing.places = s.places := by
  rw [scheduleFlushing]
  split <;> rfl

theorem scheduleFlushing_accepted : s.scheduleFlushing.accepted = s.accepted := by
  rw [scheduleFlushing]
  split <;> rfl

theorem collected_objects (insights : List ι) :
    (s.collected insights).map BufferedInsight.object = List.range' s.accepted.length insights.length := by
  rw [collected, List.map_map]
  exact List.zipIdx_map_snd _ _

theorem flushEvents_accepted : s.flushEvents.accepted = s.accepted := by
  rw [flushEvents]
  split
  · rfl
  · split
    · exact scheduleFlushing_accepted
    · rfl

theorem flushEvents_shutdown : s.flushEvents.shutdown = s.shutdown := by
  rw [flushEvents]
  split
  · rfl
  · split
    · rw [scheduleFlushing]
      split <;> rfl
    · rfl

theorem flushEvents_places : s.places.Perm s.flushEvents.places := by
  rw [flushEvents]
  split
  · exact .refl _
  · split
    · rw [scheduleFlushing_places]
    · simp only [places, List.flatMap_append, List.flatMap_cons, List.flatMap_nil, List.append_nil]
      exact List.perm_append_comm.append_right _

theorem Inv.flushEvents (h : s.Inv) : s.flushEvents.Inv := h.of_perm flushEvents_accepted flushEvents_places

theorem Inv.flushIfFull (h : s.Inv) : (s.flushIfFull flushBatchSize).Inv := by
  rw [CollectionState.flushIfFull]
  split
  · exact h.flushEvents
  · exact h

theorem Inv.addInsights [DecidableEq ι] (h : s.Inv) (insights : List ι) : (s.addInsights insights).Inv := by
  have hobjects : (s.accepted ++ s.collected insights).map BufferedInsight.object =
      List.range (s.accepted ++ s.collected insights).length := by
    rw [List.map_append, h.numbered, collected_objects, List.length_append, collected, List.length_map,
      List.length_zipIdx, List.range_eq_range', List.range_eq_range']
    have hrange := @List.range'_append_1 0 s.accepted.length insights.length
    rw [Nat.zero_add] at hrange
    exact hrange
  have hn : ((s.accepted ++ s.collected insights).map BufferedInsight.object).Nodup := by
    rw [hobjects]
    exact List.nodup_range
  have hnodup := List.nodup_append.1 (List.Nodup.of_map _ hn)
  -- What is in the buffer was accepted before.
  have hnew : ∀ x ∈ s.collected insights, ¬ x ∈ s.bufferedInsights := by
    intro x hx hm
    have hold : x ∈ s.accepted := h.places.mem_iff.2 (List.mem_append_left _ (List.mem_append_left _ hm))
    exact hnodup.2.2 x hold x hx rfl
  refine ⟨hobjects, (h.places.append_right _).trans ?_⟩
  simp only [CollectionState.places, CollectionState.addInsights, OrderedSet.items_insertAll hnodup.2.1 hnew,
    List.append_assoc]
  refine List.Perm.append_left _ ?_
  rw [← List.append_assoc]
  exact List.perm_append_comm

theorem held_set {flushes : List (Flush ι)} (hi : flushes[i]? = some flush) (flush' : Flush ι) :
    (flush.held ++ (flushes.set i flush').flatMap Flush.held).Perm (flush'.held ++ flushes.flatMap Flush.held) := by
  obtain ⟨hlt, rfl⟩ := List.getElem?_eq_some_iff.1 hi
  rw [List.set_eq_take_append_cons_drop, if_pos hlt]
  conv => rhs; rw [← List.take_append_drop i flushes, List.drop_eq_getElem_cons hlt]
  simp only [List.flatMap_append, List.flatMap_cons]
  generalize (flushes.take i).flatMap Flush.held = before
  generalize (flushes.drop (i + 1)).flatMap Flush.held = after
  have hswap := (List.perm_append_comm_assoc flushes[i].held flush'.held after).append_left before
  exact (List.perm_append_comm_assoc _ _ _).trans (hswap.trans (List.perm_append_comm_assoc _ _ _))

theorem held_of_store (hi : s.flushes[i]? = some flush) (hp : flush.phase = .saving ∨ flush.phase = .failed)
    {phase : FlushPhase} (hphase : phase = .stored ∨ phase = .ended) :
    (s.flushes.flatMap Flush.held).Perm (flush.insights.items ++
      (s.flushes.set i { flush with phase }).flatMap Flush.held) := by
  have h := held_set hi { flush with phase }
  have hold : flush.held = flush.insights.items := by
    rw [Flush.held]
    rcases hp with hp | hp <;> rw [hp]
  have hnew : ({ flush with phase } : Flush ι).held = [] := by
    rcases hphase with rfl | rfl <;> rfl
  rw [hold, hnew] at h
  exact h.symm

theorem held_of_same {flush' : Flush ι} (hi : s.flushes[i]? = some flush) (hsame : flush'.held = flush.held) :
    (s.flushes.flatMap Flush.held).Perm ((s.flushes.set i flush').flatMap Flush.held) := by
  have h := held_set hi flush'
  rw [hsame] at h
  exact ((List.perm_append_left_iff _).1 h).symm

theorem Inv.store (h : s.Inv) (hi : s.flushes[i]? = some flush) (hp : flush.phase = .saving) :
    ({ s with database := s.database ++ flush.insights.items }.setFlush i flush .stored).Inv := by
  refine h.of_perm rfl ?_
  have hheld := held_of_store hi (.inl hp) (.inl rfl)
  simp only [CollectionState.places, setFlush, List.append_assoc]
  refine List.Perm.append_left _ ((hheld.append_right _).trans ?_)
  rw [List.append_assoc]
  exact List.perm_append_comm.trans (by rw [List.append_assoc])

theorem Inv.keepHeld (h : s.Inv) (hi : s.flushes[i]? = some flush) (phase : FlushPhase)
    (hsame : ({ flush with phase } : Flush ι).held = flush.held) : (s.setFlush i flush phase).Inv :=
  h.of_perm rfl (((held_of_same hi hsame).append_left _).append_right _)

theorem Inv.putBackInto [DecidableEq ι] (h : s.Inv) (hi : s.flushes[i]? = some flush) (hp : flush.phase = .failed) :
    ((s.putBackInto flush).setFlush i flush .ended).Inv := by
  refine h.of_perm rfl ?_
  have hheld := held_of_store hi (.inr hp) (.inr rfl)
  have hmoved : s.places.Perm (s.bufferedInsights.items ++ (flush.insights.items ++
      ((s.flushes.set i { flush with phase := .ended }).flatMap Flush.held ++ s.database))) := by
    simp only [CollectionState.places, List.append_assoc]
    exact ((hheld.append_right _).trans (by rw [List.append_assoc])).append_left _
  have hnew : ∀ x ∈ flush.insights.items, ¬ x ∈ s.bufferedInsights := by
    intro x hx hm
    have hdisjoint := (List.nodup_append.1 (hmoved.nodup_iff.1 h.nodup)).2.2
    exact hdisjoint x hm x (List.mem_append_left _ hx) rfl
  refine hmoved.trans ?_
  simp only [CollectionState.places, setFlush, CollectionState.putBackInto,
    OrderedSet.items_insertAll flush.insights.nodup hnew, List.append_assoc]
  exact .refl _

theorem Inv.handle [DecidableEq ι] (h : s.Inv) (insights : List ι) :
    (s.handleWorkflowExecuteAfter flushBatchSize insights).Inv := by
  rw [handleWorkflowExecuteAfter]
  split
  · exact h
  · split
    · exact (h.addInsights insights).flushIfFull
    · have hflushed := (h.addInsights insights).flushEvents
      exact hflushed.of_perm rfl (.refl _)

theorem Inv.step [DecidableEq ι] (h : s.Inv) (hs : s.step flushBatchSize action = some s') : s'.Inv := by
  cases action with
  | workflowExecuteAfter insights =>
    cases hs
    exact h.handle insights
  | resumeHandler handler =>
    obtain ⟨i, _, hs⟩ := Option.bind_eq_some_iff.1 hs
    obtain ⟨flush, _, hs⟩ := Option.bind_eq_some_iff.1 hs
    split at hs <;> cases hs
    have hpopped : { s with handlers := s.handlers.eraseIdx handler }.Inv := h.of_perm rfl (.refl _)
    exact hpopped.flushIfFull
  | timer =>
    simp only [CollectionState.step] at hs
    split at hs <;> cases hs
    have hfired : { s with timer := false }.Inv := h.of_perm rfl (.refl _)
    exact hfired.flushEvents
  | store i =>
    obtain ⟨flush, hi, hs⟩ := Option.bind_eq_some_iff.1 hs
    split at hs
    · next hp =>
      cases hs
      exact h.store hi hp
    · cases hs
  | fail i =>
    obtain ⟨flush, hi, hs⟩ := Option.bind_eq_some_iff.1 hs
    split at hs
    · next hp =>
      cases hs
      have hmarked : { s with lateFailure := s.lateFailure || flush.late }.Inv := h.of_perm rfl (.refl _)
      exact hmarked.keepHeld hi .failed (by simp only [Flush.held, hp])
    · cases hs
  | finish i =>
    obtain ⟨flush, hi, hs⟩ := Option.bind_eq_some_iff.1 hs
    split at hs
    · next hp =>
      cases hs
      have hended := h.keepHeld hi .ended (by simp only [Flush.held, hp])
      exact hended.of_perm scheduleFlushing_accepted (by rw [scheduleFlushing_places])
    · next hp =>
      cases hs
      exact (h.putBackInto hi hp).of_perm scheduleFlushing_accepted (by rw [scheduleFlushing_places])
    · cases hs
  | shutdown =>
    simp only [CollectionState.step] at hs
    split at hs <;> cases hs
    have hstopped : s.stopBuffering.Inv := h.of_perm rfl (.refl _)
    exact hstopped.flushEvents.of_perm rfl (.refl _)
  | resolve =>
    simp only [CollectionState.step] at hs
    split at hs
    · split at hs <;> cases hs
      exact h.of_perm rfl (.refl _)
    · cases hs

theorem inv_of_reachable [DecidableEq ι] {ok : CollectionState ι → CollectionAction ι → Prop}
    (h : (collection ι flushBatchSize).Reachable ok s) : s.Inv := by
  refine h.invariant ?_ fun s a s' _ hi hs => hi.step hs
  rintro _ rfl
  exact ⟨rfl, .refl _⟩

theorem Inv.inOnePlace (h : s.Inv) : s.InOnePlace := ⟨h.accepted_nodup, h.places⟩

def unawaited (s : CollectionState ι) : List (Flush ι) :=
  match s.shutdown with
  | .waiting flushes => s.flushes.drop flushes
  | _ => []

/-- The shutdown resolves when a flush has taken what saves from before have put back, and the flushes that began after
its own have saved. -/
def Settles (s : CollectionState ι) (action : CollectionAction ι) : Prop :=
  action = .resolve → s.putBack = [] ∧ ∀ flush ∈ s.unawaited, flush.held = []

instance [DecidableEq ι] (s : CollectionState ι) (action : CollectionAction ι) : Decidable (s.Settles action) :=
  inferInstanceAs (Decidable (action = .resolve → _ ∧ ∀ flush ∈ s.unawaited, flush.held = []))

structure Closing (s : CollectionState ι) : Prop where
  initialized : s.shutdown ≠ .resolved → s.isInitialized = true
  synchronous : s.shutdown ≠ .running → s.isAsynchronouslySavingInsights = false
  buffered : s.shutdown ≠ .running → s.lateFailure = false → ∀ x ∈ s.bufferedInsights, x ∈ s.putBack
  failed : ∀ flush ∈ s.flushes, flush.phase = .failed → flush.late = true → s.lateFailure = true
  resolved : s.shutdown = .resolved → s.isInitialized = false ∧
    (s.lateFailure = false → s.bufferedInsights.items = [] ∧ s.flushes.flatMap Flush.held = [])

theorem Closing.not_resolved (h : s.Closing) (hi : s.isInitialized = true) : s.shutdown ≠ .resolved := by
  intro hr
  rw [(h.resolved hr).1] at hi
  exact Bool.noConfusion hi

theorem Closing.scheduleFlushing (h : s.Closing) : s.scheduleFlushing.Closing := by
  rw [CollectionState.scheduleFlushing]
  split
  · exact ⟨h.initialized, h.synchronous, h.buffered, h.failed, h.resolved⟩
  · exact h

theorem closing_flushed (hinit : s.isInitialized = true) (hnr : s.shutdown ≠ .resolved)
    (hsize : s.bufferedInsights.size ≠ 0) (hsync : s.shutdown ≠ .running → s.isAsynchronouslySavingInsights = false)
    (hfailed : ∀ flush ∈ s.flushes, flush.phase = .failed → flush.late = true → s.lateFailure = true) :
    s.flushEvents.Closing := by
  rw [CollectionState.flushEvents, if_neg (by simp [hinit]), if_neg hsize]
  refine ⟨fun _ => hinit, hsync, fun _ _ x hx => absurd hx OrderedSet.mem_empty, ?_, fun hr => absurd hr hnr⟩
  intro flush hf hp hl
  rcases List.mem_append.1 hf with hf | hf
  · exact hfailed flush hf hp hl
  · rw [List.mem_singleton.1 hf] at hp
    cases hp

theorem Closing.flushEvents (h : s.Closing) : s.flushEvents.Closing := by
  by_cases hinit : s.isInitialized = true
  · by_cases hsize : s.bufferedInsights.size = 0
    · rw [CollectionState.flushEvents, if_neg (by simp [hinit]), if_pos hsize]
      exact h.scheduleFlushing
    · exact closing_flushed hinit (h.not_resolved hinit) hsize h.synchronous h.failed
  · rw [CollectionState.flushEvents, if_pos ((Bool.not_eq_true _).mp hinit)]
    exact h

theorem Closing.flushIfFull (h : s.Closing) : (s.flushIfFull flushBatchSize).Closing := by
  rw [CollectionState.flushIfFull]
  split
  · exact h.flushEvents
  · exact h

theorem Closing.handle [DecidableEq ι] (h : s.Closing) (insights : List ι) :
    (s.handleWorkflowExecuteAfter flushBatchSize insights).Closing := by
  rw [handleWorkflowExecuteAfter]
  split
  · exact h
  · next hc =>
    rw [not_or, Bool.not_eq_false] at hc
    have hnr := h.not_resolved hc.1
    split
    · next hasync =>
      have hrunning : s.shutdown = .running := by
        by_contra hne
        rw [h.synchronous hne] at hasync
        exact Bool.noConfusion hasync
      refine Closing.flushIfFull ⟨fun _ => hc.1, fun hne => absurd hrunning hne, fun hne => absurd hrunning hne,
        h.failed, fun hr => absurd hr hnr⟩
    · -- The new insights are not in the buffer any more when the flush has begun.
      have hsize : (s.addInsights insights).bufferedInsights.size ≠ 0 := by
        obtain ⟨insight, rest, rfl⟩ := List.exists_cons_of_ne_nil hc.2
        intro hz
        exact OrderedSet.size_eq_zero.1 hz _ (OrderedSet.mem_insertAll.2 (.inl List.mem_cons_self))
      have hflushed : (s.addInsights insights).flushEvents.Closing :=
        closing_flushed hc.1 hnr hsize h.synchronous h.failed
      exact ⟨hflushed.initialized, hflushed.synchronous, hflushed.buffered, hflushed.failed, hflushed.resolved⟩

theorem Closing.setFlush (h : s.Closing) (hi : s.flushes[i]? = some flush) {phase : FlushPhase}
    (hphase : phase = .failed → flush.late = true → s.lateFailure = true)
    (hheld : ({ flush with phase } : Flush ι).held ⊆ flush.held) : (s.setFlush i flush phase).Closing := by
  refine ⟨h.initialized, h.synchronous, h.buffered, ?_, fun hr => ⟨(h.resolved hr).1, fun hl => ?_⟩⟩
  · intro flush' hf hp hl
    rcases List.mem_or_eq_of_mem_set hf with hf | rfl
    · exact h.failed flush' hf hp hl
    · exact hphase hp hl
  · obtain ⟨hbuffer, hflat⟩ := (h.resolved hr).2 hl
    refine ⟨hbuffer, List.flatMap_eq_nil_iff.2 fun flush' hf => ?_⟩
    rcases List.mem_or_eq_of_mem_set hf with hf | rfl
    · exact List.flatMap_eq_nil_iff.1 hflat flush' hf
    · have hnone := List.flatMap_eq_nil_iff.1 hflat flush (List.mem_of_getElem? hi)
      rw [hnone] at hheld
      exact List.subset_nil.1 hheld

theorem held_ended_subset : ({ flush with phase := .ended } : Flush ι).held ⊆ flush.held := List.nil_subset _

theorem Closing.finish_failed [DecidableEq ι] (h : s.Closing) (hi : s.flushes[i]? = some flush)
    (hp : flush.phase = .failed) : ((s.putBackInto flush).setFlush i flush .ended).Closing := by
  have hnr : s.lateFailure = false → s.shutdown = .resolved → flush.insights.items = [] := by
    intro hl hr
    have hnone := List.flatMap_eq_nil_iff.1 ((h.resolved hr).2 hl).2 flush (List.mem_of_getElem? hi)
    rwa [Flush.held, hp] at hnone
  have hput : (s.putBackInto flush).Closing := by
    refine ⟨h.initialized, h.synchronous, ?_, h.failed, ?_⟩
    · intro hne hl x hx
      have hearly : flush.late = false := by
        by_contra hlate
        have hfailure := h.failed flush (List.mem_of_getElem? hi) hp ((Bool.not_eq_false _).mp hlate)
        exact Bool.noConfusion (hfailure.symm.trans hl)
      have hput : (s.putBackInto flush).putBack = s.putBack ++ flush.insights.items := if_pos ⟨hearly, hne⟩
      rw [hput]
      rcases OrderedSet.mem_insertAll.1 hx with hx | hx
      · exact List.mem_append_right _ hx
      · exact List.mem_append_left _ (h.buffered hne hl x hx)
    · intro hr
      refine ⟨(h.resolved hr).1, fun hl => ⟨?_, ((h.resolved hr).2 hl).2⟩⟩
      simp only [CollectionState.putBackInto, hnr hl hr]
      exact ((h.resolved hr).2 hl).1
  exact hput.setFlush hi (fun hc => FlushPhase.noConfusion hc) held_ended_subset

theorem Closing.shutdown (h : s.Closing) (hr : s.shutdown = .running) : s.beginShutdown.Closing := by
  have hinit : s.isInitialized = true := h.initialized (by rw [hr]; exact Shutdown.noConfusion)
  have hflushed : s.stopBuffering.flushEvents.Closing := by
    by_cases hsize : s.bufferedInsights.size = 0
    · have hempty : s.stopBuffering.Closing :=
        ⟨fun _ => hinit, fun _ => rfl, fun _ _ x hx => absurd hx (OrderedSet.size_eq_zero.1 hsize x), h.failed,
          fun hr => Shutdown.noConfusion hr⟩
      exact hempty.flushEvents
    · exact closing_flushed hinit Shutdown.noConfusion hsize (fun _ => rfl) h.failed
  have hwaiting : s.stopBuffering.flushEvents.shutdown = .waiting 0 := flushEvents_shutdown
  exact ⟨fun _ => hflushed.initialized (by rw [hwaiting]; exact Shutdown.noConfusion),
    fun _ => hflushed.synchronous (by rw [hwaiting]; exact Shutdown.noConfusion),
    fun _ => hflushed.buffered (by rw [hwaiting]; exact Shutdown.noConfusion), hflushed.failed,
    fun hr => Shutdown.noConfusion hr⟩

theorem Closing.resolve (h : s.Closing) {flushes : Nat} (hw : s.shutdown = .waiting flushes)
    (hended : ∀ flush ∈ s.flushes.take flushes, flush.phase = .ended) (hok : s.Settles .resolve) :
    ({ s with isInitialized := false, shutdown := .resolved } : CollectionState ι).Closing := by
  have hne : s.shutdown ≠ .running := by
    rw [hw]
    exact Shutdown.noConfusion
  obtain ⟨hput, hsaved⟩ := hok rfl
  refine ⟨fun hc => absurd rfl hc, fun _ => h.synchronous hne, fun _ => h.buffered hne, h.failed, fun _ => ⟨rfl, ?_⟩⟩
  intro hl
  constructor
  · refine List.eq_nil_iff_forall_not_mem.2 fun x hx => ?_
    have hx := h.buffered hne hl x hx
    rw [hput] at hx
    exact List.not_mem_nil hx
  · refine List.flatMap_eq_nil_iff.2 fun flush hf => ?_
    rw [← List.take_append_drop flushes s.flushes] at hf
    rcases List.mem_append.1 hf with hf | hf
    · rw [Flush.held, hended flush hf]
    · rw [unawaited, hw] at hsaved
      exact hsaved flush hf

theorem Closing.step [DecidableEq ι] (h : s.Closing) (hok : s.Settles action)
    (hs : s.step flushBatchSize action = some s') : s'.Closing := by
  cases action with
  | workflowExecuteAfter insights =>
    cases hs
    exact h.handle insights
  | resumeHandler handler =>
    obtain ⟨i, _, hs⟩ := Option.bind_eq_some_iff.1 hs
    obtain ⟨flush, _, hs⟩ := Option.bind_eq_some_iff.1 hs
    split at hs <;> cases hs
    have hpopped : { s with handlers := s.handlers.eraseIdx handler }.Closing :=
      ⟨h.initialized, h.synchronous, h.buffered, h.failed, h.resolved⟩
    exact hpopped.flushIfFull
  | timer =>
    simp only [CollectionState.step] at hs
    split at hs <;> cases hs
    have hfired : { s with timer := false }.Closing :=
      ⟨h.initialized, h.synchronous, h.buffered, h.failed, h.resolved⟩
    exact hfired.flushEvents
  | store i =>
    obtain ⟨flush, hi, hs⟩ := Option.bind_eq_some_iff.1 hs
    split at hs <;> cases hs
    have hstored : { s with database := s.database ++ flush.insights.items }.Closing :=
      ⟨h.initialized, h.synchronous, h.buffered, h.failed, h.resolved⟩
    exact hstored.setFlush hi FlushPhase.noConfusion (List.nil_subset _)
  | fail i =>
    obtain ⟨flush, hi, hs⟩ := Option.bind_eq_some_iff.1 hs
    split at hs
    · next hp =>
      cases hs
      have hl : ∀ {P : Prop}, (s.lateFailure = false → P) → (s.lateFailure || flush.late) = false → P :=
        fun hP hor => hP (Bool.or_eq_false_iff.1 hor).1
      have hmarked : { s with lateFailure := s.lateFailure || flush.late }.Closing := by
        refine ⟨h.initialized, h.synchronous, fun hne => hl (h.buffered hne), ?_, fun hr => ?_⟩
        · intro flush' hf hp' hlate
          simp only [h.failed flush' hf hp' hlate, Bool.true_or]
        · exact ⟨(h.resolved hr).1, hl (h.resolved hr).2⟩
      refine hmarked.setFlush hi (fun _ hlate => ?_) ?_
      · simp only [hlate, Bool.or_true]
      · simp only [Flush.held, hp]
        exact List.Subset.refl _
    · cases hs
  | finish i =>
    obtain ⟨flush, hi, hs⟩ := Option.bind_eq_some_iff.1 hs
    split at hs
    · cases hs
      exact (h.setFlush hi FlushPhase.noConfusion held_ended_subset).scheduleFlushing
    · next hp =>
      cases hs
      exact (h.finish_failed hi hp).scheduleFlushing
    · cases hs
  | shutdown =>
    simp only [CollectionState.step] at hs
    split at hs
    · next hr =>
      cases hs
      exact h.shutdown hr
    · cases hs
  | resolve =>
    simp only [CollectionState.step] at hs
    split at hs
    · next flushes hw =>
      split at hs
      · next hended =>
        cases hs
        exact h.resolve hw hended hok
      · cases hs
    · cases hs

theorem closing_of_reachable [DecidableEq ι] (h : (collection ι flushBatchSize).Reachable Settles s) : s.Closing := by
  refine h.invariant ?_ fun s a s' hok hi hs => hi.step hok hs
  rintro _ rfl
  exact ⟨fun _ => rfl, fun hne => absurd rfl hne, fun hne => absurd rfl hne,
    fun _ hf => absurd hf List.not_mem_nil, Shutdown.noConfusion⟩

theorem Closing.saved (h : s.Closing) (hi : s.Inv) : s.Saved := by
  intro hr hl insight hm
  obtain ⟨hbuffer, hflat⟩ := (h.resolved hr).2 hl
  have hplace := hi.places.mem_iff.1 hm
  rw [CollectionState.places, hbuffer, hflat] at hplace
  exact hplace

end CollectionState

/-- In every run that settles, each accepted insight is in one place, and in the database after the shutdown. -/
theorem insights_kept [DecidableEq ι] (h : (collection ι flushBatchSize).Reachable CollectionState.Settles s) :
    s.InOnePlace ∧ s.Saved :=
  have hinv := CollectionState.inv_of_reachable h
  ⟨hinv.inOnePlace, (CollectionState.closing_of_reachable h).saved hinv⟩

/-- The save of the first execution fails during the shutdown, and the flush for a second one takes its insight. -/
theorem insights_kept_retaken : ∃ s : CollectionState String,
    (collection String 1).Reachable CollectionState.Settles s ∧ s.shutdown = .resolved ∧ s.accepted.length = 2 ∧
      s.InOnePlace ∧ s.Saved := by
  have h : ((collection String 1).run (fun s a => s.Settles a) .initial [.workflowExecuteAfter ["success"], .shutdown,
      .fail 0, .finish 0, .workflowExecuteAfter ["failure"], .store 1, .finish 1, .resolve]).any
      (fun s => s.shutdown = .resolved ∧ s.accepted.length = 2) = true := by decide +kernel
  obtain ⟨s, hrun, hs⟩ := (Option.any_eq_true _ _).1 h
  obtain ⟨hresolved, hlength⟩ := of_decide_eq_true hs
  have hr : (collection String 1).Reachable CollectionState.Settles s :=
    ⟨.initial, rfl, (TransitionSystem.run_leads hrun).mono fun _ _ => of_decide_eq_true⟩
  exact ⟨s, hr, hresolved, hlength, insights_kept hr⟩

/-- The save puts its insight back into the buffer when the shutdown has already looked at it. -/
theorem put_back_behind_shutdown :
    ∃ s : CollectionState String, (collection String 1).Reachable TransitionSystem.Any s ∧ ¬ s.Saved := by
  have h : ((collection String 1).run (fun _ _ => true) .initial
      [.workflowExecuteAfter ["success"], .shutdown, .fail 0, .finish 0, .resolve]).any (fun s =>
        s.shutdown = .resolved ∧ s.lateFailure = false ∧ s.accepted = [⟨0, "success"⟩] ∧ s.database = []) = true := by
    decide +kernel
  obtain ⟨s, hrun, hs⟩ := (Option.any_eq_true _ _).1 h
  obtain ⟨hresolved, hl, haccepted, hdatabase⟩ := of_decide_eq_true hs
  refine ⟨s, ⟨.initial, rfl, (TransitionSystem.run_leads hrun).mono fun _ _ _ => trivial⟩, fun hsaved => ?_⟩
  have hm := hsaved hresolved hl ⟨0, "success"⟩ (by rw [haccepted]; exact List.mem_singleton_self _)
  rw [hdatabase] at hm
  exact List.not_mem_nil hm

namespace CollectionState

def Watched (s : CollectionState ι) : Prop :=
  s.isInitialized = true → s.timer = true ∨ ∃ flush ∈ s.flushes, flush.phase ≠ .ended

theorem scheduleFlushing_watched : s.scheduleFlushing.Watched := by
  intro hi
  rw [scheduleFlushing] at hi ⊢
  split at hi
  · next h => exact .inl (by rw [if_pos h])
  · next h => exact absurd hi h

theorem flushEvents_watched : s.flushEvents.Watched := by
  rw [flushEvents]
  split
  · next h => exact fun hi => absurd (h.symm.trans hi) Bool.false_ne_true
  · split
    · exact scheduleFlushing_watched
    · exact fun _ => .inr ⟨_, List.mem_concat_self, FlushPhase.noConfusion⟩

theorem Watched.flushIfFull (h : s.Watched) : (s.flushIfFull flushBatchSize).Watched := by
  rw [CollectionState.flushIfFull]
  split
  · exact flushEvents_watched
  · exact h

theorem Watched.handle [DecidableEq ι] (h : s.Watched) (insights : List ι) :
    (s.handleWorkflowExecuteAfter flushBatchSize insights).Watched := by
  rw [handleWorkflowExecuteAfter]
  split
  · exact h
  · split
    · exact Watched.flushIfFull h
    · exact flushEvents_watched (s := s.addInsights insights)

theorem setFlush_watched {t : CollectionState ι} (hi : t.flushes[i]? = some flush) {phase : FlushPhase}
    (hp : phase ≠ .ended) : (t.setFlush i flush phase).Watched := by
  obtain ⟨hlt, -⟩ := List.getElem?_eq_some_iff.1 hi
  exact fun _ => .inr ⟨_, List.mem_set hlt _, hp⟩

theorem Watched.step [DecidableEq ι] (h : s.Watched) (hs : s.step flushBatchSize action = some s') : s'.Watched := by
  cases action with
  | workflowExecuteAfter insights => exact Option.some.inj hs ▸ h.handle insights
  | resumeHandler handler =>
    obtain ⟨_, -, hs⟩ := Option.bind_eq_some_iff.1 hs
    obtain ⟨flush, -, hs⟩ := Option.bind_eq_some_iff.1 hs
    split at hs
    · exact Option.some.inj hs ▸ Watched.flushIfFull h
    · cases hs
  | timer =>
    simp only [CollectionState.step] at hs
    split at hs
    · exact Option.some.inj hs ▸ flushEvents_watched
    · cases hs
  | store i | fail i =>
    obtain ⟨flush, hi, hs⟩ := Option.bind_eq_some_iff.1 hs
    split at hs
    · exact Option.some.inj hs ▸ setFlush_watched hi FlushPhase.noConfusion
    · cases hs
  | finish i =>
    obtain ⟨flush, -, hs⟩ := Option.bind_eq_some_iff.1 hs
    split at hs
    · exact Option.some.inj hs ▸ scheduleFlushing_watched
    · exact Option.some.inj hs ▸ scheduleFlushing_watched
    · cases hs
  | shutdown =>
    simp only [CollectionState.step] at hs
    split at hs
    · exact Option.some.inj hs ▸ flushEvents_watched (s := s.stopBuffering)
    · cases hs
  | resolve =>
    simp only [CollectionState.step] at hs
    split at hs
    · split at hs
      · exact Option.some.inj hs ▸ fun hi => Bool.noConfusion hi
      · cases hs
    · cases hs

end CollectionState

theorem watched_of_reachable [DecidableEq ι] (h : (collection ι flushBatchSize).Reachable TransitionSystem.Any s) :
    s.Watched := by
  refine h.invariant ?_ fun _ _ _ _ hi hs => hi.step hs
  rintro _ rfl
  exact fun _ => .inl rfl

/-- When no flush is in progress, the timer is armed, and when it fires all that is buffered is being saved. -/
theorem buffered_flushed [DecidableEq ι] (h : (collection ι flushBatchSize).Reachable TransitionSystem.Any s)
    (hinit : s.isInitialized = true) (hidle : ∀ flush ∈ s.flushes, flush.phase = .ended) :
    ∃ s', s.step flushBatchSize .timer = some s' ∧ s'.bufferedInsights.items = [] ∧
      ∀ insight ∈ s.bufferedInsights.items, ∃ flush ∈ s'.flushes, flush.phase = .saving ∧ insight ∈ flush.insights.items := by
  have htimer : s.timer = true := by
    refine (watched_of_reachable h hinit).resolve_right ?_
    rintro ⟨flush, hf, hp⟩
    exact hp (hidle flush hf)
  have hstep : s.step flushBatchSize .timer = some { s with timer := false }.flushEvents := if_pos htimer
  refine ⟨_, hstep, ?_⟩
  rw [CollectionState.flushEvents, if_neg (by rw [hinit]; decide)]
  split
  · next hsize =>
    have hnil : s.bufferedInsights.items = [] := List.eq_nil_of_length_eq_zero hsize
    rw [CollectionState.scheduleFlushing, if_pos hinit]
    refine ⟨hnil, fun insight hm => ?_⟩
    rw [hnil] at hm
    exact absurd hm List.not_mem_nil
  · exact ⟨rfl, fun insight hm => ⟨_, List.mem_concat_self, rfl, hm⟩⟩

theorem buffered_flushed_one : ∃ s s' : CollectionState String,
    s.bufferedInsights.items = [⟨0, "success"⟩] ∧ s.step 2 .timer = some s' ∧ s'.bufferedInsights.items = [] := by
  have hrun : (collection String 2).run (fun _ _ => true) .initial [.workflowExecuteAfter ["success"]] =
      some (CollectionState.initial.addInsights ["success"]) := by decide +kernel
  have hr : (collection String 2).Reachable TransitionSystem.Any (CollectionState.initial.addInsights ["success"]) :=
    ⟨.initial, rfl, (TransitionSystem.run_leads hrun).mono fun _ _ _ => trivial⟩
  obtain ⟨s', hs, hnil, -⟩ := buffered_flushed hr rfl (fun _ hm => absurd hm List.not_mem_nil)
  exact ⟨_, s', by decide +kernel, hs, hnil⟩

end N8n.Insights
