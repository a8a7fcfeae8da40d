import N8n.Webhooks.CacheProtocol
import N8n.Webhooks.PositionalRouting

namespace N8n.Webhooks

open N8n.Lib

variable {webhook other : WebhookEntity} {s s' : ServiceState} {action : ServiceAction} {i j : Nat} {lookup : Lookup}
  {entry : CacheEntry} {found : WebhookEntity}

theorem WebhookEntity.Same.trans {third : WebhookEntity} (h : webhook.Same other) (h' : other.Same third) :
    webhook.Same third := ⟨h.1.trans h'.1, h.2.1.trans h'.2.1, h.2.2.trans h'.2.2⟩

theorem ServiceState.Stores.congr (h : webhook.Same other) (hs : s.Stores webhook) : s.Stores other := by
  obtain ⟨row, hm, hrow⟩ := hs
  exact ⟨row, hm, hrow.trans h⟩

namespace ServiceState

def writes (s : ServiceState) : ServiceAction → Option WebhookEntity
  | .cacheFound i false => s.lookups[i]?.bind fun lookup =>
    match lookup.phase with
    | .returned _ (some entry) => some entry.webhook
    | _ => none
  | .cacheStored i false => s.stores[i]?.map Store.webhook
  | _ => none

def resolves (s : ServiceState) : ServiceAction → Option Deletion
  | .resolve i => s.deletions[i]?
  | _ => none

/-- What is written to the cache is stored, and what a resolving deletion has deleted is out of the cache unless it is
stored again. -/
def KeepsCache (s : ServiceState) (action : ServiceAction) : Prop :=
  (∀ webhook ∈ s.writes action, s.Stores webhook) ∧
    ∀ deletion ∈ s.resolves action, ∀ webhook ∈ deletion.webhooks, ∀ entry ∈ s.cache,
      entry.webhook.Same webhook → s.Stores webhook

instance (s : ServiceState) (action : ServiceAction) : Decidable (s.KeepsCache action) :=
  inferInstanceAs (Decidable (_ ∧ ∀ deletion ∈ s.resolves action, ∀ webhook ∈ deletion.webhooks, ∀ entry ∈ s.cache,
    entry.webhook.Same webhook → s.Stores webhook))

def Uncached (s : ServiceState) (webhook : WebhookEntity) : Prop := ∀ entry ∈ s.cache, ¬ entry.webhook.Same webhook

def Unfound (s : ServiceState) (i : Nat) (webhook : WebhookEntity) : Prop :=
  ∀ lookup found, s.lookups[i]? = some lookup → lookup.Found found → ¬ found.Same webhook

def Offers (s : ServiceState) (webhook : WebhookEntity) : Prop :=
  (∃ entry ∈ s.cache, entry.webhook = webhook) ∨ webhook ∈ s.rows

end ServiceState

theorem WebhookCache.get_mem {cache : WebhookCache} {key : CodeUnits} (h : cache.get key = some webhook) :
    ∃ entry ∈ cache, entry.webhook = webhook := by
  obtain ⟨entry, hf, he⟩ := Option.map_eq_some_iff.1 h
  exact ⟨entry, List.mem_of_find?_eq_some hf, he⟩

theorem findDynamicWebhook_mem {rows : List WebhookEntity} {method : Method} {path : CodeUnits}
    (h : findDynamicWebhook rows method path = some webhook) : webhook ∈ rows :=
  (mem_matching.1 (mostStatic_of_found h).1).1

theorem WebhookCache.mem_set {cache : WebhookCache} {new : CacheEntry} (h : entry ∈ WebhookCache.set cache new) :
    entry = new ∨ entry ∈ cache := by
  rcases List.mem_cons.1 h with rfl | h
  · exact .inl rfl
  · exact .inr (List.mem_filter.1 h).1

theorem stepLookup_cases (h : s.stepLookup i lookup action = some s') : ∃ cache phase,
    s' = { s with cache, lookups := s.lookups.set i { lookup with phase } } ∧
      (∀ entry ∈ cache, entry ∈ s.cache ∨
        ∃ j result, action = .cacheFound j false ∧ lookup.phase = .returned result (some entry)) ∧
      ∀ found entry, phase = .returned (some found) entry → s.Offers found ∨ lookup.Found found := by
  cases action with
  | readCache j fails =>
    simp only [ServiceState.stepLookup] at h
    split at h
    · split at h
      · next webhook hget =>
        cases h
        refine ⟨_, _, rfl, fun _ => .inl, fun found entry hp => ?_⟩
        cases hp
        cases fails with
        | true => cases hget
        | false => exact .inl (.inl (WebhookCache.get_mem hget))
      · cases h
        exact ⟨_, _, rfl, fun _ => .inl, fun _ _ hp => LookupPhase.noConfusion hp⟩
    · cases h
  | readStored j =>
    simp only [ServiceState.stepLookup] at h
    split at h
    · split at h
      · next webhook hfind =>
        cases h
        refine ⟨_, _, rfl, fun _ => .inl, fun found entry hp => ?_⟩
        cases hp
        exact .inl (.inr (findStaticWebhookInDb_eq_some hfind).1)
      · cases h
        exact ⟨_, _, rfl, fun _ => .inl, fun _ _ hp => LookupPhase.noConfusion hp⟩
    · cases h
  | readTemplates j order =>
    simp only [ServiceState.stepLookup] at h
    split at h
    · next hc =>
      cases h
      refine ⟨_, _, rfl, fun _ => .inl, fun found entry hp => ?_⟩
      have hfound : findDynamicWebhook order lookup.method lookup.path = some found := by
        simp only [LookupPhase.returned.injEq] at hp
        exact hp.1
      exact .inl (.inr (hc.2.mem_iff.1 (findDynamicWebhook_mem hfound)))
    · cases h
  | cacheFound j fails =>
    simp only [ServiceState.stepLookup] at h
    split at h
    · next result new hphase =>
      cases h
      refine ⟨_, _, rfl, fun entry he => ?_, fun found entry hp => ?_⟩
      · cases fails with
        | true => exact .inl he
        | false =>
          rcases WebhookCache.mem_set he with rfl | he
          · exact .inr ⟨j, result, rfl, hphase⟩
          · exact .inl he
      · cases hp
        exact .inr ⟨_, hphase⟩
    · cases h
  | _ => cases h

theorem stepStore_cases {store : Store} (h : s.stepStore i store action = some s') : s'.lookups = s.lookups ∧
    ∀ entry ∈ s'.cache, entry ∈ s.cache ∨ ∃ j, action = .cacheStored j false ∧ entry.webhook = store.webhook := by
  cases action with
  | insert j fails =>
    simp only [ServiceState.stepStore] at h
    split at h
    · split at h <;> cases h <;> exact ⟨rfl, fun _ => .inl⟩
    · cases h
  | readHolder j =>
    simp only [ServiceState.stepStore] at h
    split at h
    · split at h
      · cases h
        exact ⟨rfl, fun _ => .inl⟩
      · split at h <;> cases h <;> exact ⟨rfl, fun _ => .inl⟩
    · cases h
  | update j =>
    simp only [ServiceState.stepStore] at h
    split at h <;> cases h
    exact ⟨rfl, fun _ => .inl⟩
  | cacheStored j fails =>
    simp only [ServiceState.stepStore] at h
    split at h <;> cases h
    refine ⟨rfl, fun entry he => ?_⟩
    cases fails with
    | true => exact .inl he
    | false =>
      rcases WebhookCache.mem_set he with rfl | he
      · exact .inr ⟨j, rfl, rfl⟩
      · exact .inl he
  | _ => cases h

theorem stepDeletion_cases {deletion : Deletion} (h : s.stepDeletion i deletion action = some s') :
    s'.lookups = s.lookups ∧ ∀ entry ∈ s'.cache, entry ∈ s.cache := by
  cases action with
  | dropKeys j =>
    simp only [ServiceState.stepDeletion] at h
    split at h <;> cases h
    exact ⟨rfl, fun entry he => (List.mem_filter.1 he).1⟩
  | readRows j | removeRows j | resolve j =>
    simp only [ServiceState.stepDeletion] at h
    split at h <;> cases h
    exact ⟨rfl, fun _ => id⟩
  | _ => cases h

theorem cache_of_step (h : s.step action = some s') (he : entry ∈ s'.cache) :
    entry ∈ s.cache ∨ s.writes action = some entry.webhook := by
  cases action with
  | findWebhook | storeWebhook | deleteWorkflowWebhooks =>
    cases h
    exact .inl he
  | expire key =>
    cases h
    exact .inl (List.mem_filter.1 he).1
  | readCache | readStored | readTemplates | cacheFound =>
    obtain ⟨lookup, hi, h⟩ := Option.bind_eq_some_iff.1 h
    obtain ⟨cache, phase, rfl, hcache, _⟩ := stepLookup_cases h
    rcases hcache entry he with hold | ⟨j, result, hj, hphase⟩
    · exact .inl hold
    · cases hj <;> exact .inr (by simp [ServiceState.writes, hi, hphase])
  | insert | readHolder | update | cacheStored =>
    obtain ⟨store, hi, h⟩ := Option.bind_eq_some_iff.1 h
    rcases (stepStore_cases h).2 entry he with hold | ⟨j, hj, hw⟩
    · exact .inl hold
    · cases hj <;> exact .inr (by simp [ServiceState.writes, hi, hw])
  | readRows | dropKeys | removeRows | resolve =>
    obtain ⟨deletion, _, h⟩ := Option.bind_eq_some_iff.1 h
    exact .inl ((stepDeletion_cases h).2 entry he)

theorem found_of_step (h : s.step action = some s') (hl : s'.lookups[j]? = some lookup)
    (hfound : lookup.Found found) : s.Offers found ∨ ∃ old, s.lookups[j]? = some old ∧ old.Found found := by
  cases action with
  | findWebhook method path =>
    cases h
    obtain ⟨entry, hp⟩ := hfound
    by_cases hlt : j < s.lookups.length
    · rw [List.getElem?_append_left hlt] at hl
      exact .inr ⟨lookup, hl, entry, hp⟩
    · rw [List.getElem?_append_right (Nat.not_lt.1 hlt)] at hl
      cases List.mem_singleton.1 (List.mem_of_getElem? hl)
      exact LookupPhase.noConfusion hp
  | storeWebhook | deleteWorkflowWebhooks | expire =>
    cases h
    exact .inr ⟨lookup, hl, hfound⟩
  | readCache i | readStored i | readTemplates i | cacheFound i =>
    obtain ⟨old, hi, h⟩ := Option.bind_eq_some_iff.1 h
    obtain ⟨cache, phase, rfl, _, hphase⟩ := stepLookup_cases h
    by_cases hij : i = j
    · subst hij
      have hlt := (List.getElem?_eq_some_iff.1 hi).1
      rw [List.getElem?_set_self hlt] at hl
      cases hl
      obtain ⟨entry, hp⟩ := hfound
      exact (hphase found entry hp).imp_right fun hold => ⟨old, hi, hold⟩
    · rw [List.getElem?_set_ne hij] at hl
      exact .inr ⟨lookup, hl, hfound⟩
  | insert | readHolder | update | cacheStored =>
    obtain ⟨store, _, h⟩ := Option.bind_eq_some_iff.1 h
    rw [(stepStore_cases h).1] at hl
    exact .inr ⟨lookup, hl, hfound⟩
  | readRows | dropKeys | removeRows | resolve =>
    obtain ⟨deletion, _, h⟩ := Option.bind_eq_some_iff.1 h
    rw [(stepDeletion_cases h).1] at hl
    exact .inr ⟨lookup, hl, hfound⟩

theorem ServiceState.Uncached.step (hu : s.Uncached webhook) (hk : s.KeepsCache action) (hno : ¬ s.Stores webhook)
    (h : s.step action = some s') : s'.Uncached webhook := by
  intro entry he hsame
  rcases cache_of_step h he with hold | hw
  · exact hu entry hold hsame
  · exact hno ((hk.1 _ hw).congr hsame)

theorem ServiceState.Offers.not_same (ho : s.Offers found) (hu : s.Uncached webhook) (hno : ¬ s.Stores webhook) :
    ¬ found.Same webhook := by
  rcases ho with ⟨entry, he, rfl⟩ | hm
  · exact hu entry he
  · exact fun hsame => hno ⟨found, hm, hsame⟩

theorem ServiceState.Unfound.step (hf : s.Unfound i webhook) (hu : s.Uncached webhook) (hno : ¬ s.Stores webhook)
    (h : s.step action = some s') : s'.Unfound i webhook := by
  intro lookup found hl hfound
  rcases found_of_step h hl hfound with ho | ⟨old, hold, hfound⟩
  · exact ho.not_same hu hno
  · exact hf old found hold hfound

theorem Leads.uncached (hl : webhookService.Leads (fun s a => s.KeepsCache a ∧ ¬ s.Stores webhook) s s')
    (hu : s.Uncached webhook) : s'.Uncached webhook := by
  induction hl with
  | refl => exact hu
  | step action _ hok hs ih => exact ih.step hok.1 hok.2 hs

theorem Leads.unfound (hl : webhookService.Leads (fun s a => s.KeepsCache a ∧ ¬ s.Stores webhook) s s')
    (hu : s.Uncached webhook) (hf : s.Unfound i webhook) : s'.Unfound i webhook := by
  induction hl with
  | refl => exact hf
  | step action hl hok hs ih => exact ih.step (Leads.uncached hl hu) hok.2 hs

theorem resolve_keeps {d : Nat} (h : s.step (.resolve d) = some s') : s'.cache = s.cache ∧ s'.rows = s.rows := by
  obtain ⟨deletion, _, h⟩ := Option.bind_eq_some_iff.1 h
  simp only [ServiceState.stepDeletion] at h
  split at h <;> cases h
  exact ⟨rfl, rfl⟩

/-- After a deletion has resolved, no lookup that begins once the earlier ones are finished returns the webhook. -/
theorem deleted_not_found (h : LateLookup ServiceState.KeepsCache webhook i s) (hl : s.lookups[i]? = some lookup)
    (hfound : lookup.Found found) : ¬ found.Same webhook := by
  cases h with
  | @intro before resolved later begun s d deletion method path _ hdeletion hwebhook hok hresolve hgone hlater _ hbegin
      hrun =>
      obtain ⟨hcache, hrows⟩ := resolve_keeps hresolve
      have hno : ¬ before.Stores webhook := by
        rw [ServiceState.Stores, hrows] at hgone
        exact hgone
      have hresolved : resolved.Uncached webhook := by
        intro entry he hsame
        rw [hcache] at he
        exact hno (hok.2 deletion hdeletion webhook hwebhook entry he hsame)
      have hlater := Leads.uncached hlater hresolved
      cases hbegin
      refine Leads.unfound hrun hlater ?_ lookup found hl hfound
      intro lookup found hl hfound
      rw [List.getElem?_concat_length] at hl
      cases hl
      obtain ⟨_, hp⟩ := hfound
      exact LookupPhase.noConfusion hp

/-- The number of the late lookup and the last state, if each part of the run passes. -/
def lateRun (check : ServiceState → ServiceAction → Bool) (webhook : WebhookEntity) (path : CodeUnits)
    (s : ServiceState) (before between late : List ServiceAction) : Option (Nat × ServiceState) :=
  let unstored := fun (s : ServiceState) a => check s a && !s.Stores webhook
  (webhookService.run check s before).bind fun deleted =>
    deleted.deletions[0]?.bind fun deletion =>
      (webhookService.step deleted (.resolve 0)).bind fun resolved =>
        (webhookService.run unstored resolved between).bind fun later =>
          (webhookService.step later (.findWebhook webhook.method path)).bind fun begun =>
            (webhookService.run unstored begun late).bind fun last =>
              if webhook ∈ deletion.webhooks ∧ check deleted (.resolve 0) = true ∧ ¬ resolved.Stores webhook ∧
                  ∀ lookup ∈ later.lookups.take resolved.lookups.length, lookup.isFinished = true then
                some (later.lookups.length, last)
              else none

theorem late_of_run {check : ServiceState → ServiceAction → Bool} {ok : ServiceState → ServiceAction → Prop}
    {path : CodeUnits} {before between late : List ServiceAction} {last : ServiceState} (hinit : s.Initial)
    (hok : ∀ s a, check s a = true → ok s a)
    (h : lateRun check webhook path s before between late = some (i, last)) : LateLookup ok webhook i last := by
  obtain ⟨deleted, hbefore, h⟩ := Option.bind_eq_some_iff.1 h
  obtain ⟨deletion, hdeletion, h⟩ := Option.bind_eq_some_iff.1 h
  obtain ⟨resolved, hresolve, h⟩ := Option.bind_eq_some_iff.1 h
  obtain ⟨later, hbetween, h⟩ := Option.bind_eq_some_iff.1 h
  obtain ⟨begun, hbegin, h⟩ := Option.bind_eq_some_iff.1 h
  obtain ⟨last', hlate, h⟩ := Option.bind_eq_some_iff.1 h
  have hunstored : ∀ s a, (check s a && !s.Stores webhook) = true → ok s a ∧ ¬ s.Stores webhook := by
    intro s a h
    rw [Bool.and_eq_true] at h
    exact ⟨hok s a h.1, by simpa using h.2⟩
  split at h
  · next hc =>
    cases h
    exact .intro ⟨s, hinit, (TransitionSystem.run_leads hbefore).mono hok⟩ hdeletion hc.1 (hok _ _ hc.2.1) hresolve
      hc.2.2.1 ((TransitionSystem.run_leads hbetween).mono hunstored) hc.2.2.2 hbegin
      ((TransitionSystem.run_leads hlate).mono hunstored)
  · cases h

/-- The path `hook` of a workflow. -/
def hookOf (workflowId : String) : WebhookEntity :=
  createWebhook (ascii workflowId) (ascii "hook") .post (ascii "Webhook") none

def registered : ServiceState := ⟨[hookOf "1"], [], [], [], []⟩

/-- The deletion of the webhooks of workflow `1`, up to the last access before it resolves. -/
def deletionAccesses : List ServiceAction :=
  [.deleteWorkflowWebhooks (ascii "1"), .readRows 0, .dropKeys 0, .removeRows 0]

def ServiceState.returned (s : ServiceState) (i : Nat) (webhook : WebhookEntity) : Bool :=
  s.lookups[i]?.any fun lookup => lookup.phase = .returned (some webhook) none

theorem found_of_returned (h : s.returned i webhook = true) :
    ∃ lookup, s.lookups[i]? = some lookup ∧ lookup.Found webhook := by
  obtain ⟨lookup, hl, hp⟩ := (Option.any_eq_true _ _).1 h
  exact ⟨lookup, hl, none, of_decide_eq_true hp⟩

/-- A lookup reads the row before it is removed, and caches it afterwards. -/
theorem cached_after_removal : ∃ webhook i s lookup found, LateLookup TransitionSystem.Any webhook i s ∧
    s.lookups[i]? = some lookup ∧ lookup.Found found ∧ found.Same webhook := by
  have h : (lateRun (fun _ _ => true) (hookOf "1") (ascii "hook") registered
      ([.findWebhook .post (ascii "hook"), .readCache 0 false, .readStored 0] ++ deletionAccesses) [.cacheFound 0 false]
      [.readCache 1 false]).any (fun r => r.2.returned r.1 (hookOf "1")) = true := by decide +kernel
  obtain ⟨⟨i, s⟩, hrun, hreturned⟩ := (Option.any_eq_true _ _).1 h
  obtain ⟨lookup, hl, hfound⟩ := found_of_returned hreturned
  exact ⟨hookOf "1", i, s, lookup, hookOf "1", late_of_run ⟨rfl, rfl, rfl, rfl⟩ (fun _ _ _ => trivial) hrun, hl, hfound,
    rfl, rfl, rfl⟩

/-- Workflow `2` takes the path once it is free, and the late lookup finds its webhook. -/
theorem deleted_not_found_taken : ∃ webhook i s lookup found, LateLookup ServiceState.KeepsCache webhook i s ∧
    s.lookups[i]? = some lookup ∧ lookup.Found found ∧ ¬ found.Same webhook := by
  have h : (lateRun (fun s a => s.KeepsCache a) (hookOf "1") (ascii "hook") registered
      ([.findWebhook .post (ascii "hook"), .readCache 0 false, .readStored 0, .cacheFound 0 false] ++ deletionAccesses)
      [.storeWebhook (hookOf "2"), .insert 0 false, .cacheStored 0 false]
      [.readCache 1 false]).any (fun r => r.2.returned r.1 (hookOf "2")) = true := by decide +kernel
  obtain ⟨⟨i, s⟩, hrun, hreturned⟩ := (Option.any_eq_true _ _).1 h
  obtain ⟨lookup, hl, hfound⟩ := found_of_returned hreturned
  have hlate := late_of_run ⟨rfl, rfl, rfl, rfl⟩ (fun _ _ => of_decide_eq_true) hrun
  exact ⟨hookOf "1", i, s, lookup, hookOf "2", hlate, hl, hfound, deleted_not_found hlate hl hfound⟩

end N8n.Webhooks
