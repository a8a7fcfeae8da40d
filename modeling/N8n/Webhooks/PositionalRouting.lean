import N8n.Webhooks.Routing

namespace N8n.Webhooks

open N8n.Lib

variable {webhook other : WebhookEntity} {rows : List WebhookEntity} {cache : WebhookCache} {method : Method}
  {path : CodeUnits}

theorem Method.hyphen_notMem (m : Method) : hyphen ∉ m.text := by cases m <;> decide

theorem Method.text_inj {m m' : Method} (h : m.text = m'.text) : m = m' := by
  cases m <;> cases m' <;> first | rfl | exact absurd h (by decide)

theorem cacheKeyOf_inj {m m' : Method} {p p' : CodeUnits} (h : cacheKeyOf m p = cacheKeyOf m' p') :
    m = m' ∧ p = p' := by
  rw [cacheKeyOf, cacheKeyOf, List.append_assoc, List.append_assoc] at h
  have h := List.append_cancel_left h
  -- The method ends at the first hyphen.
  have hsplit := congrArg (List.splitOn hyphen) h
  rw [List.splitOn_append_cons_self_of_not_mem m.hyphen_notMem,
    List.splitOn_append_cons_self_of_not_mem m'.hyphen_notMem] at hsplit
  obtain rfl := Method.text_inj (List.cons.inj hsplit).1
  exact ⟨rfl, (List.cons.inj (List.append_cancel_left h)).2⟩

theorem isDynamic_of_path (h : isDynamicWebhookPath webhook.webhookPath = true) : webhook.isDynamic = true := by
  have hfirst : ∀ rest, ∃ segment ∈ segments (colon :: rest), isParameter segment = true := by
    intro rest
    rw [segments, List.splitOn_cons_eq_if_modifyHead, if_neg (by decide)]
    cases hs : rest.splitOn slash with
    | nil => exact absurd hs (List.splitOn_ne_nil _ _)
    | cons first others => exact ⟨colon :: first, List.mem_cons_self, rfl⟩
  rw [WebhookEntity.isDynamic, List.any_eq_true]
  rw [isDynamicWebhookPath, Bool.or_eq_true, decide_eq_true_iff, beq_iff_eq] at h
  rcases h with h | ⟨before, after, h⟩
  · obtain ⟨rest, hrest⟩ := List.head?_eq_some_iff.1 h
    rw [hrest]
    exact hfirst rest
  · obtain ⟨segment, hm, hp⟩ := hfirst after
    refine ⟨segment, ?_, hp⟩
    have hsplit : segments webhook.webhookPath = segments before ++ segments (colon :: after) := by
      rw [← h, List.append_assoc]
      exact List.splitOn_append_cons_self _ _
    rw [hsplit]
    exact List.mem_append_right _ hm

theorem MatchesTemplate.static_mem {template request : List CodeUnits} (h : MatchesTemplate template request) :
    ∀ segment ∈ template, isParameter segment = false → segment ∈ request := by
  induction h with
  | nil => exact fun _ hs _ => absurd hs List.not_mem_nil
  | cons h _ ih =>
    intro segment hs hp
    rcases List.mem_cons.1 hs with rfl | hs
    · rcases h with h | rfl
      · exact absurd h (by simp [hp])
      · exact List.mem_cons_self
    · exact List.mem_cons_of_mem _ (ih segment hs hp)

theorem MatchesTemplate.static_le {template request : List CodeUnits} (h : MatchesTemplate template request) :
    (template.filter fun s => !isParameter s).length ≤ (request.filter fun s => !isParameter s).length := by
  induction h with
  | nil => exact le_rfl
  | @cons segment requested _ _ h _ ih =>
    cases hp : isParameter segment with
    | true =>
      rw [List.filter_cons_of_neg (by simp [hp])]
      exact ih.trans ((List.sublist_cons_self _ _).filter _).length_le
    | false =>
      rcases h with h | rfl
      · exact absurd h (by simp [hp])
      · rw [List.filter_cons_of_pos (by simp [hp]), List.filter_cons_of_pos (by simp [hp])]
        exact Nat.succ_le_succ ih

theorem MatchesTemplate.refl (template : List CodeUnits) : MatchesTemplate template template :=
  List.forall₂_same.2 fun _ _ => .inr rfl

theorem webhookId_isSome (h : webhook.webhookId = (segments path).head?) : webhook.webhookId.isSome = true := by
  rw [h, List.isSome_head?]
  exact List.splitOn_ne_nil _ _

theorem isCandidate_iff : isCandidate method path webhook = true ↔
    webhook.method = method ∧ webhook.webhookId = (segments path).head? ∧
      (segments webhook.webhookPath).length = (segments path).tail.length := by
  rw [isCandidate, Bool.and_eq_true, Bool.and_eq_true, decide_eq_true_iff, decide_eq_true_iff, decide_eq_true_iff]
  constructor
  · rintro ⟨⟨hid, hm⟩, hlen⟩
    rw [webhook.length_eq (webhookId_isSome hid)] at hlen
    exact ⟨hm, hid, Option.some_inj.1 hlen⟩
  · rintro ⟨hm, hid, hlen⟩
    exact ⟨⟨hid, hm⟩, by rw [webhook.length_eq (webhookId_isSome hid), hlen]⟩

theorem fits_iff : webhook.Fits method path ↔
    isCandidate method path webhook = true ∧ MatchesTemplate (segments webhook.webhookPath) (segments path).tail := by
  rw [isCandidate_iff]
  constructor
  · rintro ⟨_, hm, hid, ht⟩
    exact ⟨⟨hm, hid, ht.length_eq⟩, ht⟩
  · rintro ⟨⟨hm, hid, _⟩, ht⟩
    exact ⟨isDynamic_of_path (webhook.dynamic (webhookId_isSome hid)), hm, hid, ht⟩

theorem MatchesTemplate.allStaticSegmentsMatch {request : List CodeUnits}
    (h : MatchesTemplate (segments webhook.webhookPath) request) : allStaticSegmentsMatch request webhook = true := by
  rw [Webhooks.allStaticSegmentsMatch, List.all_eq_true]
  intro segment hs
  obtain ⟨hm, hp⟩ := List.mem_filter.1 hs
  rw [List.contains_iff_mem]
  exact h.static_mem segment hm (by simpa using hp)

def Best.of (webhook : Option WebhookEntity) : Best := ⟨webhook, (webhook.map (·.staticSegments.length)).getD 0⟩

theorem Best.consider_of (request : List CodeUnits) (best : Option WebhookEntity) (webhook : WebhookEntity) :
    Best.consider request (.of best) webhook = if allStaticSegmentsMatch request webhook = true then
      .of (List.argAux (fun b c => c.staticSegments.length < b.staticSegments.length) best webhook) else .of best := by
  cases hm : allStaticSegmentsMatch request webhook with
  | true =>
    cases best with
    | none =>
      rcases Nat.eq_zero_or_pos webhook.staticSegments.length with hz | hz
      · simp [Best.consider, Best.of, List.argAux, hz]
      · simp [Best.consider, Best.of, List.argAux, hm, hz]
    | some best =>
      by_cases hlt : best.staticSegments.length < webhook.staticSegments.length
      · simp [Best.consider, Best.of, List.argAux, hm, hlt]
      · simp [Best.consider, Best.of, List.argAux, hlt]
  | false =>
    -- Without static segments there is nothing that could fail to match.
    have hne : webhook.staticSegments.length ≠ 0 := by
      intro hz
      rw [allStaticSegmentsMatch, List.length_eq_zero_iff.1 hz] at hm
      exact Bool.noConfusion hm
    simp [Best.consider, hm, hne]

theorem Best.foldl_consider (request : List CodeUnits) (candidates : List WebhookEntity) (best : Option WebhookEntity) :
    candidates.foldl (Best.consider request) (.of best) =
      .of ((candidates.filter (allStaticSegmentsMatch request)).foldl
        (List.argAux fun b c => c.staticSegments.length < b.staticSegments.length) best) := by
  induction candidates generalizing best with
  | nil => rfl
  | cons webhook rest ih =>
    rw [List.foldl_cons, Best.consider_of]
    cases hm : allStaticSegmentsMatch request webhook with
    | true => rw [if_pos rfl, ih, List.filter_cons_of_pos hm, List.foldl_cons]
    | false => rw [if_neg Bool.false_ne_true, ih, List.filter_cons_of_neg (by simp [hm])]

theorem pickMatchingTemplate_eq (candidates : List WebhookEntity) (request : List CodeUnits) :
    pickMatchingTemplate candidates request =
      (candidates.filter (allStaticSegmentsMatch request)).argmax (·.staticSegments.length) :=
  congrArg Best.webhook (Best.foldl_consider request candidates none)

def MostStatic (rows : List WebhookEntity) (method : Method) (path : CodeUnits) (webhook : WebhookEntity) : Prop :=
  webhook ∈ (rows.filter (isCandidate method path)).filter (allStaticSegmentsMatch (segments path).tail) ∧
    ∀ other ∈ (rows.filter (isCandidate method path)).filter (allStaticSegmentsMatch (segments path).tail),
      other.staticSegments.length ≤ webhook.staticSegments.length

theorem mem_matching : webhook ∈ (rows.filter (isCandidate method path)).filter
    (allStaticSegmentsMatch (segments path).tail) ↔ webhook ∈ rows ∧ isCandidate method path webhook = true ∧
      allStaticSegmentsMatch (segments path).tail webhook = true := by
  rw [List.mem_filter, List.mem_filter, and_assoc]

theorem WebhookEntity.Fits.mem_matching (h : webhook.Fits method path) (hm : webhook ∈ rows) :
    webhook ∈ (rows.filter (isCandidate method path)).filter (allStaticSegmentsMatch (segments path).tail) := by
  obtain ⟨hc, ht⟩ := fits_iff.1 h
  exact Webhooks.mem_matching.2 ⟨hm, hc, ht.allStaticSegmentsMatch⟩

theorem mostStatic_of_found (h : findDynamicWebhook rows method path = some webhook) :
    MostStatic rows method path webhook := by
  rw [findDynamicWebhook, pickMatchingTemplate_eq] at h
  obtain ⟨hm, hmax, _⟩ := List.mem_argmax_iff.1 (Option.mem_def.2 h)
  exact ⟨hm, hmax⟩

theorem found_first (h : MostStatic rows method path webhook) :
    findDynamicWebhook (webhook :: rows.erase webhook) method path = some webhook := by
  obtain ⟨hm, hmax⟩ := h
  obtain ⟨_, hc, ha⟩ := mem_matching.1 hm
  rw [findDynamicWebhook, pickMatchingTemplate_eq, List.filter_cons_of_pos hc, List.filter_cons_of_pos ha,
    List.argmax_cons]
  cases hrest : List.argmax (·.staticSegments.length) (((rows.erase webhook).filter (isCandidate method path)).filter
      (allStaticSegmentsMatch (segments path).tail)) with
  | none => rfl
  | some other =>
    obtain ⟨ho, hoc, hoa⟩ := mem_matching.1 (List.argmax_mem hrest)
    have hle := hmax other (mem_matching.2 ⟨List.mem_of_mem_erase ho, hoc, hoa⟩)
    exact if_neg (Nat.not_lt.2 hle)

theorem WebhookCache.cached_at (h : cache.get (cacheKeyOf method path) = some webhook) :
    webhook.method = method ∧ (webhook.webhookPath = path ∨ webhook.uniquePath = path) := by
  obtain ⟨entry, hf, rfl⟩ := Option.map_eq_some_iff.1 h
  have hkey : entry.key = cacheKeyOf method path := of_decide_eq_true (List.find?_some hf :)
  rcases entry.own_key with hk | hk
  · obtain ⟨hm, hp⟩ := cacheKeyOf_inj (hkey.symm.trans hk)
    exact ⟨hm.symm, .inl hp.symm⟩
  · obtain ⟨hm, hp⟩ := cacheKeyOf_inj (hkey.symm.trans hk)
    exact ⟨hm.symm, .inr hp.symm⟩

theorem segments_uniquePath (hu : webhook.uniquePath = path) (hne : webhook.webhookPath ≠ path)
    (hid : webhook.webhookId = (segments path).head?) : (segments path).tail = segments webhook.webhookPath := by
  have hpath : path = webhook.webhookId.getD [] ++ slash :: webhook.webhookPath := by
    rw [WebhookEntity.uniquePath] at hu
    split at hu
    · exact hu.symm
    · exact absurd hu hne
  have hsplit : segments path = segments (webhook.webhookId.getD []) ++ segments webhook.webhookPath := by
    rw [hpath]
    exact List.splitOn_append_cons_self _ _
  obtain ⟨first, others, hsegments⟩ :=
    List.exists_cons_of_ne_nil (List.splitOn_ne_nil slash (webhook.webhookId.getD []))
  have hhead : webhook.webhookId = some first := by
    rw [hid, hsplit, segments, hsegments]
    rfl
  -- The first segment has no slash in it, so it is the whole webhook id.
  have hothers : others = [] := by
    rw [hhead, Option.getD_some] at hsegments
    have hjoin : [slash].intercalate (first.splitOn slash) = first := List.intercalate_splitOn slash
    rw [hsegments] at hjoin
    cases others with
    | nil => rfl
    | cons second others =>
      have hlength := congrArg List.length hjoin
      simp [List.intercalate_cons_cons] at hlength
  rw [hsplit, segments, hsegments, hothers]
  rfl

theorem cached_best (hm : webhook.method = method) (hu : webhook.uniquePath = path) (hne : webhook.webhookPath ≠ path)
    (hid : webhook.webhookId = (segments path).head?) : webhook.Fits method path ∧
      ∀ other : WebhookEntity, other.Fits method path →
        other.staticSegments.length ≤ webhook.staticSegments.length := by
  have htail := segments_uniquePath hu hne hid
  constructor
  · refine ⟨isDynamic_of_path (webhook.dynamic (webhookId_isSome hid)), hm, hid, ?_⟩
    rw [htail]
    exact .refl _
  · rintro other ⟨_, _, _, ht⟩
    rw [htail] at ht
    exact ht.static_le

def PositionalWhen (cache : WebhookCache) (rows : List WebhookEntity) (method : Method) (path : CodeUnits) : Prop :=
  match cache.get (cacheKeyOf method path) with
  | some webhook => webhook ∈ rows ∧ (webhook.webhookPath = path ∨
      (∀ other ∈ rows, ¬ other.StoredAt method path) ∧ webhook.webhookId = (segments path).head?)
  | none => (∀ webhook ∈ rows, ¬ webhook.StoredAt method path) → ∀ webhook, MostStatic rows method path webhook →
      MatchesTemplate (segments webhook.webhookPath) (segments path).tail

theorem findStaticWebhookInDb_eq_none (h : ∀ webhook ∈ rows, ¬ webhook.StoredAt method path) :
    findStaticWebhookInDb rows method path = none := by
  rw [findStaticWebhookInDb, List.find?_eq_none]
  intro webhook hm hd
  obtain ⟨hp, hmethod⟩ := of_decide_eq_true hd
  exact h webhook hm ⟨hmethod, hp⟩

theorem findStaticWebhookInDb_eq_some (h : findStaticWebhookInDb rows method path = some webhook) :
    webhook ∈ rows ∧ webhook.StoredAt method path := by
  have hd := List.find?_some h
  obtain ⟨hp, hm⟩ := of_decide_eq_true hd
  exact ⟨List.mem_of_find?_eq_some h, hm, hp⟩

theorem exists_found (h : webhook ∈ rows) (hs : webhook.StoredAt method path) :
    ∃ found, findStaticWebhookInDb rows method path = some found := by
  rw [← Option.isSome_iff_exists, findStaticWebhookInDb, List.find?_isSome]
  exact ⟨webhook, h, decide_eq_true ⟨hs.2, hs.1⟩⟩

theorem Routes.of_stored (h : webhook ∈ rows) (hs : webhook.StoredAt method path) :
    Routes rows method path (some webhook) :=
  ⟨fun _ => ⟨webhook, h, rfl, hs⟩, fun hno => absurd hs (hno webhook h)⟩

theorem Routes.of_cached (hc : cache.get (cacheKeyOf method path) = some webhook) (hm : webhook ∈ rows)
    (h : webhook.webhookPath = path ∨
      (∀ other ∈ rows, ¬ other.StoredAt method path) ∧ webhook.webhookId = (segments path).head?) :
    Routes rows method path (some webhook) := by
  obtain ⟨hmethod, hpath⟩ := WebhookCache.cached_at hc
  by_cases hp : webhook.webhookPath = path
  · exact .of_stored hm ⟨hmethod, hp⟩
  · obtain ⟨hno, hid⟩ := h.resolve_left hp
    obtain ⟨hfits, hbest⟩ := cached_best hmethod (hpath.resolve_left hp) hp hid
    refine ⟨?_, fun _ => ⟨hm, hfits, fun other _ => hbest other⟩⟩
    rintro ⟨other, ho, hs⟩
    exact absurd hs (hno other ho)

theorem Routes.of_dynamic (hno : ∀ webhook ∈ rows, ¬ webhook.StoredAt method path)
    (h : ∀ webhook, MostStatic rows method path webhook →
      MatchesTemplate (segments webhook.webhookPath) (segments path).tail) :
    Routes rows method path (findDynamicWebhook rows method path) := by
  refine ⟨fun ⟨webhook, hm, hs⟩ => absurd hs (hno webhook hm), fun _ => ?_⟩
  cases hf : findDynamicWebhook rows method path with
  | none =>
    rw [findDynamicWebhook, pickMatchingTemplate_eq, List.argmax_eq_none] at hf
    intro webhook hm hfits
    have hmem := hfits.mem_matching hm
    rw [hf] at hmem
    exact absurd hmem List.not_mem_nil
  | some webhook =>
    have hbest := mostStatic_of_found hf
    obtain ⟨hm, hc, _⟩ := mem_matching.1 hbest.1
    exact ⟨hm, fits_iff.2 ⟨hc, h webhook hbest⟩, fun other ho hfits => hbest.2 other (hfits.mem_matching ho)⟩

theorem PositionalWhen.routes (h : PositionalWhen cache rows method path) :
    Routes rows method path (findWebhook cache rows method path) := by
  rw [PositionalWhen] at h
  rw [findWebhook]
  cases hc : cache.get (cacheKeyOf method path) with
  | some webhook =>
    rw [hc] at h
    exact .of_cached hc h.1 h.2
  | none =>
    rw [hc] at h
    cases hs : findStaticWebhookInDb rows method path with
    | some webhook =>
      obtain ⟨hm, hat⟩ := findStaticWebhookInDb_eq_some hs
      exact .of_stored hm hat
    | none =>
      have hno : ∀ webhook ∈ rows, ¬ webhook.StoredAt method path := by
        intro webhook hm hat
        obtain ⟨found, hfound⟩ := exists_found hm hat
        exact Option.some_ne_none found (hfound.symm.trans hs)
      exact .of_dynamic hno (h hno)

theorem PositionalWhen.perm {rows' : List WebhookEntity} (hp : rows'.Perm rows)
    (h : PositionalWhen cache rows method path) : PositionalWhen cache rows' method path := by
  simpa only [PositionalWhen, MostStatic, mem_matching, hp.mem_iff] using h

theorem Routes.perm {rows' : List WebhookEntity} {found : Option WebhookEntity} (hp : rows'.Perm rows)
    (h : Routes rows' method path found) : Routes rows method path found := by
  simpa only [Routes, hp.mem_iff] using h

/-- The request finds the right webhook, in whatever order the rows come, exactly under that condition. -/
theorem findWebhook_routes_iff (cache : WebhookCache) (rows : List WebhookEntity) (method : Method) (path : CodeUnits) :
    (∀ rows' : List WebhookEntity, rows'.Perm rows → Routes rows method path (findWebhook cache rows' method path)) ↔
      PositionalWhen cache rows method path := by
  constructor
  · intro h
    rw [PositionalWhen]
    cases hc : cache.get (cacheKeyOf method path) with
    | some webhook =>
      have hr := h rows (.refl _)
      rw [findWebhook, hc] at hr
      by_cases hs : ∃ other ∈ rows, other.StoredAt method path
      · obtain ⟨found, hm, hf, hat⟩ := hr.1 hs
        cases hf
        exact ⟨hm, .inl hat.2⟩
      · have hno : ∀ other ∈ rows, ¬ other.StoredAt method path := fun other ho hat => hs ⟨other, ho, hat⟩
        obtain ⟨hm, hfits, _⟩ := hr.2 hno
        exact ⟨hm, .inr ⟨hno, hfits.2.2.1⟩⟩
    | none =>
      intro hno webhook hbest
      -- The database may return this one first.
      have hm := (mem_matching.1 hbest.1).1
      have hperm := (List.perm_cons_erase hm).symm
      have hr := h (webhook :: rows.erase webhook) hperm
      have hno' : ∀ other ∈ webhook :: rows.erase webhook, ¬ other.StoredAt method path := fun other ho =>
        hno other (hperm.mem_iff.1 ho)
      rw [findWebhook, hc, findStaticWebhookInDb_eq_none hno'] at hr
      simp only [found_first hbest] at hr
      exact (fits_iff.1 (hr.2 hno).2.1).2
  · intro h rows' hp
    exact (h.perm hp).routes.perm hp

/-- One template `user/:id/posts`, of `W`. -/
def postsOfUser : WebhookEntity := createWebhook (ascii "1") (ascii "user/:id/posts") .get (ascii "Webhook") (ascii "W")

/-- The segments of `W/posts/1/user` are those of the template in another order. -/
theorem permuted_segments_found : ¬ Routes [postsOfUser] .get (ascii "W/posts/1/user")
    (findWebhook [] [postsOfUser] .get (ascii "W/posts/1/user")) := by
  intro h
  have hfound : findWebhook [] [postsOfUser] .get (ascii "W/posts/1/user") = some postsOfUser := by
    decide +kernel
  have hno : ∀ webhook ∈ [postsOfUser], ¬ webhook.StoredAt .get (ascii "W/posts/1/user") := by
    intro webhook hm hs
    rw [List.mem_singleton.1 hm] at hs
    exact absurd hs.2 (by decide +kernel)
  have hr := h.2 hno
  rw [hfound] at hr
  have ht := hr.2.1.2.2.2
  have hsegments : segments postsOfUser.webhookPath = [ascii "user", ascii ":id", ascii "posts"] := by decide +kernel
  have htail : (segments (ascii "W/posts/1/user")).tail = [ascii "posts", ascii "1", ascii "user"] := by decide +kernel
  rw [hsegments, htail] at ht
  cases ht with
  | cons hfirst _ => exact absurd hfirst (by decide +kernel)

end N8n.Webhooks
