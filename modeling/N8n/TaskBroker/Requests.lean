import N8n.TaskBroker.Effects
import Mathlib.Data.List.Nodup

namespace N8n.TaskBroker

/-- What a call of `acceptOffer` has come to: it waits for the runner, it has dropped its request, or it has taken the
request off the list for its task. -/
inductive Stage where
  | offered
  | dropped
  | taken
  deriving DecidableEq

def Phase.stage : Phase → Stage
  | .offering _ => .offered
  | .awaitingRunner => .offered
  | .releasing _ => .dropped
  | .dropped => .dropped
  | _ => .taken

structure Call where
  ref : Nat
  requestId : String
  stage : Stage
  deriving DecidableEq

def Acceptance.call (a : Acceptance) : Call := ⟨a.request.ref, a.request.requestId, a.phase.stage⟩

def Message.answers (requestId : String) : Message → Bool
  | .requester _ (.requestexpired id _) => id = requestId
  | .requester _ (.taskready id _) => id = requestId
  | _ => false

structure Ledger (pending : List TaskRequest) (calls : List Call) (messages : List Message) (ids : List String) :
    Prop where
  distinct : ids.Nodup
  once : (pending.map TaskRequest.requestId).Nodup
  named : ∀ r ∈ pending, ids[r.ref]? = some r.requestId
  called : ∀ (n : Nat) (c : Call), calls[n]? = some c → ids[c.ref]? = some c.requestId
  in_progress : ∀ (n : Nat) (c : Call), calls[n]? = some c → c.stage = .offered →
    ∀ r ∈ pending, r.ref = c.ref → r.acceptInProgress = true
  has_call : ∀ r ∈ pending, r.acceptInProgress = true →
    ∃ (n : Nat) (c : Call), calls[n]? = some c ∧ c.stage = .offered ∧ c.ref = r.ref
  alone : ∀ (n m : Nat) (c d : Call), calls[n]? = some c → calls[m]? = some d → c.stage = .offered →
    d.stage = .offered → c.ref = d.ref → n = m
  silent : ∀ r ∈ pending, ∀ m ∈ messages, m.answers r.requestId = false
  unknown : ∀ id, id ∉ ids → ∀ m ∈ messages, m.answers id = false
  taken : ∀ (n : Nat) (c : Call), calls[n]? = some c → c.stage = .taken →
    (∀ r ∈ pending, r.requestId ≠ c.requestId) ∧
    (∃ who, .requester who (.taskready c.requestId n) ∈ messages) ∧
    ∀ m ∈ messages, m.answers c.requestId = true → ∃ who, m = .requester who (.taskready c.requestId n)
  answered : ∀ id, (messages.filter (Message.answers id)).length ≤ 1
  covered : ∀ id ∈ ids, (∃ r ∈ pending, r.requestId = id) ∨
    (∃ (n : Nat) (c : Call), calls[n]? = some c ∧ c.stage = .taken ∧ c.requestId = id) ∨
    ∃ who reason, .requester who (.requestexpired id reason) ∈ messages

variable {pending : List TaskRequest} {calls : List Call} {messages : List Message} {ids : List String}
  {r r₀ : TaskRequest} {m₀ : Message}

theorem ref_lt {i : Nat} {id : String} (h : ids[i]? = some id) : i < ids.length := (List.getElem?_eq_some_iff.1 h).1

theorem Ledger.ref_inj (h : Ledger pending calls messages ids) {r' : TaskRequest} (hr : r ∈ pending)
    (hr' : r' ∈ pending) (href : r.ref = r'.ref) : r = r' := by
  have hid : some r.requestId = some r'.requestId := (h.named r hr).symm.trans (href ▸ h.named r' hr')
  exact List.inj_on_of_nodup_map h.once hr hr' (Option.some.inj hid)

theorem Ledger.ref_of_id (h : Ledger pending calls messages ids) {i j : Nat} {id : String} (hi : ids[i]? = some id)
    (hj : ids[j]? = some id) : i = j :=
  (List.getElem?_inj (ref_lt hi) h.distinct).1 (hi.trans hj.symm)

theorem Ledger.others (h : Ledger pending calls messages ids) {more : List Message}
    (hmore : ∀ m ∈ more, ∀ id, m.answers id = false) : Ledger pending calls (messages ++ more) ids := by
  have hmem : ∀ {m id}, m ∈ messages ++ more → m.answers id = true → m ∈ messages := fun {m id} hm ha => by
    rcases List.mem_append.1 hm with hm | hm
    · exact hm
    · exact absurd ((hmore m hm id).symm.trans ha) Bool.false_ne_true
  refine { h with silent := fun r hr m hm => ?_, unknown := fun id hid m hm => ?_, taken := fun n c hc hs => ?_,
                  answered := fun id => ?_, covered := fun id hid => ?_ }
  · exact Bool.eq_false_iff.2 fun ha => Bool.eq_false_iff.1 (h.silent r hr m (hmem hm ha)) ha
  · exact Bool.eq_false_iff.2 fun ha => Bool.eq_false_iff.1 (h.unknown id hid m (hmem hm ha)) ha
  · obtain ⟨hp, ⟨who, hready⟩, honly⟩ := h.taken n c hc hs
    exact ⟨hp, ⟨who, List.mem_append_left _ hready⟩, fun m hm ha => honly m (hmem hm ha) ha⟩
  · have hnil : more.filter (Message.answers id) = [] :=
      List.filter_eq_nil_iff.2 fun m hm => Bool.eq_false_iff.1 (hmore m hm id)
    rw [List.filter_append, hnil, List.append_nil]
    exact h.answered id
  · rcases h.covered id hid with hp | ht | ⟨who, reason, hm⟩
    · exact .inl hp
    · exact .inr (.inl ht)
    · exact .inr (.inr ⟨who, reason, List.mem_append_left _ hm⟩)

theorem Ledger.touched (h : Ledger pending calls messages ids) {f : TaskRequest → TaskRequest}
    (hf : ∀ r, (f r).ref = r.ref ∧ (f r).requestId = r.requestId ∧ (f r).acceptInProgress = r.acceptInProgress) :
    Ledger (pending.map f) calls messages ids := by
  have hids : (pending.map f).map TaskRequest.requestId = pending.map TaskRequest.requestId := by
    rw [List.map_map]
    exact List.map_congr_left fun r _ => (hf r).2.1
  refine { h with once := hids ▸ h.once, named := List.forall_mem_map.2 fun r hr => ?_,
                  in_progress := fun n c hc hs => List.forall_mem_map.2 fun r hr href => ?_,
                  has_call := List.forall_mem_map.2 fun r hr hflag => ?_,
                  silent := List.forall_mem_map.2 fun r hr m hm => ?_, taken := fun n c hc hs => ?_,
                  covered := fun id hid => ?_ }
  · rw [(hf r).1, (hf r).2.1]
    exact h.named r hr
  · rw [(hf r).2.2]
    exact h.in_progress n c hc hs r hr ((hf r).1.symm.trans href)
  · rw [(hf r).1]
    exact h.has_call r hr ((hf r).2.2.symm.trans hflag)
  · rw [(hf r).2.1]
    exact h.silent r hr m hm
  · obtain ⟨hp, hready⟩ := h.taken n c hc hs
    refine ⟨List.forall_mem_map.2 fun r hr => ?_, hready⟩
    rw [(hf r).2.1]
    exact hp r hr
  · rcases h.covered id hid with ⟨r, hr, hrid⟩ | hrest
    · exact .inl ⟨f r, List.mem_map_of_mem hr, (hf r).2.1.trans hrid⟩
    · exact .inr hrest

def back (ref : Nat) (r : TaskRequest) : TaskRequest := if r.ref = ref then { r with acceptInProgress := false } else r

theorem back_keeps (ref : Nat) (r : TaskRequest) : (back ref r).ref = r.ref ∧ (back ref r).requestId = r.requestId := by
  rw [back]
  split_ifs <;> exact ⟨rfl, rfl⟩

theorem Ledger.drop (h : Ledger pending calls messages ids) {n : Nat} {c : Call} (hc : calls[n]? = some c)
    (hs : c.stage = .offered) :
    Ledger (pending.map (back c.ref)) (calls.set n { c with stage := .dropped }) messages ids := by
  have hset : ∀ {m : Nat} {d : Call}, (calls.set n { c with stage := .dropped })[m]? = some d → d.stage ≠ .dropped →
      m ≠ n ∧ calls[m]? = some d := fun {m d} hd hne => by
    rcases getElem?_set_some hd with ⟨-, rfl⟩ | hd
    · exact absurd rfl hne
    · exact hd
  have hids : (pending.map (back c.ref)).map TaskRequest.requestId = pending.map TaskRequest.requestId := by
    rw [List.map_map]
    exact List.map_congr_left fun r _ => (back_keeps c.ref r).2
  refine { h with once := hids ▸ h.once, named := List.forall_mem_map.2 fun r hr => ?_, called := fun m d hd => ?_,
                  in_progress := fun m d hd hds => List.forall_mem_map.2 fun r hr href => ?_,
                  has_call := List.forall_mem_map.2 fun r hr hflag => ?_,
                  alone := fun m k d e hd he hds hes href => ?_,
                  silent := List.forall_mem_map.2 fun r hr m hm => ?_, taken := fun m d hd hds => ?_,
                  covered := fun id hid => ?_ }
  · rw [(back_keeps c.ref r).1, (back_keeps c.ref r).2]
    exact h.named r hr
  · rcases getElem?_set_some hd with ⟨-, rfl⟩ | ⟨-, hd⟩
    · exact h.called n c hc
    · exact h.called m d hd
  · obtain ⟨hm, hd⟩ := hset hd (by rw [hds]; exact Stage.noConfusion)
    rw [(back_keeps c.ref r).1] at href
    have hne : r.ref ≠ c.ref := fun hrc => hm (h.alone m n d c hd hc hds hs (href.symm.trans hrc))
    rw [back, if_neg hne]
    exact h.in_progress m d hd hds r hr href
  · by_cases hrc : r.ref = c.ref
    · rw [back, if_pos hrc] at hflag
      exact nomatch hflag
    · rw [back, if_neg hrc] at hflag ⊢
      obtain ⟨m, d, hd, hds, href⟩ := h.has_call r hr hflag
      have hm : n ≠ m := by
        rintro rfl
        rw [hc, Option.some.injEq] at hd
        exact hrc (href.symm.trans (hd ▸ rfl))
      exact ⟨m, d, (List.getElem?_set_ne hm).trans hd, hds, href⟩
  · exact h.alone m k d e (hset hd (by rw [hds]; exact Stage.noConfusion)).2
      (hset he (by rw [hes]; exact Stage.noConfusion)).2 hds hes href
  · rw [(back_keeps c.ref r).2]
    exact h.silent r hr m hm
  · obtain ⟨hp, hready⟩ := h.taken m d (hset hd (by rw [hds]; exact Stage.noConfusion)).2 hds
    refine ⟨List.forall_mem_map.2 fun r hr => ?_, hready⟩
    rw [(back_keeps c.ref r).2]
    exact hp r hr
  · rcases h.covered id hid with ⟨r, hr, hrid⟩ | ⟨m, d, hd, hds, hdid⟩ | hexp
    · exact .inl ⟨back c.ref r, List.mem_map_of_mem hr, (back_keeps c.ref r).2.trans hrid⟩
    · have hm : n ≠ m := by
        rintro rfl
        rw [hc, Option.some.injEq] at hd
        exact Stage.noConfusion (hs.symm.trans (hd ▸ hds))
      exact .inr (.inl ⟨m, d, (List.getElem?_set_ne hm).trans hd, hds, hdid⟩)
    · exact .inr (.inr hexp)

theorem eraseP_eq_filter {α β : Type} [DecidableEq β] {f : α → β} {l : List α} (h : (l.map f).Nodup) (b : β) :
    l.eraseP (fun a => f a = b) = l.filter fun a => f a ≠ b := by
  induction l with
  | nil => rfl
  | cons a l ih =>
    rw [List.map_cons, List.nodup_cons] at h
    by_cases ha : f a = b
    · have hrest : l.filter (fun a => f a ≠ b) = l := by
        refine List.filter_eq_self.2 fun x hx => ?_
        exact decide_eq_true fun hxb => h.1 (ha.trans hxb.symm ▸ List.mem_map_of_mem hx)
      rw [List.eraseP_cons_of_pos (by simpa using ha), List.filter_cons_of_neg (by simpa using ha), hrest]
    · rw [List.eraseP_cons_of_neg (by simpa using ha), List.filter_cons_of_pos (by simpa using ha), ih h.2]

def without (requestId : String) (pending : List TaskRequest) : List TaskRequest :=
  pending.eraseP fun r => r.requestId = requestId

theorem Ledger.mem_without (h : Ledger pending calls messages ids) {requestId : String} :
    r ∈ without requestId pending ↔ r ∈ pending ∧ r.requestId ≠ requestId := by
  rw [without, eraseP_eq_filter h.once, List.mem_filter, decide_eq_true_eq]

theorem Ledger.once_without (h : Ledger pending calls messages ids) (requestId : String) :
    ((without requestId pending).map TaskRequest.requestId).Nodup :=
  h.once.sublist (List.eraseP_sublist.map _)

theorem Ledger.answered_append (h : Ledger pending calls messages ids) (hr₀ : r₀ ∈ pending)
    (hm₀ : ∀ id, m₀.answers id = decide (r₀.requestId = id)) (id : String) :
    ((messages ++ [m₀]).filter (Message.answers id)).length ≤ 1 := by
  rw [List.filter_append]
  by_cases hid : r₀.requestId = id
  · have hnil : messages.filter (Message.answers id) = [] :=
      List.filter_eq_nil_iff.2 fun m hm => Bool.eq_false_iff.1 (hid ▸ h.silent r₀ hr₀ m hm)
    rw [hnil, List.nil_append]
    exact List.length_filter_le _ _
  · have hnew : [m₀].filter (Message.answers id) = [] := by
      rw [List.filter_cons_of_neg (by rw [hm₀]; simpa using hid), List.filter_nil]
    rw [hnew, List.append_nil]
    exact h.answered id

theorem Ledger.silent_without (h : Ledger pending calls messages ids)
    (hm₀ : ∀ id, m₀.answers id = decide (r₀.requestId = id)) :
    ∀ r ∈ without r₀.requestId pending, ∀ m ∈ messages ++ [m₀], m.answers r.requestId = false := by
  intro r hr m hm
  obtain ⟨hr, hne⟩ := h.mem_without.1 hr
  rcases List.mem_append.1 hm with hm | hm
  · exact h.silent r hr m hm
  · rw [List.mem_singleton.1 hm, hm₀]
    exact decide_eq_false fun he => hne he.symm

theorem Ledger.unknown_append (h : Ledger pending calls messages ids) {id₀ : String} (hid₀ : id₀ ∈ ids)
    (hm₀ : ∀ id, m₀.answers id = decide (id₀ = id)) :
    ∀ id, id ∉ ids → ∀ m ∈ messages ++ [m₀], m.answers id = false := by
  intro id hid m hm
  rcases List.mem_append.1 hm with hm | hm
  · exact h.unknown id hid m hm
  · rw [List.mem_singleton.1 hm, hm₀]
    exact decide_eq_false fun he => hid (he ▸ hid₀)

theorem Ledger.id_mem (h : Ledger pending calls messages ids) (hr : r ∈ pending) :
    r.requestId ∈ ids := List.mem_of_getElem? (h.named r hr)

theorem Ledger.taken_append (h : Ledger pending calls messages ids) (hr₀ : r₀ ∈ pending)
    (hm₀ : ∀ id, m₀.answers id = decide (r₀.requestId = id)) {n : Nat} {c : Call}
    (hc : calls[n]? = some c) (hs : c.stage = .taken) :
    (∀ r ∈ without r₀.requestId pending, r.requestId ≠ c.requestId) ∧
    (∃ who, .requester who (.taskready c.requestId n) ∈ messages ++ [m₀]) ∧
    ∀ m ∈ messages ++ [m₀], m.answers c.requestId = true → ∃ who, m = .requester who (.taskready c.requestId n) := by
  obtain ⟨hp, ⟨who, hready⟩, honly⟩ := h.taken n c hc hs
  refine ⟨fun r hr => hp r (h.mem_without.1 hr).1, ⟨who, List.mem_append_left _ hready⟩, fun m hm ha => ?_⟩
  rcases List.mem_append.1 hm with hm | hm
  · exact honly m hm ha
  · rw [List.mem_singleton.1 hm, hm₀] at ha
    exact absurd (of_decide_eq_true ha) (hp r₀ hr₀)

theorem Ledger.expire (h : Ledger pending calls messages ids) (hr₀ : r₀ ∈ pending) (who : String)
    (reason : ExpiryReason) :
    Ledger (without r₀.requestId pending) calls
      (messages ++ [.requester who (.requestexpired r₀.requestId reason)]) ids := by
  have hm₀ : ∀ id, (Message.requester who (.requestexpired r₀.requestId reason)).answers id =
      decide (r₀.requestId = id) := fun _ => rfl
  refine { h with once := h.once_without _, named := fun r hr => h.named r (h.mem_without.1 hr).1,
                  in_progress := fun n c hc hs r hr => h.in_progress n c hc hs r (h.mem_without.1 hr).1,
                  has_call := fun r hr => h.has_call r (h.mem_without.1 hr).1, silent := h.silent_without hm₀,
                  unknown := h.unknown_append (h.id_mem hr₀) hm₀,
                  taken := fun n c hc hs => h.taken_append hr₀ hm₀ hc hs, answered := h.answered_append hr₀ hm₀,
                  covered := fun id hid => ?_ }
  by_cases he : id = r₀.requestId
  · subst he
    exact .inr (.inr ⟨who, reason, List.mem_append_right _ (List.mem_singleton_self _)⟩)
  · rcases h.covered id hid with ⟨r, hr, rfl⟩ | ht | ⟨who', reason', hm⟩
    · exact .inl ⟨r, h.mem_without.2 ⟨hr, he⟩, rfl⟩
    · exact .inr (.inl ht)
    · exact .inr (.inr ⟨who', reason', List.mem_append_left _ hm⟩)

theorem Ledger.take (h : Ledger pending calls messages ids) (hr₀ : r₀ ∈ pending) {n ref : Nat}
    (hc : calls[n]? = some ⟨ref, r₀.requestId, .offered⟩) (who : String) :
    Ledger (without r₀.requestId pending) (calls.set n ⟨ref, r₀.requestId, .taken⟩)
      (messages ++ [.requester who (.taskready r₀.requestId n)]) ids := by
  have hm₀ : ∀ id, (Message.requester who (.taskready r₀.requestId n)).answers id = decide (r₀.requestId = id) :=
    fun _ => rfl
  have hset : ∀ {m : Nat} {d : Call}, (calls.set n ⟨ref, r₀.requestId, .taken⟩)[m]? = some d → d.stage = .offered →
      calls[m]? = some d := fun {m d} hd hds => by
    rcases getElem?_set_some hd with ⟨-, rfl⟩ | ⟨-, hd⟩
    · exact nomatch hds
    · exact hd
  have hold : ∀ {m : Nat} {d : Call}, calls[m]? = some d → (d.ref = ref → False) ∨ d.stage = .taken →
      (calls.set n ⟨ref, r₀.requestId, .taken⟩)[m]? = some d := fun {m d} hd hne => by
    have hm : n ≠ m := by
      rintro rfl
      rw [hc, Option.some.injEq] at hd
      subst hd
      rcases hne with hne | hne
      · exact hne rfl
      · exact nomatch hne
    exact (List.getElem?_set_ne hm).trans hd
  refine { h with once := h.once_without _, named := fun r hr => h.named r (h.mem_without.1 hr).1,
                  called := fun m d hd => ?_,
                  in_progress := fun m d hd hds r hr => h.in_progress m d (hset hd hds) hds r (h.mem_without.1 hr).1,
                  has_call := fun r hr hflag => ?_,
                  alone := fun m k d e hd he hds hes => h.alone m k d e (hset hd hds) (hset he hes) hds hes,
                  silent := h.silent_without hm₀, unknown := h.unknown_append (h.id_mem hr₀) hm₀,
                  taken := fun m d hd hds => ?_, answered := h.answered_append hr₀ hm₀, covered := fun id hid => ?_ }
  · rcases getElem?_set_some hd with ⟨-, rfl⟩ | ⟨-, hd⟩
    · exact h.called n ⟨ref, r₀.requestId, .offered⟩ hc
    · exact h.called m d hd
  · obtain ⟨hr, hne⟩ := h.mem_without.1 hr
    obtain ⟨m, d, hd, hds, href⟩ := h.has_call r hr hflag
    refine ⟨m, d, hold hd (.inl fun he => hne ?_), hds, href⟩
    have hsame : some r.requestId = some r₀.requestId :=
      (h.named r hr).symm.trans (href.symm.trans he ▸ h.called n _ hc)
    exact Option.some.inj hsame
  · rcases getElem?_set_some hd with ⟨rfl, rfl⟩ | ⟨-, hd⟩
    · refine ⟨fun r hr => (h.mem_without.1 hr).2, ⟨who, List.mem_append_right _ (List.mem_singleton_self _)⟩,
        fun m' hm' ha => ?_⟩
      rcases List.mem_append.1 hm' with hm' | hm'
      · exact absurd ((h.silent r₀ hr₀ m' hm').symm.trans ha) Bool.false_ne_true
      · exact ⟨who, List.mem_singleton.1 hm'⟩
    · exact h.taken_append hr₀ hm₀ hd hds
  · by_cases he : id = r₀.requestId
    · exact .inr (.inl ⟨n, _, List.getElem?_set_self (List.getElem?_eq_some_iff.1 hc).1, rfl, he.symm⟩)
    · rcases h.covered id hid with ⟨r, hr, rfl⟩ | ⟨m, d, hd, hds, hdid⟩ | ⟨who', reason', hm⟩
      · exact .inl ⟨r, h.mem_without.2 ⟨hr, he⟩, rfl⟩
      · exact .inr (.inl ⟨m, d, hold hd (.inr hds), hds, hdid⟩)
      · exact .inr (.inr ⟨who', reason', List.mem_append_left _ hm⟩)

theorem Ledger.arrive (h : Ledger pending calls messages ids) (hid : r.requestId ∉ ids)
    (href : r.ref = ids.length) (hidle : r.acceptInProgress = false) :
    Ledger (pending ++ [r]) calls messages (ids ++ [r.requestId]) := by
  have hmem : ∀ {r'}, r' ∈ pending ++ [r] → r' ∈ pending ∨ r' = r := fun hr' =>
    (List.mem_append.1 hr').imp_right List.mem_singleton.1
  have hnew : ∀ {r'}, r' ∈ pending → r'.requestId ≠ r.requestId := fun hr' he => hid (he ▸ h.id_mem hr')
  have hids : ∀ {i : Nat} {id : String}, ids[i]? = some id → (ids ++ [r.requestId])[i]? = some id := fun hi =>
    (List.getElem?_append_left (ref_lt hi)).trans hi
  refine { h with distinct := ?_, once := ?_, named := fun r' hr' => ?_,
                  called := fun n c hc => hids (h.called n c hc), in_progress := fun n c hc hs r' hr' he => ?_,
                  has_call := fun r' hr' hflag => ?_, silent := fun r' hr' m hm => ?_,
                  unknown := fun id hnot => h.unknown id fun hi => hnot (List.mem_append_left _ hi),
                  taken := fun n c hc hs => ?_, covered := fun id hi => ?_ }
  · exact List.nodup_append.2 ⟨h.distinct, List.nodup_singleton _, fun x hx y hy hxy =>
      hid (List.mem_singleton.1 hy ▸ hxy ▸ hx)⟩
  · rw [List.map_append]
    refine List.nodup_append.2 ⟨h.once, List.nodup_singleton _, fun x hx y hy hxy => ?_⟩
    obtain ⟨r', hr', rfl⟩ := List.mem_map.1 hx
    exact hnew hr' (hxy.trans (List.mem_singleton.1 hy))
  · rcases hmem hr' with hr' | rfl
    · exact hids (h.named r' hr')
    · rw [href]
      exact List.getElem?_concat_length
  · rcases hmem hr' with hr' | rfl
    · exact h.in_progress n c hc hs r' hr' he
    · exact absurd (he.symm.trans href) (Nat.ne_of_lt (ref_lt (h.called n c hc)))
  · rcases hmem hr' with hr' | rfl
    · exact h.has_call r' hr' hflag
    · exact absurd (hidle.symm.trans hflag) Bool.false_ne_true
  · rcases hmem hr' with hr' | rfl
    · exact h.silent r' hr' m hm
    · exact h.unknown _ hid m hm
  · obtain ⟨hp, hready⟩ := h.taken n c hc hs
    refine ⟨fun r' hr' => ?_, hready⟩
    rcases hmem hr' with hr' | rfl
    · exact hp r' hr'
    · exact fun he => hid (he ▸ List.mem_of_getElem? (h.called n c hc))
  · rcases List.mem_append.1 hi with hi | hi
    · rcases h.covered id hi with ⟨r', hr', hrid⟩ | hrest
      · exact .inl ⟨r', List.mem_append_left _ hr', hrid⟩
      · exact .inr hrest
    · exact .inl ⟨r, List.mem_append_right _ (List.mem_singleton_self r), (List.mem_singleton.1 hi).symm⟩

theorem Ledger.refuse (h : Ledger pending calls messages ids) {id : String} (hid : id ∉ ids) (who : String)
    (reason : ExpiryReason) :
    Ledger pending calls (messages ++ [.requester who (.requestexpired id reason)]) (ids ++ [id]) := by
  have hcome := h.arrive (r := ⟨ids.length, id, "", "", false, 0⟩) hid rfl rfl
  have hexp := hcome.expire (List.mem_append_right _ (List.mem_singleton_self _)) who reason
  have hgone : without id (pending ++ [⟨ids.length, id, "", "", false, 0⟩]) = pending := by
    have hnone : ∀ r ∈ pending, ¬ decide (r.requestId = id) = true := fun r hr he =>
      hid (of_decide_eq_true he ▸ h.id_mem hr)
    rw [without, List.eraseP_append_right _ hnone]
    exact (congrArg (pending ++ ·) (List.eraseP_cons_of_pos (decide_eq_true rfl))).trans (List.append_nil _)
  exact hgone ▸ hexp

def begun (chosen : List TaskRequest) (r : TaskRequest) : TaskRequest :=
  if r ∈ chosen then { r with acceptInProgress := true } else r

theorem begun_keeps (chosen : List TaskRequest) (r : TaskRequest) :
    (begun chosen r).ref = r.ref ∧ (begun chosen r).requestId = r.requestId := by
  rw [begun]
  split_ifs <;> exact ⟨rfl, rfl⟩

def TaskRequest.call (r : TaskRequest) : Call := ⟨r.ref, r.requestId, .offered⟩

theorem Ledger.begin (h : Ledger pending calls messages ids) {chosen : List TaskRequest}
    (hsub : chosen.Sublist pending) (hidle : ∀ r ∈ chosen, r.acceptInProgress = false) :
    Ledger (pending.map (begun chosen)) (calls ++ chosen.map TaskRequest.call) messages ids := by
  have hrefs : (chosen.map TaskRequest.ref).Nodup :=
    List.Nodup.map_on (fun r hr r' hr' => h.ref_inj (hsub.subset hr) (hsub.subset hr'))
      (h.once.of_map.sublist hsub)
  have hids : (pending.map (begun chosen)).map TaskRequest.requestId = pending.map TaskRequest.requestId := by
    rw [List.map_map]
    exact List.map_congr_left fun r _ => (begun_keeps chosen r).2
  have hcall : ∀ {n : Nat} {c : Call}, (calls ++ chosen.map TaskRequest.call)[n]? = some c →
      calls[n]? = some c ∨ ∃ r, chosen[n - calls.length]? = some r ∧ c = r.call ∧ calls.length ≤ n := fun {n c} hc => by
    by_cases hn : n < calls.length
    · exact .inl ((List.getElem?_append_left hn).symm.trans hc)
    · rw [List.getElem?_append_right (Nat.le_of_not_lt hn), List.getElem?_map] at hc
      obtain ⟨r, hr, rfl⟩ := Option.map_eq_some_iff.1 hc
      exact .inr ⟨r, hr, rfl, Nat.le_of_not_lt hn⟩
  have hold : ∀ {n : Nat} {c : Call}, calls[n]? = some c → (calls ++ chosen.map TaskRequest.call)[n]? = some c :=
    fun hc => (List.getElem?_append_left (List.getElem?_eq_some_iff.1 hc).1).trans hc
  have hclash : ∀ {n : Nat} {c : Call} {r : TaskRequest}, calls[n]? = some c → c.stage = .offered → r ∈ chosen →
      r.ref ≠ c.ref := fun hc hs hr he =>
    Bool.false_ne_true ((hidle _ hr).symm.trans (h.in_progress _ _ hc hs _ (hsub.subset hr) he))
  refine { h with once := hids ▸ h.once, named := List.forall_mem_map.2 fun r hr => ?_, called := fun n c hc => ?_,
                  in_progress := fun n c hc hs => List.forall_mem_map.2 fun r hr he => ?_,
                  has_call := List.forall_mem_map.2 fun r hr hflag => ?_,
                  alone := fun n m c d hc hd hcs hds he => ?_,
                  silent := List.forall_mem_map.2 fun r hr m hm => ?_, taken := fun n c hc hs => ?_,
                  covered := fun id hid => ?_ }
  · rw [(begun_keeps chosen r).1, (begun_keeps chosen r).2]
    exact h.named r hr
  · rcases hcall hc with hc | ⟨r, hr, rfl, -⟩
    · exact h.called n c hc
    · exact h.named r (hsub.subset (List.mem_of_getElem? hr))
  · rw [(begun_keeps chosen r).1] at he
    rw [begun]
    split_ifs with hmem
    · rfl
    · rcases hcall hc with hc | ⟨r', hr', rfl, -⟩
      · exact h.in_progress n c hc hs r hr he
      · have hr'' := List.mem_of_getElem? hr'
        exact absurd (h.ref_inj hr (hsub.subset hr'') he ▸ hr'') hmem
  · rw [(begun_keeps chosen r).1]
    by_cases hmem : r ∈ chosen
    · obtain ⟨k, hk, hget⟩ := List.getElem_of_mem hmem
      refine ⟨calls.length + k, r.call, ?_, rfl, rfl⟩
      rw [List.getElem?_append_right (Nat.le_add_right _ _), Nat.add_sub_cancel_left, List.getElem?_map,
        List.getElem?_eq_getElem hk, hget]
      rfl
    · rw [begun, if_neg hmem] at hflag
      obtain ⟨n, c, hc, hs, he⟩ := h.has_call r hr hflag
      exact ⟨n, c, hold hc, hs, he⟩
  · rcases hcall hc with hc | ⟨r, hr, rfl, hn⟩ <;> rcases hcall hd with hd | ⟨r', hr', rfl, hm⟩
    · exact h.alone n m c d hc hd hcs hds he
    · exact absurd he.symm (hclash hc hcs (List.mem_of_getElem? hr'))
    · exact absurd he (hclash hd hds (List.mem_of_getElem? hr))
    · have hlt : n - calls.length < (chosen.map TaskRequest.ref).length := by
        rw [List.length_map]
        exact (List.getElem?_eq_some_iff.1 hr).1
      have hsame : (chosen.map TaskRequest.ref)[n - calls.length]? =
          (chosen.map TaskRequest.ref)[m - calls.length]? := by
        rw [List.getElem?_map, List.getElem?_map, hr, hr']
        exact congrArg some he
      have := (List.getElem?_inj hlt hrefs).1 hsame
      omega
  · rw [(begun_keeps chosen r).2]
    exact h.silent r hr m hm
  · rcases hcall hc with hc | ⟨r, -, rfl, -⟩
    · obtain ⟨hp, hready⟩ := h.taken n c hc hs
      refine ⟨List.forall_mem_map.2 fun r hr => ?_, hready⟩
      rw [(begun_keeps chosen r).2]
      exact hp r hr
    · exact nomatch hs
  · rcases h.covered id hid with ⟨r, hr, hrid⟩ | ⟨n, c, hc, hs, hcid⟩ | hexp
    · exact .inl ⟨begun chosen r, List.mem_map_of_mem hr, (begun_keeps chosen r).2.trans hrid⟩
    · exact .inr (.inl ⟨n, c, hold hc, hs, hcid⟩)
    · exact .inr (.inr hexp)

end N8n.TaskBroker
