import N8n.TaskBroker.Requests

namespace N8n.TaskBroker

def Phase.holds : Phase → Bool
  | .announcing _ => true
  | .awaitingRequester => true
  | .arming => true
  | _ => false

def Message.settles (taskId : Nat) : Message → Bool
  | .requester _ (.taskdone id) => id = taskId
  | .requester _ (.taskerror id) => id = taskId
  | _ => false

structure Tracked (tasks : List Task) (phases : List Phase) (handlers : List TimeoutHandler)
    (messages : List Message) : Prop where
  distinct : (tasks.map Task.id).Nodup
  taken : ∀ t ∈ tasks, ∃ phase, phases[t.id]? = some phase ∧ phase.stage = .taken ∧
    (t.timeout = .unset → phase.holds = true)
  fired : ∀ t ∈ tasks, t.timeout = .fired → ∃ h ∈ handlers, h.taskId = t.id ∧ h.delivery ≠ .threw
  settled : ∀ n, (messages.filter (Message.settles n)).length ≤ 1
  unsettled : ∀ t ∈ tasks, ∀ m ∈ messages, m.settles t.id = false
  created : ∀ n, ∀ m ∈ messages, m.settles n = true → ∃ phase, phases[n]? = some phase ∧ phase.stage = .taken

variable {tasks : List Task} {phases : List Phase} {handlers : List TimeoutHandler} {messages : List Message}

theorem Tracked.others (h : Tracked tasks phases handlers messages) {more : List Message}
    (hmore : ∀ m ∈ more, ∀ n, m.settles n = false) : Tracked tasks phases handlers (messages ++ more) := by
  have hmem : ∀ {m n}, m ∈ messages ++ more → m.settles n = true → m ∈ messages := fun {m n} hm hs => by
    rcases List.mem_append.1 hm with hm | hm
    · exact hm
    · exact absurd ((hmore m hm n).symm.trans hs) Bool.false_ne_true
  refine { h with settled := fun n => ?_, unsettled := fun t ht m hm => ?_,
                  created := fun n m hm hs => h.created n m (hmem hm hs) hs }
  · have hnil : more.filter (Message.settles n) = [] :=
      List.filter_eq_nil_iff.2 fun m hm => Bool.eq_false_iff.1 (hmore m hm n)
    rw [List.filter_append, hnil, List.append_nil]
    exact h.settled n
  · exact Bool.eq_false_iff.2 fun hs => Bool.eq_false_iff.1 (h.unsettled t ht m (hmem hm hs)) hs

theorem Tracked.fewer (h : Tracked tasks phases handlers messages) {tasks' : List Task}
    (hsub : tasks'.Sublist tasks) : Tracked tasks' phases handlers messages :=
  { h with distinct := h.distinct.sublist (hsub.map _), taken := fun t ht => h.taken t (hsub.subset ht),
           fired := fun t ht => h.fired t (hsub.subset ht),
           unsettled := fun t ht => h.unsettled t (hsub.subset ht) }

theorem Tracked.ends (h : Tracked tasks phases handlers messages) {t₀ : Task} (ht₀ : t₀ ∈ tasks) {m₀ : Message}
    (hm₀ : ∀ n, m₀.settles n = decide (t₀.id = n)) :
    Tracked (tasks.filter fun t => t.id ≠ t₀.id) phases handlers (messages ++ [m₀]) := by
  have hfewer : Tracked (tasks.filter fun t => t.id ≠ t₀.id) phases handlers messages := h.fewer List.filter_sublist
  refine { hfewer with settled := fun n => ?_, unsettled := fun t ht m hm => ?_, created := fun n m hm hs => ?_ }
  · rw [List.filter_append]
    by_cases hn : t₀.id = n
    · have hnil : messages.filter (Message.settles n) = [] :=
        List.filter_eq_nil_iff.2 fun m hm => Bool.eq_false_iff.1 (hn ▸ h.unsettled t₀ ht₀ m hm)
      rw [hnil, List.nil_append]
      exact List.length_filter_le _ _
    · have hnew : [m₀].filter (Message.settles n) = [] := by
        rw [List.filter_cons_of_neg (by rw [hm₀]; simpa using hn), List.filter_nil]
      rw [hnew, List.append_nil]
      exact h.settled n
  · rcases List.mem_append.1 hm with hm | hm
    · exact hfewer.unsettled t ht m hm
    · rw [List.mem_singleton.1 hm, hm₀]
      exact decide_eq_false fun he => of_decide_eq_true (List.mem_filter.1 ht).2 he.symm
  · rcases List.mem_append.1 hm with hm | hm
    · exact h.created n m hm hs
    · rw [List.mem_singleton.1 hm, hm₀] at hs
      obtain ⟨phase, hphase, hstage, -⟩ := h.taken t₀ ht₀
      exact ⟨phase, of_decide_eq_true hs ▸ hphase, hstage⟩

theorem Tracked.phase (h : Tracked tasks phases handlers messages) {n : Nat} {phase : Phase}
    (hn : phases[n]? = some phase) (phase' : Phase) (hstage : phase.stage = .taken → phase'.stage = .taken)
    (hholds : ∀ t ∈ tasks, t.id = n → t.timeout = .unset → phase'.holds = true) :
    Tracked tasks (phases.set n phase') handlers messages := by
  have hself : (phases.set n phase')[n]? = some phase' := List.getElem?_set_self (List.getElem?_eq_some_iff.1 hn).1
  refine { h with taken := fun t ht => ?_, created := fun m msg hm hs => ?_ }
  · obtain ⟨p, hp, hps, hph⟩ := h.taken t ht
    by_cases ht' : n = t.id
    · rw [← ht', hn, Option.some.injEq] at hp
      exact ⟨phase', ht' ▸ hself, hstage (hp ▸ hps), hholds t ht ht'.symm⟩
    · exact ⟨p, (List.getElem?_set_ne ht').trans hp, hps, hph⟩
  · obtain ⟨p, hp, hps⟩ := h.created m msg hm hs
    by_cases hm' : n = m
    · rw [← hm', hn, Option.some.injEq] at hp
      exact ⟨phase', hm' ▸ hself, hstage (hp ▸ hps)⟩
    · exact ⟨p, (List.getElem?_set_ne hm').trans hp, hps⟩

theorem Tracked.fresh (h : Tracked tasks phases handlers messages) {n : Nat} {phase : Phase}
    (hn : phases[n]? = some phase) (hstage : phase.stage ≠ .taken) :
    (∀ t ∈ tasks, t.id ≠ n) ∧ ∀ m ∈ messages, m.settles n = false := by
  refine ⟨fun t ht he => ?_, fun m hm => Bool.eq_false_iff.2 fun hs => ?_⟩
  · obtain ⟨p, hp, hps, -⟩ := h.taken t ht
    rw [he, hn, Option.some.injEq] at hp
    exact hstage (hp ▸ hps)
  · obtain ⟨p, hp, hps⟩ := h.created n m hm hs
    rw [hn, Option.some.injEq] at hp
    exact hstage (hp ▸ hps)

theorem Tracked.create (h : Tracked tasks phases handlers messages) (t₀ : Task) {phase : Phase} (phase' : Phase)
    (hn : phases[t₀.id]? = some phase) (hstage : phase.stage ≠ .taken) (hstage' : phase'.stage = .taken)
    (hholds : phase'.holds = true) (hunset : t₀.timeout = .unset) :
    Tracked (tasks ++ [t₀]) (phases.set t₀.id phase') handlers messages := by
  obtain ⟨hnone, hsilent⟩ := h.fresh hn hstage
  have hset := h.phase hn phase' (fun _ => hstage') fun t ht he => absurd he (hnone t ht)
  have hmem : ∀ {t}, t ∈ tasks ++ [t₀] → t ∈ tasks ∨ t = t₀ := fun ht =>
    (List.mem_append.1 ht).imp_right List.mem_singleton.1
  refine { hset with distinct := ?_, taken := fun t ht => ?_, fired := fun t ht hf => ?_,
                     unsettled := fun t ht m hm => ?_ }
  · rw [List.map_append]
    refine List.nodup_append.2 ⟨h.distinct, List.nodup_singleton _, fun x hx y hy hxy => ?_⟩
    obtain ⟨t, ht, rfl⟩ := List.mem_map.1 hx
    exact hnone t ht (hxy.trans (List.mem_singleton.1 hy))
  · rcases hmem ht with ht | rfl
    · exact hset.taken t ht
    · exact ⟨phase', List.getElem?_set_self (List.getElem?_eq_some_iff.1 hn).1, hstage', fun _ => hholds⟩
  · rcases hmem ht with ht | rfl
    · exact h.fired t ht hf
    · exact nomatch hunset.symm.trans hf
  · rcases hmem ht with ht | rfl
    · exact h.unsettled t ht m hm
    · exact hsilent m hm

theorem Tracked.begin (h : Tracked tasks phases handlers messages) (more : List Phase) :
    Tracked tasks (phases ++ more) handlers messages := by
  have hold : ∀ {n : Nat} {p : Phase}, phases[n]? = some p → (phases ++ more)[n]? = some p := fun hp =>
    (List.getElem?_append_left (List.getElem?_eq_some_iff.1 hp).1).trans hp
  refine { h with taken := fun t ht => ?_, created := fun n m hm hs => ?_ }
  · obtain ⟨p, hp, hrest⟩ := h.taken t ht
    exact ⟨p, hold hp, hrest⟩
  · obtain ⟨p, hp, hps⟩ := h.created n m hm hs
    exact ⟨p, hold hp, hps⟩

theorem Tracked.retimed (h : Tracked tasks phases handlers messages) {f : Task → Task}
    {handlers' : List TimeoutHandler} (hid : ∀ t, (f t).id = t.id)
    (hunset : ∀ t ∈ tasks, (f t).timeout = .unset → t.timeout = .unset)
    (hfired : ∀ t ∈ tasks, (f t).timeout = .fired → ∃ h ∈ handlers', h.taskId = t.id ∧ h.delivery ≠ .threw) :
    Tracked (tasks.map f) phases handlers' messages := by
  have hids : (tasks.map f).map Task.id = tasks.map Task.id := by
    rw [List.map_map]
    exact List.map_congr_left fun t _ => hid t
  refine { h with distinct := hids ▸ h.distinct, taken := List.forall_mem_map.2 fun t ht => ?_,
                  fired := List.forall_mem_map.2 fun t ht hf => ?_,
                  unsettled := List.forall_mem_map.2 fun t ht m hm => ?_ }
  · obtain ⟨p, hp, hps, hph⟩ := h.taken t ht
    exact ⟨p, (hid t).symm ▸ hp, hps, fun hu => hph (hunset t ht hu)⟩
  · rw [hid]
    exact hfired t ht hf
  · rw [hid]
    exact h.unsettled t ht m hm

theorem Tracked.rehandled (h : Tracked tasks phases handlers messages) {handlers' : List TimeoutHandler}
    (hfired : ∀ t ∈ tasks, t.timeout = .fired → ∃ h ∈ handlers', h.taskId = t.id ∧ h.delivery ≠ .threw) :
    Tracked tasks phases handlers' messages := { h with fired := hfired }

structure Spent (pending : List TaskOffer) (accepted : List TaskOffer) (ids : List String) : Prop where
  distinct : ((accepted ++ pending).map TaskOffer.offerId).Nodup
  came : ∀ o ∈ accepted ++ pending, o.offerId ∈ ids

variable {pending accepted : List TaskOffer} {ids : List String}

theorem Spent.fewer (h : Spent pending accepted ids) {pending' : List TaskOffer} (hsub : pending'.Sublist pending) :
    Spent pending' accepted ids := by
  have hall : (accepted ++ pending').Sublist (accepted ++ pending) := hsub.append_left accepted
  exact ⟨h.distinct.sublist (hall.map _), fun o ho => h.came o (hall.subset ho)⟩

theorem Spent.arrive (h : Spent pending accepted ids) {o : TaskOffer} (hnew : o.offerId ∉ ids) :
    Spent (pending ++ [o]) accepted (ids ++ [o.offerId]) := by
  refine ⟨?_, fun x hx => ?_⟩
  · rw [← List.append_assoc, List.map_append]
    refine List.nodup_append.2 ⟨h.distinct, List.nodup_singleton _, fun x hx y hy hxy => ?_⟩
    obtain ⟨o', ho', rfl⟩ := List.mem_map.1 hx
    exact hnew (List.mem_singleton.1 hy ▸ hxy ▸ h.came o' ho')
  · rw [← List.append_assoc, List.mem_append, List.mem_singleton] at hx
    rcases hx with hx | rfl
    · exact List.mem_append_left _ (h.came x hx)
    · exact List.mem_append_right _ (List.mem_singleton_self _)

theorem Spent.give (h : Spent pending accepted ids) {given left : List TaskOffer}
    (hperm : (given ++ left).Perm pending) : Spent left (accepted ++ given) ids := by
  have hall : (accepted ++ given ++ left).Perm (accepted ++ pending) := by
    rw [List.append_assoc]
    exact hperm.append_left accepted
  exact ⟨(hall.map _).nodup_iff.2 h.distinct, fun o ho => h.came o (hall.subset ho)⟩

end N8n.TaskBroker
