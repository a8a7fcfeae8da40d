import N8n.Scheduler.ExecutorClaims

namespace N8n.Scheduler

open N8n.Lib

section

variable {e e' : ExecutorState}

theorem step_frame {a : ExecutorAction} (h : e.step a = some e') :
    (∃ b, e.protocol.step b = some e'.protocol) ∨ e'.protocol.tasks = e.protocol.tasks ∧
      e'.protocol.started = e.protocol.started ∧
      ∀ lease f, e.protocol.fires lease = some f → ∃ p, e'.protocol.fires lease = some (f.withPhase p) := by
  cases a with
  | claimDueTasks =>
    obtain ⟨s', leases, hs, -, rfl⟩ := step_claimDueTasks h
    exact .inl ⟨_, hs⟩
  | claimed =>
    obtain ⟨-, ⟨-, rfl⟩ | ⟨-, rfl⟩⟩ := step_claimed h
    · exact .inr (moveAll_frame _ _ _)
    · exact .inr (moveAll_frame _ _ _)
  | timer =>
    obtain ⟨-, rfl⟩ := step_timer h
    exact .inr (moveAll_frame _ _ _)
  | stop =>
    cases h
    exact .inr (moveAll_frame _ _ _)
  | protocol a =>
    obtain ⟨-, s', hs, rfl⟩ := step_protocol h
    exact .inl ⟨a, hs⟩

theorem step_own {a : ExecutorAction} (h : e.step a = some e') :
    (∀ lease ∈ e.own, lease ∈ e'.own) ∧ (e.stopping = true → e'.stopping = true) := by
  cases a with
  | claimDueTasks =>
    obtain ⟨s', leases, -, -, rfl⟩ := step_claimDueTasks h
    exact ⟨fun lease hl => List.mem_append_left _ hl, fun hs => hs⟩
  | claimed =>
    obtain ⟨-, ⟨-, rfl⟩ | ⟨-, rfl⟩⟩ := step_claimed h
    · exact ⟨fun lease hl => hl, fun hs => hs⟩
    · exact ⟨fun lease hl => hl, fun hs => hs⟩
  | timer =>
    obtain ⟨-, rfl⟩ := step_timer h
    exact ⟨fun lease hl => hl, fun hs => hs⟩
  | stop =>
    cases h
    exact ⟨fun lease hl => hl, fun _ => rfl⟩
  | protocol a =>
    obtain ⟨-, s', -, rfl⟩ := step_protocol h
    exact ⟨fun lease hl => hl, fun hs => hs⟩

end

section Stop

variable {e e' e'' : ExecutorState} {lease other : LeaseId} {s s' : LeaseState} {f : Fire} {row row' : ScheduledTask}

/-- The claim is being released, or its row is no longer under it. -/
def LeaseState.Released (s : LeaseState) (lease : LeaseId) : Prop :=
  ∃ f, s.fires lease = some f ∧ ((∃ result, f.phase = .releasing result) ∨
    ∀ row, s.tasks lease.1 = some row → owns (f.claim lease.1) row = false)

/-- Whether a statement of the claim fails before it has an effect. -/
def failsFor (lease : LeaseId) : ExecutorAction → Bool
  | .protocol (.commit other outcome) => other = lease ∧ outcome = .failed
  | _ => false

/-- Whether a step ends that the map holds the claim's task under this claim: a timer of the
task fires, or an earlier claim of the task is scheduled. -/
def disturbs (lease : LeaseId) : ExecutorAction → Bool
  | .claimed tasks _ => tasks.any fun other => other.1 = lease.1 ∧ other.2 < lease.2
  | .timer other _ => other.1 = lease.1
  | .stop => true
  | _ => false

/-- The claim was scheduled, and nothing has disturbed it since. -/
def ExecutorState.Undisturbed (e : ExecutorState) (lease : LeaseId) : Prop :=
  ∃ e₀ e₁ tasks, executorSystem.Reachable TransitionSystem.Any e₀ ∧ e₀.stopping = false ∧ lease ∈ tasks ∧
    e₀.step (.claimed tasks false) = some e₁ ∧ executorSystem.Leads (fun _ a => disturbs lease a = false) e₁ e

/-- What the stop from `e` to `e'` hands back, and whose handlers start after it. -/
structure StopHandsBack (e e' : ExecutorState) : Prop where
  pending : ∀ lease, e.Undisturbed lease → ∀ e'',
    executorSystem.Leads (fun _ a => failsFor lease a = false) e' e'' → e''.protocol.Released lease
  resolving : ∀ lease ∈ e.resolving.flatten, ∀ e'',
    executorSystem.Leads (fun _ a => failsFor lease a = false) e' e'' →
      e''.Holds lease .claimed ∨ e''.protocol.Released lease
  inFlight : ∀ e'' lease, executorSystem.Leads TransitionSystem.Any e' e'' → lease ∈ e''.own →
    lease ∈ e''.protocol.started → lease ∈ e.protocol.started ∨ e.Holds lease .beginning

theorem RowStep.claimedBy {a : LeaseAction} {id : TaskId} (h : RowStep s id row a row') (hs : row'.status = .running)
    (he : row'.leaseEpoch = row.leaseEpoch) : row'.claimedBy = row.claimedBy := by
  cases h with
  | same | missed => rfl
  | claimed => exact absurd he (Nat.succ_ne_self _)
  | @written e outcome f stmt _ _ ho =>
    cases stmt with
    | beginDispatch | markDispatched | completeTask | failTaskTerminal => rfl
    | releaseClaim | rescheduleTask => cases hs
  | reaped _ _ _ hw => cases hw <;> first | rfl | cases hs

theorem LeaseInv.unowned_step {a : LeaseAction} (hi : LeaseInv s) (h : s.step a = some s')
    (hf : s.fires lease = some f)
    (hn : ∀ row, s.tasks lease.1 = some row → owns (f.claim lease.1) row = false)
      (hr' : s'.tasks lease.1 = some row') :
    owns (f.claim lease.1) row' = false := by
  obtain ⟨row, hr, hstep⟩ := step_row h hr'
  rw [Bool.eq_false_iff]
  intro ho
  obtain ⟨hs, hby, he⟩ := owns_iff.1 ho
  have hle := (hi.fires lease f hf row hr).1
  have he' : row'.leaseEpoch = row.leaseEpoch := by
    apply Nat.le_antisymm _ hstep.leaseEpoch_le
    rwa [he.trans (hi.epochs lease f hf)]
  have hown : owns (f.claim lease.1) row = true :=
    owns_iff.2 ⟨(hstep.running hs he').1, (hstep.claimedBy hs he').symm.trans hby, he'.symm.trans he⟩
  rw [hn row hr] at hown
  cases hown

theorem commit_releases {outcome : DbOutcome} {result : Option FireResult}
    (h : s.step (.commit lease outcome) = some s')
    (ho : outcome ≠ .failed) (hf : s.fires lease = some f) (hp : f.phase = .releasing result)
    (hr' : s'.tasks lease.1 = some row') : owns (f.claim lease.1) row' = false := by
  obtain ⟨g, stmt, r, answer, hg, hs, rfl, -, rfl⟩ := step_commit h
  obtain rfl := Option.some.inj (hf.symm.trans hg)
  obtain rfl : Statement.releaseClaim = stmt := by simpa [Fire.statement, hp] using hs
  have hr' : (releaseClaim s.tasks (f.claim lease.1)).1 lease.1 = some row' := by
    simpa [DbOutcome.table, ho, Statement.exec] using hr'
  obtain ⟨row, -, hrow⟩ := Option.map_eq_some_iff.1 hr'
  split at hrow
  · subst hrow
    rfl
  · next hno =>
    subst hrow
    simpa [Fire.claim] using hno

theorem ExecutorInv.stopped_entries (hi : ExecutorInv e) (hs : e.stopping = true) : e.claimedTaskById = [] := by
  apply List.eq_nil_iff_forall_not_mem.2
  intro x hx
  have ht := (hi.entries x hx).2
  rw [hi.stopped hs] at ht
  cases ht

theorem ExecutorInv.unowned_step {a : ExecutorAction} (hi : ExecutorInv e) (h : e.step a = some e')
    (hf : e.protocol.fires lease = some f)
    (hn : ∀ row, e.protocol.tasks lease.1 = some row → owns (f.claim lease.1) row = false) :
    e'.protocol.Released lease := by
  rcases step_frame h with ⟨b, hs⟩ | ⟨htasks, -, hfires⟩
  · have hn' : ∀ row, e'.protocol.tasks lease.1 = some row → owns (f.claim lease.1) row = false := by
      intro row hr
      exact hi.leases.unowned_step hs hf hn hr
    rcases hi.leases.fire_step hs hf with hf' | ⟨m, p, -, -, hf'⟩ | ⟨outcome, stmt, answer, -, -, hf'⟩
    · exact ⟨_, hf', .inr hn'⟩
    · exact ⟨_, hf', .inr hn'⟩
    · exact ⟨_, hf', .inr hn'⟩
  · obtain ⟨p, hf'⟩ := hfires lease f hf
    exact ⟨_, hf', .inr (by rw [htasks]; exact hn)⟩

theorem ExecutorInv.stopped_fire {a : ExecutorAction} (hi : ExecutorInv e) (hstop : e.stopping = true)
    (h : e.step a = some e') (hf : e.protocol.fires lease = some f) :
    e'.protocol.fires lease = some f ∨
      (f.phase = .claimed ∧ e'.protocol.fires lease = some (f.withPhase (.releasing none))) ∨
      ∃ b, a = .protocol b ∧ e.allows b = true ∧ e.protocol.step b = some e'.protocol := by
  cases a with
  | claimDueTasks =>
    obtain ⟨s', leases, hs, -, rfl⟩ := step_claimDueTasks h
    rcases hi.leases.fire_step hs hf with hf' | ⟨m, p, ha, -⟩ | ⟨outcome, stmt, answer, ha, -⟩
    · exact .inl hf'
    · cases ha
    · cases ha
  | claimed tasks aborted =>
    obtain ⟨hm, ⟨-, rfl⟩ | ⟨hs, -⟩⟩ := step_claimed h
    · have hfires : ∀ lease ∈ tasks, ∃ f, e.protocol.fires lease = some f ∧ f.phase = .claimed := fun lease hl =>
        ((hi.resolving tasks hm).2 lease hl).2
      have hspec := moveAll_spec (m := .handBack) rfl (nodup_erase_flatten hi.disjoint hm).2.1 hfires lease
      by_cases hl : lease ∈ tasks
      · obtain ⟨g, hg, hp⟩ := hfires lease hl
        obtain rfl := Option.some.inj (hf.symm.trans hg)
        rw [if_pos hl, hf] at hspec
        exact .inr (.inl ⟨hp, hspec⟩)
      · rw [if_neg hl] at hspec
        exact .inl (hspec.trans hf)
    · simp [hstop] at hs
  | timer other =>
    obtain ⟨hl, -⟩ := step_timer h
    rw [hi.stopped hstop] at hl
    cases hl
  | stop =>
    cases h
    rw [hi.stopped_entries hstop]
    exact .inl hf
  | protocol b =>
    obtain ⟨ha, s', hs, rfl⟩ := step_protocol h
    exact .inr (.inr ⟨b, rfl, ha, hs⟩)

theorem ExecutorInv.released_step {a : ExecutorAction} (hi : ExecutorInv e) (hstop : e.stopping = true)
    (hown : lease ∈ e.own) (hok : failsFor lease a = false) (h : e.step a = some e')
    (hr : e.protocol.Released lease) : e'.protocol.Released lease := by
  obtain ⟨f, hf, ⟨result, hp⟩ | hn⟩ := hr
  · rcases hi.stopped_fire hstop h hf with hf' | ⟨-, hf'⟩ | ⟨b, rfl, ha, hs⟩
    · exact ⟨f, hf', .inl ⟨result, hp⟩⟩
    · exact ⟨_, hf', .inl ⟨none, rfl⟩⟩
    · rcases hi.leases.fire_step hs hf with hf' | ⟨m, p, rfl, hm, -⟩ | ⟨outcome, stmt, answer, rfl, -, hf'⟩
      · exact ⟨f, hf', .inl ⟨result, hp⟩⟩
      · have hm' : m.ofExecutor = false := by simpa [ExecutorState.allows, hown] using ha
        rw [hp] at hm
        cases m with
        | crash => cases hm'
        | schedule | handBack | stop | timer | dispatched | returns | throws => cases hm
      · have ho : outcome ≠ .failed := by simpa [failsFor] using hok
        refine ⟨_, hf', .inr fun row' hr' => ?_⟩
        have hn := commit_releases hs ho hf hp hr'
        exact hn
  · exact hi.unowned_step h hf hn

theorem ExecutorInv.claimed_step {a : ExecutorAction} (hi : ExecutorInv e) (hstop : e.stopping = true)
    (h : e.step a = some e') (hh : e.Holds lease .claimed) :
    e'.Holds lease .claimed ∨ e'.protocol.Released lease := by
  obtain ⟨hown, f, hf, hp⟩ := hh
  rcases hi.stopped_fire hstop h hf with hf' | ⟨-, hf'⟩ | ⟨b, rfl, ha, hs⟩
  · exact .inl ⟨(step_own h).1 lease hown, f, hf', hp⟩
  · exact .inr ⟨_, hf', .inl ⟨none, rfl⟩⟩
  · obtain ⟨-, s', hs', rfl⟩ := step_protocol h
    exact .inl (hi.waits ha hs' (.inl rfl) ⟨hown, f, hf, hp⟩)

/-- A timer is pending, and the map holds the claim or its row is under a later one. -/
def ExecutorState.Tracks (e : ExecutorState) (lease : LeaseId) : Prop :=
  lease ∈ e.timers ∧ (Entries.lookup lease.1 e.claimedTaskById = some lease ∨
    ∀ row, e.protocol.tasks lease.1 = some row → lease.2 < row.leaseEpoch)

theorem superseded_step {a : ExecutorAction} (h : e.step a = some e')
    (hlt : ∀ row, e.protocol.tasks lease.1 = some row → lease.2 < row.leaseEpoch) :
    ∀ row, e'.protocol.tasks lease.1 = some row → lease.2 < row.leaseEpoch := by
  intro row' hr'
  rcases step_frame h with ⟨b, hs⟩ | ⟨htasks, -⟩
  · obtain ⟨row, hr, hstep⟩ := step_row hs hr'
    exact Nat.lt_of_lt_of_le (hlt row hr) hstep.leaseEpoch_le
  · rw [htasks] at hr'
    exact hlt row' hr'

theorem ExecutorInv.tracks_scheduled {tasks : List LeaseId} (hi : ExecutorInv e) (hstop : e.stopping = false)
    (hl : lease ∈ tasks) (h : e.step (.claimed tasks false) = some e') : e'.Tracks lease := by
  obtain ⟨hm, ⟨hs, -⟩ | ⟨-, rfl⟩⟩ := step_claimed h
  · simp [hstop] at hs
  · have hids := (hi.resolving tasks hm).1
    refine ⟨List.mem_append_right _ hl, .inl ?_⟩
    rw [lookup_schedule _ _ hids]
    have hsome : (tasks.find? fun other => other.1 = lease.1).isSome = true := by
      rw [List.find?_isSome]
      exact ⟨lease, hl, decide_eq_true rfl⟩
    obtain ⟨other, hfind⟩ := Option.isSome_iff_exists.1 hsome
    have hid : other.1 = lease.1 := by simpa using List.find?_some hfind
    have ho := List.mem_of_find?_eq_some hfind
    rw [hfind, List.inj_on_of_nodup_map hids ho hl hid]
    rfl

theorem ExecutorInv.tracks_step {a : ExecutorAction} (hi : ExecutorInv e) (hok : disturbs lease a = false)
    (h : e.step a = some e') (ht : e.Tracks lease) : e'.Tracks lease := by
  obtain ⟨hl, hmap⟩ := ht
  have hlater := @superseded_step _ _ lease _ h
  cases a with
  | claimDueTasks =>
    obtain ⟨s', leases, -, -, rfl⟩ := step_claimDueTasks h
    exact ⟨hl, hmap.imp_right hlater⟩
  | claimed tasks aborted =>
    obtain ⟨hm, ⟨-, rfl⟩ | ⟨-, rfl⟩⟩ := step_claimed h
    · exact ⟨hl, hmap.imp_right hlater⟩
    · refine ⟨List.mem_append_left _ hl, ?_⟩
      rcases hmap with hmap | hlt
      · rw [lookup_schedule _ _ (hi.resolving tasks hm).1, hmap]
        cases hfind : tasks.find? fun other => other.1 = lease.1 with
        | none => exact .inl rfl
        | some other =>
          have ho := List.mem_of_find?_eq_some hfind
          have hid : other.1 = lease.1 := by simpa using List.find?_some hfind
          -- a later claim of the task: the row went on to its epoch when it was claimed
          have hne : other.2 ≠ lease.2 := fun he => hi.timers_waiting hm hl (Prod.ext hid he ▸ ho)
          have hnot : ¬ other.2 < lease.2 := fun hlt => by
            have : disturbs lease (.claimed tasks aborted) = true :=
              List.any_eq_true.2 ⟨other, ho, decide_eq_true ⟨hid, hlt⟩⟩
            rw [this] at hok
            cases hok
          refine .inr (hlater fun row hr => ?_)
          obtain ⟨-, f, hf, -⟩ := (hi.resolving tasks hm).2 other ho
          have := (hi.leases.fires other f hf row (hid ▸ hr)).1
          omega
      · exact .inr (hlater hlt)
  | timer other =>
    obtain ⟨-, rfl⟩ := step_timer h
    have hne : other.1 ≠ lease.1 := by simpa [disturbs] using hok
    refine ⟨hi.nodup.mem_erase_iff.2 ⟨fun he => hne (congrArg Prod.fst he).symm, hl⟩, ?_⟩
    refine hmap.imp (fun hmap => ?_) hlater
    rw [Entries.lookup_remove, if_neg hne.symm]
    exact hmap
  | stop => cases hok
  | protocol =>
    obtain ⟨-, s', -, rfl⟩ := step_protocol h
    exact ⟨hl, hmap.imp_right hlater⟩

theorem ExecutorState.Undisturbed.tracks (h : e.Undisturbed lease) : e.Tracks lease := by
  obtain ⟨e₀, e₁, tasks, hr, hstop, hl, hs, hleads⟩ := h
  have hr₁ : executorSystem.Reachable TransitionSystem.Any e₁ :=
    hr.leads (.step (.claimed tasks false) .refl trivial hs)
  refine hleads.relates (R := fun _ e => e.Tracks lease) ((executorInv_of_reachable hr).tracks_scheduled hstop hl hs)
    ?_
  intro e a e' ht hl hok hstep
  have hi := executorInv_of_reachable (hr₁.leads (hl.mono fun _ _ _ => trivial))
  exact hi.tracks_step hok hstep ht

theorem ExecutorInv.stop_releases (hi : ExecutorInv e) (h : e.step .stop = some e') (ht : e.Tracks lease) :
    e'.protocol.Released lease := by
  obtain ⟨hl, hmap⟩ := ht
  obtain ⟨-, f, hf, -⟩ := hi.timers lease hl
  rcases hmap with hmap | hlt
  · have hm : lease ∈ e.claimedTaskById.map Prod.snd := List.mem_map.2 ⟨_, Entries.lookup_mem hmap, rfl⟩
    have hspec := moveAll_spec (m := .stop) rfl hi.entries_nodup
      (fun lease hl => (hi.timers lease (hi.holds_of_entry hl)).2) lease
    rw [if_pos hm, hf] at hspec
    cases h
    exact ⟨_, hspec, .inl ⟨none, rfl⟩⟩
  · refine hi.unowned_step h hf fun row hr => Bool.eq_false_iff.2 fun ho => ?_
    have he := (owns_iff.1 ho).2.2
    have he' := hi.leases.epochs lease f hf
    have hlt := hlt row hr
    simp only [Fire.claim] at he
    omega

theorem ExecutorInv.own_of_step {a : ExecutorAction} (hi : ExecutorInv e) (h : e.step a = some e')
    (hl : lease ∈ e'.own) :
    lease ∈ e.own ∨ e'.Holds lease .claimed ∧ lease ∉ e'.protocol.started := by
  cases a with
  | claimDueTasks batch ids =>
    obtain ⟨s', leases, hs, rfl, rfl⟩ := step_claimDueTasks h
    refine (List.mem_append.1 hl).imp_right fun hnew => ?_
    obtain ⟨f, hf, hp⟩ := mem_claimedLeases hnew
    cases hs
    refine ⟨⟨hl, f, by simp [hf], hp⟩, fun hm => ?_⟩
    obtain ⟨row, hr, -, -, he, -⟩ := claimedFire_eq_some hf
    have := (hi.leases.started lease hm row hr).1
    omega
  | claimed =>
    obtain ⟨-, ⟨-, rfl⟩ | ⟨-, rfl⟩⟩ := step_claimed h
    · exact .inl hl
    · exact .inl hl
  | timer =>
    obtain ⟨-, rfl⟩ := step_timer h
    exact .inl hl
  | stop =>
    cases h
    exact .inl hl
  | protocol =>
    obtain ⟨-, s', -, rfl⟩ := step_protocol h
    exact .inl hl

theorem fire_kept {a : ExecutorAction} (h : e.step a = some e') (hf : e.protocol.fires lease = some f) :
    ∃ f', e'.protocol.fires lease = some f' := by
  rcases step_frame h with ⟨b, hs⟩ | ⟨-, -, hfires⟩
  · exact step_fires hs hf
  · obtain ⟨p, hf'⟩ := hfires lease f hf
    exact ⟨_, hf'⟩

theorem own_fires {ok : ExecutorState → ExecutorAction → Prop} (h : executorSystem.Reachable ok e) :
    ∀ lease ∈ e.own, ∃ f, e.protocol.fires lease = some f := by
  have hall : ExecutorInv e ∧ ∀ lease ∈ e.own, ∃ f, e.protocol.fires lease = some f := by
    refine h.invariant (P := fun e => ExecutorInv e ∧ ∀ lease ∈ e.own, ∃ f, e.protocol.fires lease = some f)
      (fun e h₀ => ⟨h₀.executorInv, fun lease hl => ?_⟩) fun e a e' _ ⟨hi, hown⟩ hs => ?_
    · rw [h₀.own] at hl
      cases hl
    · refine ⟨hi.step hs, fun lease hl => ?_⟩
      rcases hi.own_of_step hs hl with hl | ⟨⟨-, f, hf, -⟩, -⟩
      · obtain ⟨f, hf⟩ := hown lease hl
        exact fire_kept hs hf
      · exact ⟨f, hf⟩
  exact hall.2

theorem Fire.resolve_ne_beginning {stmt : Statement} {answer : Option Nat} (h : f.statement = some stmt) :
    f.resolve answer ≠ .beginning := by
  cases hp : f.phase with
  | claimed | scheduled | ended => simp [Fire.statement, hp] at h
  | releasing => simp [Fire.resolve, hp]
  | beginning => rcases answer with _ | _ | n <;> simp [Fire.resolve, hp]
  | handling mark => cases mark <;> simp [Fire.resolve, hp]
  | settling result mark => cases mark <;> simp [Fire.resolve, hp]

theorem ExecutorInv.beginning_step {a : ExecutorAction} (hi : ExecutorInv e) (hstop : e.stopping = true)
    (hf : e.protocol.fires lease = some f) (hown : lease ∈ e.own) (h : e.step a = some e')
    (hh : e'.Holds lease .beginning) : e.Holds lease .beginning := by
  obtain ⟨-, f', hf', hp⟩ := hh
  refine ⟨hown, f, hf, ?_⟩
  rcases hi.stopped_fire hstop h hf with hsame | ⟨-, hmoved⟩ | ⟨b, -, ha, hs⟩
  · obtain rfl := Option.some.inj (hsame.symm.trans hf')
    exact hp
  · obtain rfl := Option.some.inj (hmoved.symm.trans hf')
    cases hp
  · rcases hi.leases.fire_step hs hf with hsame | ⟨m, p, rfl, hm, hmoved⟩ | ⟨outcome, stmt, answer, rfl, hst, hmoved⟩
    · obtain rfl := Option.some.inj (hsame.symm.trans hf')
      exact hp
    · obtain rfl := Option.some.inj (hmoved.symm.trans hf')
      have hm' : m.ofExecutor = false := by simpa [ExecutorState.allows, hown] using ha
      obtain rfl : p = .beginning := hp
      generalize f.phase = q at hm
      cases m with
      | dispatched | returns | throws => cases q <;> cases hm
      | schedule | handBack | stop | timer | crash => cases hm'
    · obtain rfl := Option.some.inj (hmoved.symm.trans hf')
      exact absurd hp (Fire.resolve_ne_beginning hst)

structure StartsOnlyOf (e e' : ExecutorState) : Prop where
  stopping : e'.stopping = true
  started : ∀ lease ∈ e'.own, lease ∈ e'.protocol.started → lease ∈ e.protocol.started ∨ e.Holds lease .beginning
  beginning : ∀ lease ∈ e'.own, e'.Holds lease .beginning → e.Holds lease .beginning

theorem StartsOnlyOf.of_stop (hi : ExecutorInv e) (h : e.step .stop = some e') : StartsOnlyOf e e' := by
  have hspec := moveAll_spec (m := .stop) rfl hi.entries_nodup fun lease hl =>
    (hi.timers lease (hi.holds_of_entry hl)).2
  cases h
  refine ⟨rfl, fun lease _ hm => .inl ?_, fun lease hl hh => ?_⟩
  · rwa [(moveAll_frame _ _ _).2.1] at hm
  · obtain ⟨-, f, hf, hp⟩ := hh
    rw [hspec] at hf
    split at hf
    · obtain ⟨g, -, rfl⟩ := Option.map_eq_some_iff.1 hf
      cases hp
    · exact ⟨hl, f, hf, hp⟩

theorem StartsOnlyOf.step {a : ExecutorAction} (hi : ExecutorInv e')
    (hfires : ∀ lease ∈ e'.own, ∃ f, e'.protocol.fires lease = some f) (hs : e'.step a = some e'')
      (h : StartsOnlyOf e e') : StartsOnlyOf e e'' := by
  refine ⟨(step_own hs).2 h.stopping, fun lease hl hm => ?_, fun lease hl hb => ?_⟩
  · rcases hi.own_of_step hs hl with hown | ⟨-, hnot⟩
    · rcases step_frame hs with ⟨b, hb⟩ | ⟨-, hstarted, -⟩
      · rcases started_step hb hm with hm | ⟨outcome, f, -, hf, hp⟩
        · exact h.started lease hown hm
        · exact .inr (h.beginning lease hown ⟨hown, f, hf, hp⟩)
      · exact h.started lease hown (hstarted ▸ hm)
    · exact absurd hm hnot
  · rcases hi.own_of_step hs hl with hown | ⟨hclaimed, -⟩
    · obtain ⟨f, hf⟩ := hfires lease hown
      exact h.beginning lease hown (hi.beginning_step h.stopping hf hown hs hb)
    · cases hclaimed.phase_eq hb

theorem leads_stopping {ok : ExecutorState → ExecutorAction → Prop} {P : ExecutorState → Prop}
    (hr : executorSystem.Reachable TransitionSystem.Any e) (hstop : e.stopping = true) (hown : lease ∈ e.own)
      (hP : P e)
    (hstep : ∀ e a e', ExecutorInv e → e.stopping = true → lease ∈ e.own → ok e a → P e → e.step a = some e' → P e')
    (h : executorSystem.Leads ok e e') : P e' := by
  have hall : e'.stopping = true ∧ lease ∈ e'.own ∧ P e' := by
    refine h.relates (R := fun _ e => e.stopping = true ∧ lease ∈ e.own ∧ P e) ⟨hstop, hown, hP⟩ ?_
    intro e₁ a e₂ ⟨hstop, hown, hP⟩ hl hok hs
    have hi := executorInv_of_reachable (hr.leads (hl.mono fun _ _ _ => trivial))
    exact ⟨(step_own hs).2 hstop, (step_own hs).1 lease hown, hstep e₁ a e₂ hi hstop hown hok hP hs⟩
  exact hall.2.2

/-- The stop hands back each claim whose timer it cancels and each that still resolves, unless
another claim of the task has disturbed it; a handler that starts later was on its way. -/
theorem stop_handsBack (hr : executorSystem.Reachable TransitionSystem.Any e) (h : e.step .stop = some e') :
    StopHandsBack e e' := by
  have hi := executorInv_of_reachable hr
  have hr' : executorSystem.Reachable TransitionSystem.Any e' := hr.leads (.step .stop .refl trivial h)
  have hstop : e'.stopping = true := by
    cases h
    rfl
  refine ⟨fun lease hu e'' hl => ?_, fun lease hm e'' hl => ?_, fun e'' lease hl hown hm => ?_⟩
  · have ht := hu.tracks
    refine leads_stopping (P := fun e => e.protocol.Released lease) hr' hstop
      ((step_own h).1 lease (hi.timers lease ht.1).1) (hi.stop_releases h ht) ?_ hl
    intro e a e' hi hstop hown hok hreleased hs
    exact hi.released_step hstop hown hok hs hreleased
  · obtain ⟨tasks, ht, hm⟩ := List.mem_flatten.1 hm
    have hi' := hi.stop h
    have ht' : tasks ∈ e'.resolving := by
      cases h
      exact ht
    have hh := (hi'.resolving tasks ht').2 lease hm
    refine leads_stopping (P := fun e => e.Holds lease .claimed ∨ e.protocol.Released lease)
      hr' hstop hh.1 (.inl hh) ?_ hl
    intro e a e' hi hstop hown hok hp hs
    rcases hp with hh | hreleased
    · exact hi.claimed_step hstop hs hh
    · exact .inr (hi.released_step hstop hown hok hs hreleased)
  · have hs : StartsOnlyOf e e'' := by
      refine hl.relates (R := fun _ e'' => StartsOnlyOf e e'') (StartsOnlyOf.of_stop hi h) ?_
      intro e₁ a e₂ hs hl _ hstep
      have hr₁ := hr'.leads hl
      exact hs.step (executorInv_of_reachable hr₁) (own_fires hr₁) hstep
    exact hs.started lease hown hm

end Stop

def onlyExecutor : ExecutorState := { protocol := onlyTask 1 }

theorem onlyExecutor_initial : onlyExecutor.Initial := ⟨onlyTask_initial Nat.one_pos, rfl, rfl, rfl, rfl, rfl⟩

/-- A claim that is scheduled. -/
def claimAndSchedule : List ExecutorAction :=
  [.claimDueTasks ⟨"main-1", ["workflow"], 0, 1000⟩ ["t"], .claimed [("t", 1)] false]

theorem reachable_of_run {as : List ExecutorAction} {e : ExecutorState}
    (h : executorSystem.run (fun _ _ => true) onlyExecutor as = some e) :
    executorSystem.Reachable TransitionSystem.Any e :=
  ⟨onlyExecutor, onlyExecutor_initial, (TransitionSystem.run_leads h).mono fun _ _ _ => trivial⟩

/-- The stop releases a claim whose timer is pending. -/
theorem stop_handsBack_scheduled : ∃ e e' e'', executorSystem.Reachable TransitionSystem.Any e ∧
    e.step .stop = some e' ∧ e.Undisturbed ("t", 1) ∧ StopHandsBack e e' ∧
    e'.step (.protocol (.commit ("t", 1) .done)) = some e'' ∧
    (e''.protocol.tasks "t").any (fun row => row.status = .pending) = true := by
  have h : (executorSystem.run (fun _ _ => true) onlyExecutor (claimAndSchedule.take 1)).any (fun e₀ =>
      e₀.stopping = false ∧ (e₀.step (.claimed [("t", 1)] false)).any fun e =>
        (e.step .stop).any fun e' => (e'.step (.protocol (.commit ("t", 1) .done))).any fun e'' =>
          (e''.protocol.tasks "t").any (fun row => row.status = .pending)) = true := by decide +kernel
  obtain ⟨e₀, h₀, h⟩ := (Option.any_eq_true _ _).1 h
  obtain ⟨hstop, h⟩ := of_decide_eq_true h
  obtain ⟨e, h₁, h⟩ := (Option.any_eq_true _ _).1 h
  obtain ⟨e', h₂, h⟩ := (Option.any_eq_true _ _).1 h
  obtain ⟨e'', h₃, h⟩ := (Option.any_eq_true _ _).1 h
  have hr := reachable_of_run h₀
  have hr' : executorSystem.Reachable TransitionSystem.Any e :=
    hr.leads (.step (.claimed [("t", 1)] false) .refl trivial h₁)
  exact ⟨e, e', e'', hr', h₂, ⟨e₀, e, _, hr, hstop, List.mem_singleton.2 rfl, h₁, .refl⟩, stop_handsBack hr' h₂, h₃, h⟩

/-- A fire that waits for its dispatch is not released, and its handler starts after the stop. -/
theorem stop_leaves_in_flight : ¬ ∀ e e', executorSystem.Reachable TransitionSystem.Any e → e.step .stop = some e' →
    (∀ lease ∈ e.own, lease ∉ e.protocol.started → ∀ e'',
      executorSystem.Leads (fun _ a => failsFor lease a = false) e' e'' →
        e''.Holds lease .claimed ∨ e''.protocol.Released lease) ∧
    ∀ e'' lease, executorSystem.Leads TransitionSystem.Any e' e'' → lease ∈ e''.own →
      lease ∈ e''.protocol.started → lease ∈ e.protocol.started := by
  intro hall
  have h : (executorSystem.run (fun _ _ => true) onlyExecutor (claimAndSchedule ++ [.timer ("t", 1) true])).any
    (fun e =>
      ("t", 1) ∉ e.protocol.started ∧ (e.step .stop).any fun e' =>
        (e'.step (.protocol (.commit ("t", 1) .done))).any fun e'' =>
          ("t", 1) ∈ e''.own ∧ ("t", 1) ∈ e''.protocol.started) = true := by decide +kernel
  obtain ⟨e, h₀, h⟩ := (Option.any_eq_true _ _).1 h
  obtain ⟨hnot, h⟩ := of_decide_eq_true h
  obtain ⟨e', h₁, h⟩ := (Option.any_eq_true _ _).1 h
  obtain ⟨e'', h₂, h⟩ := (Option.any_eq_true _ _).1 h
  obtain ⟨hown, hstarted⟩ := of_decide_eq_true h
  have hl : executorSystem.Leads TransitionSystem.Any e' e'' :=
    .step (.protocol (.commit ("t", 1) .done)) .refl trivial h₂
  exact hnot ((hall e e' (reachable_of_run h₀) h₁).2 e'' ("t", 1) hl hown hstarted)

end N8n.Scheduler
