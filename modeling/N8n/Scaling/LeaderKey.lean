import N8n.Scaling.LeaderElection

namespace N8n.Scaling

open N8n.Lib

variable {Id : Type} [DecidableEq Id] {s s' : ElectionState Id} {action : ElectionAction Id} {ttl c : Nat}
  {hostId other : Id} {sent : Sent Id} {reply : Reply Id} {command : Command} {i : Instance}

namespace ElectionState

/-- A `DEL` meets no key, or the host that sent it was the last one to set the key. -/
def Guarded (s : ElectionState Id) : ElectionAction Id → Prop
  | .execute c => ∀ sent ∈ s.commands[c]?, sent.command = .clearLeader →
      s.leader = none ∨ s.lastClaim = some sent.sender
  | _ => True

instance (s : ElectionState Id) (action : ElectionAction Id) : Decidable (s.Guarded action) :=
  match action with
  | .execute c => inferInstanceAs (Decidable (∀ sent ∈ s.commands[c]?, sent.command = .clearLeader → _ ∨ _))
  | .pass _ | .init _ | .checkLeader _ | .proceed _ | .error _ | .shutdown _ => .isTrue trivial

def role : Activity → Option Bool
  | .renewing _ | .reclaiming _ => some true
  | .unstarted | .starting _ | .looking _ | .claiming _ => some false
  | .idle => none

structure Inv (s : ElectionState Id) : Prop where
  claimed : ∀ lease, s.key = some lease → s.lastClaim = some lease.holder
  awaited : ∀ hostId c, (s.instances hostId).activity.awaits = some c → ∃ sent, s.commands[c]? = some sent ∧
    sent.sender = hostId ∧ sent.check = (s.instances hostId).checks
  roles : ∀ hostId isLeader, role (s.instances hostId).activity = some isLeader →
    (s.instances hostId).isLeader = isLeader
  seen : ∀ sent ∈ s.commands, ∀ reply holder, sent.executed = some (reply, holder) →
    reply.seesOwn sent.sender = true → holder = some sent.sender

theorem execute_seesOwn {leader : Option (Lease Id)} {now : Nat}
    (h : (command.execute ttl now hostId leader).2.seesOwn hostId = true) :
    (command.execute ttl now hostId leader).1.map Lease.holder = some hostId := by
  cases command with
  | setLeaderIfNotExists =>
    cases leader with
    | none => rfl
    | some lease => cases h
  | getLeader => exact of_decide_eq_true h
  | tryRenewLeaderTtl =>
    cases leader with
    | none => cases h
    | some lease =>
      simp only [Command.execute] at h ⊢
      split at h
      · cases h
      · next hown =>
        rw [if_neg hown]
        exact congrArg some (Decidable.not_not.1 hown)
  | clearLeader => cases h

theorem execute_other {lease : Lease Id} {now : Nat} (hne : lease.holder ≠ hostId)
    (hc : command ≠ .clearLeader) : (command.execute ttl now hostId (some lease)).1 = some lease := by
  cases command with
  | setLeaderIfNotExists | getLeader => rfl
  | tryRenewLeaderTtl => simp only [Command.execute, if_pos hne]
  | clearLeader => exact absurd rfl hc

theorem execute_claimed {leader : Option (Lease Id)} {now : Nat} {lease : Lease Id}
    (h : (command.execute ttl now hostId leader).1 = some lease) :
    (command.execute ttl now hostId leader).2 = .set true ∧ lease.holder = hostId ∨
      (command.execute ttl now hostId leader).2 ≠ .set true ∧ ∃ old, leader = some old ∧ old.holder = lease.holder := by
  cases command with
  | setLeaderIfNotExists =>
    cases leader with
    | none =>
      cases h
      exact .inl ⟨rfl, rfl⟩
    | some old =>
      cases h
      exact .inr ⟨by simp [Command.execute], _, rfl, rfl⟩
  | getLeader => exact .inr ⟨by simp [Command.execute], lease, h, rfl⟩
  | tryRenewLeaderTtl =>
    cases leader with
    | none => cases h
    | some old =>
      simp only [Command.execute] at h ⊢
      split at h
      · next hother =>
        cases h
        rw [if_pos hother]
        exact .inr ⟨by simp, _, rfl, rfl⟩
      · next hown =>
        cases h
        rw [if_neg hown]
        exact .inr ⟨by simp, old, rfl, rfl⟩
  | clearLeader => cases h

@[simp] theorem update_self : (s.update hostId i).instances hostId = i := Function.update_self ..

theorem update_ne (h : other ≠ hostId) : (s.update hostId i).instances other = s.instances other :=
  Function.update_of_ne h ..

theorem Inv.update (h : s.Inv) (hawaits : i.activity.awaits = none ∨
      i.activity = (s.instances hostId).activity ∧ i.checks = (s.instances hostId).checks)
    (hrole : ∀ isLeader, role i.activity = some isLeader → i.isLeader = isLeader) : (s.update hostId i).Inv := by
  refine ⟨h.claimed, ?_, ?_, h.seen⟩
  · intro other c hc
    by_cases ho : other = hostId
    · subst ho
      rw [update_self] at hc ⊢
      rcases hawaits with hnone | ⟨hsame, hchecks⟩
      · rw [hnone] at hc
        cases hc
      · rw [hsame] at hc
        rw [hchecks]
        exact h.awaited other c hc
    · rw [update_ne ho] at hc ⊢
      exact h.awaited other c hc
  · intro other isLeader hr
    by_cases ho : other = hostId
    · subst ho
      rw [update_self] at hr ⊢
      exact hrole isLeader hr
    · rw [update_ne ho] at hr ⊢
      exact h.roles other isLeader hr

theorem Inv.send (h : s.Inv) {activity : Nat → Activity} (hawaits : ∀ c, (activity c).awaits = some c)
    (hrole : ∀ isLeader, role (activity s.commands.length) = some isLeader → i.isLeader = isLeader) :
    (s.send hostId i command activity).Inv := by
  refine ⟨h.claimed, ?_, ?_, ?_⟩
  · intro other c hc
    by_cases ho : other = hostId
    · subst ho
      simp only [ElectionState.send, update_self, hawaits] at hc ⊢
      cases hc
      exact ⟨_, List.getElem?_concat_length, rfl, rfl⟩
    · simp only [ElectionState.send, update_ne ho] at hc ⊢
      obtain ⟨sent, hs, hsent⟩ := h.awaited other c hc
      have hlt := (List.getElem?_eq_some_iff.1 hs).1
      exact ⟨sent, by rw [List.getElem?_append_left hlt, hs], hsent⟩
  · intro other isLeader hr
    by_cases ho : other = hostId
    · subst ho
      simp only [ElectionState.send, update_self] at hr ⊢
      exact hrole isLeader hr
    · simp only [ElectionState.send, update_ne ho] at hr ⊢
      exact h.roles other isLeader hr
  · intro sent hs reply holder he
    rcases List.mem_append.1 hs with hs | hs
    · exact h.seen sent hs reply holder he
    · cases List.mem_singleton.1 hs
      cases he

theorem Inv.append (h : s.Inv) (command : Command) (check : Nat) :
    ({ s with commands := s.commands ++ [⟨hostId, command, check, none⟩] } : ElectionState Id).Inv := by
  refine ⟨h.claimed, fun other c hc => ?_, h.roles, fun sent hs reply holder he => ?_⟩
  · obtain ⟨sent, hs, hsent⟩ := h.awaited other c hc
    have hlt := (List.getElem?_eq_some_iff.1 hs).1
    exact ⟨sent, by rw [List.getElem?_append_left hlt, hs], hsent⟩
  · rcases List.mem_append.1 hs with hs | hs
    · exact h.seen sent hs reply holder he
    · cases List.mem_singleton.1 hs
      cases he

omit [DecidableEq Id] in
theorem leader_key {lease : Lease Id} (h : s.leader = some lease) : s.key = some lease :=
  (Option.filter_eq_some_iff.1 h).1

theorem Inv.execute (h : s.Inv) (hc : s.commands[c]? = some sent) :
    ({ s with
      key := (sent.command.execute ttl s.now sent.sender s.leader).1
      lastClaim := if (sent.command.execute ttl s.now sent.sender s.leader).2 = .set true then some sent.sender
        else s.lastClaim
      commands := s.commands.set c { sent with
        executed := some ((sent.command.execute ttl s.now sent.sender s.leader).2,
          (sent.command.execute ttl s.now sent.sender s.leader).1.map Lease.holder) } } : ElectionState Id).Inv := by
  refine ⟨?_, ?_, h.roles, ?_⟩
  · intro lease hl
    rcases execute_claimed hl with ⟨hset, hown⟩ | ⟨hset, old, hold, hsame⟩
    · simp only [if_pos hset, hown]
    · simp only [if_neg hset, ← hsame]
      exact h.claimed old (leader_key hold)
  · intro other c' hc'
    obtain ⟨sent', hs, hsent⟩ := h.awaited other c' hc'
    by_cases hcc : c = c'
    · subst hcc
      rw [hc] at hs
      cases hs
      have hlt := (List.getElem?_eq_some_iff.1 hc).1
      exact ⟨_, List.getElem?_set_self hlt, hsent⟩
    · exact ⟨sent', by rw [List.getElem?_set_ne hcc, hs], hsent⟩
  · intro sent' hs reply holder he hsees
    rcases List.mem_or_eq_of_mem_set hs with hs | rfl
    · exact h.seen sent' hs reply holder he hsees
    · cases he
      exact execute_seesOwn hsees

theorem Inv.role_of (h : s.Inv) {activity : Activity} {isLeader : Bool}
    (ha : (s.instances hostId).activity = activity) (hr : role activity = some isLeader) :
    (s.instances hostId).isLeader = isLeader :=
  h.roles hostId isLeader (by rw [ha, hr])

theorem Inv.endCheck (h : s.Inv) {isLeader : Bool} : (s.endCheck hostId i isLeader).Inv :=
  h.update (.inl rfl) (by intro _ h; cases h)

theorem Inv.endInit (h : s.Inv) {isLeader : Bool} : (s.endInit hostId i isLeader).Inv :=
  h.update (.inl rfl) (by intro _ h; cases h)

theorem Inv.proceed (h : s.Inv) (hs : s.proceed hostId (s.instances hostId) reply = some s') : s'.Inv := by
  unfold ElectionState.proceed at hs
  split at hs <;> cases hs
  · exact h.endInit
  · exact h.endCheck
  · exact h.endCheck
  · next ha =>
    refine h.send (fun _ => rfl) fun isLeader hr => ?_
    cases hr
    exact h.role_of ha rfl
  · exact h.endCheck
  · next ha =>
    refine h.send (fun _ => rfl) fun isLeader hr => ?_
    cases hr
    exact h.role_of ha rfl
  · exact h.endCheck
  · exact h.endCheck

theorem Inv.error (h : s.Inv) (hs : s.error hostId (s.instances hostId) = some s') : s'.Inv := by
  unfold ElectionState.error at hs
  split at hs <;> cases hs
  · exact h.endInit
  all_goals exact h.endCheck

theorem Inv.step (h : s.Inv) (hs : s.step ttl action = some s') : s'.Inv := by
  cases action with
  | pass elapsed =>
    cases hs
    exact ⟨h.claimed, h.awaited, h.roles, h.seen⟩
  | init hostId =>
    simp only [ElectionState.step] at hs
    split at hs
    · next ha =>
      cases hs
      refine h.send (fun _ => rfl) fun isLeader hr => ?_
      cases hr
      exact h.role_of ha rfl
    · cases hs
  | checkLeader hostId =>
    simp only [ElectionState.step] at hs
    split at hs
    · split at hs
      · next hl =>
        cases hs
        refine h.send (fun _ => rfl) fun isLeader hr => ?_
        cases hr
        exact hl
      · next hl =>
        cases hs
        refine h.send (fun _ => rfl) fun isLeader hr => ?_
        cases hr
        exact (Bool.not_eq_true _).mp hl
    · cases hs
  | execute c =>
    obtain ⟨sent, hc, hs⟩ := Option.bind_eq_some_iff.1 hs
    split at hs <;> cases hs
    exact h.execute hc
  | proceed hostId =>
    obtain ⟨c, _, hs⟩ := Option.bind_eq_some_iff.1 hs
    obtain ⟨sent, _, hs⟩ := Option.bind_eq_some_iff.1 hs
    obtain ⟨executed, _, hs⟩ := Option.bind_eq_some_iff.1 hs
    exact h.proceed hs
  | error hostId => exact h.error hs
  | shutdown hostId =>
    have hstopped : (s.update hostId { s.instances hostId with leaderCheckInterval := false }).Inv :=
      h.update (.inr ⟨rfl, rfl⟩) (h.roles hostId)
    simp only [ElectionState.step] at hs
    split at hs <;> cases hs
    · exact hstopped.append .clearLeader _
    · exact hstopped

theorem inv_of_reachable {ok : ElectionState Id → ElectionAction Id → Prop}
    (h : (election Id ttl).Reachable ok s) : s.Inv := by
  refine h.invariant ?_ fun s a s' _ hi hs => hi.step hs
  rintro s ⟨hcommands, hclaim, hinstances⟩
  refine ⟨fun lease hl => by rw [hclaim, hl]; rfl, fun hostId c hc => ?_, fun hostId isLeader hr => ?_, ?_⟩
  · rw [hinstances hostId] at hc
    cases hc
  · rw [hinstances hostId] at hr ⊢
    cases hr
    rfl
  · rw [hcommands]
    exact fun _ hm => absurd hm List.not_mem_nil

@[simp] theorem send_isLeader {activity : Nat → Activity} :
    ((s.send hostId i command activity).instances hostId).isLeader = i.isLeader := by
  simp only [ElectionState.send, update_self]

theorem proceed_checked (h : s.Inv) (hs : s.proceed hostId (s.instances hostId) reply = some s')
    (hidle : (s'.instances hostId).activity = .idle) :
    (s'.instances hostId).isLeader = reply.seesOwn hostId := by
  unfold ElectionState.proceed at hs
  split at hs <;> cases hs
  · simp [ElectionState.endInit, Reply.seesOwn]
  · next ha => simp [ElectionState.endCheck, Reply.seesOwn, h.role_of ha rfl]
  · simp [ElectionState.endCheck, Reply.seesOwn]
  · simp [ElectionState.send] at hidle
  · next done ha => simp [ElectionState.endCheck, Reply.seesOwn, h.role_of ha rfl]
  · simp [ElectionState.send] at hidle
  · next leaderId ha => simp [ElectionState.endCheck, Reply.seesOwn, h.role_of ha rfl]
  · next done ha => simp [ElectionState.endCheck, Reply.seesOwn, h.role_of ha rfl]

theorem proceed_others (hs : s.proceed hostId (s.instances hostId) reply = some s') (ho : other ≠ hostId) :
    s'.instances other = s.instances other := by
  unfold ElectionState.proceed at hs
  split at hs <;> cases hs <;> exact update_ne ho

theorem proceed_keeps (hs : s.proceed hostId (s.instances hostId) reply = some s')
    (hidle : (s'.instances hostId).activity ≠ .idle) :
    (s'.instances hostId).isLeader = (s.instances hostId).isLeader := by
  unfold ElectionState.proceed at hs
  split at hs <;> cases hs
  · simp [ElectionState.endInit] at hidle
  · simp [ElectionState.endCheck] at hidle
  · simp [ElectionState.endCheck] at hidle
  · exact send_isLeader
  · simp [ElectionState.endCheck] at hidle
  · exact send_isLeader
  · simp [ElectionState.endCheck] at hidle
  · simp [ElectionState.endCheck] at hidle

theorem not_leader_of_step (hs : s.step ttl action = some s') (ha : ∀ host, action ≠ .proceed host)
    (hl : (s.instances hostId).isLeader = false) : (s'.instances hostId).isLeader = false := by
  have hupdate : ∀ {host : Id} {i : Instance}, (host = hostId → i.isLeader = false) →
      ((s.update host i).instances hostId).isLeader = false := by
    intro host i hi
    by_cases ho : hostId = host
    · subst ho
      rw [update_self]
      exact hi rfl
    · rw [update_ne ho]
      exact hl
  have hsame : ∀ {host : Id}, host = hostId → (s.instances host).isLeader = false := by
    rintro _ rfl
    exact hl
  cases action with
  | pass elapsed =>
    cases hs
    exact hl
  | init host =>
    simp only [ElectionState.step] at hs
    split at hs <;> cases hs
    exact hupdate hsame
  | checkLeader host =>
    simp only [ElectionState.step] at hs
    split at hs
    · split at hs <;> cases hs <;> exact hupdate hsame
    · cases hs
  | execute c =>
    obtain ⟨sent, hc, hs⟩ := Option.bind_eq_some_iff.1 hs
    split at hs <;> cases hs
    exact hl
  | proceed host => exact absurd rfl (ha host)
  | error host =>
    simp only [ElectionState.step] at hs
    unfold ElectionState.error at hs
    split at hs <;> cases hs
    · exact hupdate fun _ => rfl
    · exact hupdate fun _ => rfl
    all_goals exact hupdate hsame
  | shutdown host =>
    simp only [ElectionState.step] at hs
    split at hs <;> cases hs <;> exact hupdate hsame

end ElectionState

/-- In a run in which each `DEL` is guarded so, every step is safe. -/
theorem leader_key_safe (h : (election Id ttl).Reachable ElectionState.Guarded s) (hok : s.Guarded action)
    (hs : (election Id ttl).step s action = some s') : LeaderSafe s action s' := by
  have hinv := ElectionState.inv_of_reachable h
  -- The reply with which an instance goes on is that of the command it waits for.
  have hreply : ∀ {host : Id}, (election Id ttl).step s (.proceed host) = some s' → ∃ sent reply holder,
      s.Awaits host sent ∧ sent.executed = some (reply, holder) ∧ sent ∈ s.commands ∧ sent.sender = host ∧
        s.proceed host (s.instances host) reply = some s' := by
    intro host hs
    obtain ⟨c, hc, hs⟩ := Option.bind_eq_some_iff.1 hs
    obtain ⟨sent, hsent, hs⟩ := Option.bind_eq_some_iff.1 hs
    obtain ⟨⟨reply, holder⟩, he, hs⟩ := Option.bind_eq_some_iff.1 hs
    obtain ⟨sent', hsent', hsender, hcheck⟩ := hinv.awaited host c hc
    cases hsent.symm.trans hsent'
    exact ⟨sent, reply, holder, ⟨c, hc, hsent, hsender, hcheck⟩, he, List.mem_of_getElem? hsent, hsender, hs⟩
  constructor
  · rintro c sent lease rfl hc hleader hne
    obtain ⟨sent', hc', hs⟩ := Option.bind_eq_some_iff.1 hs
    cases hc.symm.trans hc'
    have hdel : sent.command ≠ .clearLeader := by
      intro hdel
      rcases hok sent hc hdel with hnone | hclaim
      · rw [hnone] at hleader
        cases hleader
      · have hholder := hinv.claimed lease (ElectionState.leader_key hleader)
        exact hne (Option.some_inj.1 (hholder.symm.trans hclaim))
    split at hs <;> cases hs
    simp only [hleader]
    exact ElectionState.execute_other hne hdel
  · intro hostId hbefore hafter
    by_cases ha : action = .proceed hostId
    · subst ha
      obtain ⟨sent, reply, holder, hawaits, he, hm, hsender, hp⟩ := hreply hs
      have hidle : (s'.instances hostId).activity = .idle := by
        by_contra hidle
        rw [ElectionState.proceed_keeps hp hidle, hbefore] at hafter
        cases hafter
      have hsees : reply.seesOwn hostId = true := (ElectionState.proceed_checked hinv hp hidle).symm.trans hafter
      have hholder := hinv.seen sent hm reply holder he (hsender.symm ▸ hsees)
      rw [hholder, hsender] at he
      exact ⟨sent, reply, hawaits, he, hsees⟩
    · have hstays : (s'.instances hostId).isLeader = false := by
        by_cases hother : ∃ host, action = .proceed host
        · obtain ⟨host, rfl⟩ := hother
          obtain ⟨_, _, _, _, _, _, _, hp⟩ := hreply hs
          have hne : hostId ≠ host := by
            rintro rfl
            exact ha rfl
          rw [ElectionState.proceed_others hp hne]
          exact hbefore
        · exact ElectionState.not_leader_of_step hs (fun host hh => hother ⟨host, hh⟩) hbefore
      rw [hstays] at hafter
      cases hafter
  · rintro hostId rfl hidle
    obtain ⟨sent, reply, holder, hawaits, he, _, _, hp⟩ := hreply hs
    exact ⟨sent, reply, holder, hawaits, he, ElectionState.proceed_checked hinv hp hidle⟩

def unstarted : ElectionState Nat := ⟨0, none, none, fun _ => ⟨false, .unstarted, 0, false⟩, []⟩

theorem unstarted_initial : unstarted.Initial := ⟨rfl, rfl, fun _ => rfl⟩

/-- Instance `1` becomes leader and shuts down with its key in place. -/
theorem leader_key_safe_shutdown : ∃ s s', (election Nat 10).Reachable ElectionState.Guarded s ∧
    s.leader = some ⟨1, 10⟩ ∧ s'.key = none ∧ LeaderSafe s (.execute 1) s' := by
  have h : ((election Nat 10).run (fun s a => s.Guarded a) unstarted
      [.init 1, .execute 0, .proceed 1, .shutdown 1]).any (fun s => s.leader = some ⟨1, 10⟩ ∧ s.Guarded (.execute 1) ∧
        ((election Nat 10).step s (.execute 1)).any (fun s' => s'.key = none)) = true := by decide +kernel
  obtain ⟨s, hrun, hs⟩ := (Option.any_eq_true _ _).1 h
  obtain ⟨hleader, hok, hstep⟩ := of_decide_eq_true hs
  obtain ⟨s', hs', hkey⟩ := (Option.any_eq_true _ _).1 hstep
  have hr : (election Nat 10).Reachable ElectionState.Guarded s :=
    ⟨_, unstarted_initial, (TransitionSystem.run_leads hrun).mono fun _ _ => of_decide_eq_true⟩
  exact ⟨s, s', hr, hleader, of_decide_eq_true hkey, leader_key_safe hr hok hs'⟩

/-- The lease of instance `1` expires and instance `2` takes over, before instance `1` notices and shuts down. -/
theorem others_key_deleted : ∃ s s' action, (election Nat 10).Reachable TransitionSystem.Any s ∧
    (election Nat 10).step s action = some s' ∧ ¬ LeaderSafe s action s' := by
  have h : ((election Nat 10).run (fun _ _ => true) unstarted [.init 1, .execute 0, .proceed 1, .pass 11, .init 2,
      .execute 1, .proceed 2, .shutdown 1]).any (fun s => s.leader = some ⟨2, 21⟩ ∧
        s.commands[2]? = some ⟨1, .clearLeader, 1, none⟩ ∧
        ((election Nat 10).step s (.execute 2)).any (fun s' => s'.key = none)) = true := by decide +kernel
  obtain ⟨s, hrun, hs⟩ := (Option.any_eq_true _ _).1 h
  obtain ⟨hleader, hsent, hstep⟩ := of_decide_eq_true hs
  obtain ⟨s', hs', hkey⟩ := (Option.any_eq_true _ _).1 hstep
  have hr : (election Nat 10).Reachable TransitionSystem.Any s :=
    ⟨_, unstarted_initial, (TransitionSystem.run_leads hrun).mono fun _ _ _ => trivial⟩
  refine ⟨s, s', .execute 2, hr, hs', ?_⟩
  intro hsafe
  have hkept := hsafe.others_key 2 _ _ rfl hsent hleader (by decide)
  rw [of_decide_eq_true hkey] at hkept
  cases hkept

end N8n.Scaling
