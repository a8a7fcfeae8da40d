import N8n.Lib.ObjectMap

/-!
A search that expands a node into the list of what lies below it, keeps each expansion, and passes over the nodes of
the branch it is on. How far it may go on is a budget that each step takes from.
-/

namespace N8n.Lib

open Relation

structure Budget (δ : Type) where
  spent : δ → Prop
  rest : δ → δ
  le : δ → δ → Prop
  refl : ∀ d, le d d
  trans : ∀ {a b c}, le a b → le b c → le a c
  rest_le : ∀ {d}, ¬ spent d → le (rest d) d
  rest_mono : ∀ {a b}, ¬ spent a → le a b → le (rest a) (rest b)
  spent_of_le : ∀ {a b}, le a b → spent b → spent a

variable {V δ : Type} {found : List V} {nodes : List V}

section Fronts

variable [DecidableEq V]

def toFront (nodes : List V) (a : V) : List V := a :: nodes.erase a

/-- The new nodes in front, in their order. -/
def mergeFront (front nodes : List V) : List V := front.foldr (fun a acc => toFront acc a) nodes

theorem mem_toFront {a b : V} : b ∈ toFront nodes a ↔ b = a ∨ b ∈ nodes := by
  by_cases h : b = a
  · simp [toFront, h]
  · simp [toFront, h, List.mem_erase_of_ne h]

theorem mem_mergeFront {front : List V} {b : V} : b ∈ mergeFront front nodes ↔ b ∈ front ∨ b ∈ nodes := by
  induction front with
  | nil => simp [mergeFront]
  | cons a front ih =>
    rw [mergeFront] at ih
    simp [mergeFront, mem_toFront, ih, or_assoc]

theorem nodup_toFront (h : nodes.Nodup) (a : V) : (toFront nodes a).Nodup :=
  List.nodup_cons.2 ⟨h.not_mem_erase, h.erase a⟩

theorem nodup_mergeFront (h : nodes.Nodup) (front : List V) : (mergeFront front nodes).Nodup := by
  induction front with
  | nil => exact h
  | cons a front ih => exact nodup_toFront ih a

theorem mergeFront_eq {front : List V} (hf : front.Nodup) (h : nodes.Nodup) :
    mergeFront front nodes = front ++ nodes.filter (· ∉ front) := by
  induction front with
  | nil => simp [mergeFront]
  | cons a front ih =>
    have ha := (List.nodup_cons.1 hf).1
    have hcons : mergeFront (a :: front) nodes = toFront (mergeFront front nodes) a := rfl
    rw [hcons, ih hf.of_cons, toFront, List.erase_append_right _ ha, (h.filter _).erase_eq_filter, List.filter_filter,
      List.cons_append]
    congr 2
    apply List.filter_congr
    intro b _
    by_cases hb : b = a
    · simp [hb]
    · simp [hb]

end Fronts

section Expansion

variable [DecidableEq V] [DecidableEq δ] (next : V → Option (List V)) (b : Budget δ)

/-- The second node is one of those that the first leads to. -/
def Child (u v : V) : Prop := ∃ targets, next u = some targets ∧ v ∈ targets

inductive Within : δ → V → V → Prop
  | one {d u v} : ¬ b.spent d → Child next u v → Within d u v
  | more {d u w v} : ¬ b.spent d → Child next u w → Within (b.rest d) w v → Within d u v

/--
The loop over the children of the last node of a path: from the list and the memo at its start to those at its end. A
path also says with what budget each of its nodes was entered.
-/
inductive Expands : List (δ × V) → δ → List V → List V → ObjectMap (δ × V) (List V) → List V →
    ObjectMap (δ × V) (List V) → Prop
  | done {path d acc memo} : Expands path d [] acc memo acc memo
  | skip {path d c cs acc memo out memo'} : c ∈ path.map Prod.snd → Expands path d cs acc memo out memo' →
      Expands path d (c :: cs) acc memo out memo'
  | leaf {path d c cs acc memo out memo'} : c ∉ path.map Prod.snd → b.spent d ∨ next c = none →
      Expands path d cs (toFront acc c) memo out memo' → Expands path d (c :: cs) acc memo out memo'
  | known {path d c cs acc memo found out memo'} : c ∉ path.map Prod.snd → memo.get? (d, c) = some found →
      Expands path d cs (mergeFront found (toFront acc c)) memo out memo' → Expands path d (c :: cs) acc memo out memo'
  | expand {path d c cs acc memo targets found memo₁ out memo'} : c ∉ path.map Prod.snd → ¬ b.spent d →
      next c = some targets → memo.get? (d, c) = none →
      Expands ((d, c) :: path) (b.rest d) targets [] memo found memo₁ →
      Expands path d cs (mergeFront found (toFront acc c)) (memo₁.set (d, c) found) out memo' →
      Expands path d (c :: cs) acc memo out memo'

variable {next b} {path : List (δ × V)} {d : δ} {cs acc out : List V} {memo memo' : ObjectMap (δ × V) (List V)}

def Kept (p : δ → V → List V → Prop) (memo : ObjectMap (δ × V) (List V)) : Prop :=
  ∀ {d v found}, memo.get? (d, v) = some found → p d v found

theorem Kept.set {p : δ → V → List V → Prop} (h : Kept p memo) {d : δ} {v : V} (hp : p d v found) :
    Kept p (memo.set (d, v) found) := by
  intro d' v' found' hget
  rw [ObjectMap.get?_set] at hget
  split at hget
  · next heq =>
    cases heq
    cases hget
    exact hp
  · exact h hget

theorem Expands.grows (h : Expands next b path d cs acc memo out memo') :
    acc ⊆ out ∧ ∀ k, (memo.get? k).isSome → (memo'.get? k).isSome := by
  induction h with
  | done => exact ⟨List.Subset.refl _, fun _ hk => hk⟩
  | skip _ _ ih => exact ih
  | leaf _ _ _ ih => exact ⟨fun v hv => ih.1 (mem_toFront.2 (.inr hv)), ih.2⟩
  | known _ _ _ ih => exact ⟨fun v hv => ih.1 (mem_mergeFront.2 (.inr (mem_toFront.2 (.inr hv)))), ih.2⟩
  | expand _ _ _ _ _ _ ihin ih =>
    refine ⟨fun v hv => ih.1 (mem_mergeFront.2 (.inr (mem_toFront.2 (.inr hv)))), fun k hk => ih.2 k ?_⟩
    rw [ObjectMap.get?_set]
    split
    · rfl
    · exact ihin.2 k hk

/-- The expansion of a node has no node twice, not the one that the search is for, and none out of reach. -/
def Sound (next : V → Option (List V)) (b : Budget δ) (start : V) (d : δ) (v : V) (found : List V) : Prop :=
  found.Nodup ∧ ∀ x ∈ found, x ≠ start ∧ Within next b d v x

omit [DecidableEq δ] in
theorem Sound.turn {start c : V} (hc : c ≠ start) (hfound : Sound next b start d c found)
    (hout : ∀ x ∈ out, x ∈ mergeFront found (toFront acc c) ∨ x ≠ start ∧ ∃ a ∈ cs, x = a ∨ Within next b d a x) :
    ∀ x ∈ out, x ∈ acc ∨ x ≠ start ∧ ∃ a ∈ c :: cs, x = a ∨ Within next b d a x := by
  intro x hx
  rcases hout x hx with hm | ⟨hne, a, ha, hax⟩
  · rcases mem_mergeFront.1 hm with hm | hm
    · exact .inr ⟨(hfound.2 x hm).1, c, List.mem_cons_self, .inr (hfound.2 x hm).2⟩
    · rcases mem_toFront.1 hm with rfl | hm
      · exact .inr ⟨hc, x, List.mem_cons_self, .inl rfl⟩
      · exact .inl hm
  · exact .inr ⟨hne, a, List.mem_cons_of_mem _ ha, hax⟩

omit [DecidableEq V] [DecidableEq δ] in
theorem Sound.of_children {start u : V} {targets : List V} (hd : ¬ b.spent d) (hn : next u = some targets)
    (hnodup : found.Nodup)
    (hfound : ∀ x ∈ found, x ∈ ([] : List V) ∨ x ≠ start ∧ ∃ c ∈ targets, x = c ∨ Within next b (b.rest d) c x) :
    Sound next b start d u found := by
  refine ⟨hnodup, fun x hx => ?_⟩
  rcases hfound x hx with hnil | ⟨hne, c, hc, rfl | hw⟩
  · cases hnil
  · exact ⟨hne, .one hd ⟨targets, hn, hc⟩⟩
  · exact ⟨hne, .more hd ⟨targets, hn, hc⟩ hw⟩

theorem Expands.sound {start : V} (h : Expands next b path d cs acc memo out memo') (hstart : start ∈ path.map Prod.snd)
    (hmemo : Kept (Sound next b start) memo) (hacc : acc.Nodup) :
    out.Nodup ∧ (∀ x ∈ out, x ∈ acc ∨ x ≠ start ∧ ∃ c ∈ cs, x = c ∨ Within next b d c x) ∧
      Kept (Sound next b start) memo' := by
  induction h with
  | done => exact ⟨hacc, fun x hx => .inl hx, hmemo⟩
  | skip _ _ ih =>
    obtain ⟨hnodup, hout, hkept⟩ := ih hstart hmemo hacc
    refine ⟨hnodup, fun x hx => (hout x hx).imp_right ?_, hkept⟩
    rintro ⟨hne, c, hc, hx⟩
    exact ⟨hne, c, List.mem_cons_of_mem _ hc, hx⟩
  | @leaf path d c cs acc memo out memo' hc _ _ ih =>
    have hne : c ≠ start := fun he => hc (he ▸ hstart)
    obtain ⟨hnodup, hout, hkept⟩ := ih hstart hmemo (nodup_toFront hacc c)
    have hnone : Sound next b start d c [] := ⟨List.nodup_nil, fun x hx => by cases hx⟩
    exact ⟨hnodup, hnone.turn hne hout, hkept⟩
  | @known path d c cs acc memo found out memo' hc hfound _ ih =>
    have hne : c ≠ start := fun he => hc (he ▸ hstart)
    obtain ⟨hnodup, hout, hkept⟩ := ih hstart hmemo (nodup_mergeFront (nodup_toFront hacc c) found)
    exact ⟨hnodup, (hmemo hfound).turn hne hout, hkept⟩
  | @expand path d c cs acc memo targets found memo₁ out memo' hc hd hn _ _ _ ihin ih =>
    have hne : c ≠ start := fun he => hc (he ▸ hstart)
    obtain ⟨hnodupin, houtin, hkeptin⟩ := ihin (List.mem_cons_of_mem _ hstart) hmemo List.nodup_nil
    have hfound : Sound next b start d c found := .of_children hd hn hnodupin houtin
    obtain ⟨hnodup, hout, hkept⟩ := ih hstart (hkeptin.set hfound) (nodup_mergeFront (nodup_toFront hacc c) found)
    exact ⟨hnodup, hfound.turn hne hout, hkept⟩

/-- What the search owes for a node that it came to with a budget: the node is on the path, or the search has listed it
and has expanded it as far as that budget goes. -/
def Served (next : V → Option (List V)) (b : Budget δ) (path : List (δ × V)) (out : List V)
    (memo : ObjectMap (δ × V) (List V)) (d : δ) (v : V) : Prop :=
  (∃ e, b.le d e ∧ (e, v) ∈ path) ∨
    v ∈ out ∧ (b.spent d ∨ next v = none ∨ ∃ e, b.le d e ∧ (memo.get? (e, v)).isSome)

theorem Served.mono {out₁ out₂ : List V} {memo₁ memo₂ : ObjectMap (δ × V) (List V)} {v : V} (hout : out₁ ⊆ out₂)
    (hmemo : ∀ k, (memo₁.get? k).isSome → (memo₂.get? k).isSome) (h : Served next b path out₁ memo₁ d v) :
    Served next b path out₂ memo₂ d v := by
  rcases h with hpath | ⟨hv, hd⟩
  · exact .inl hpath
  · refine .inr ⟨hout hv, hd.imp_right (Or.imp_right ?_)⟩
    rintro ⟨e, he, hk⟩
    exact ⟨e, he, hmemo _ hk⟩

def Settled (next : V → Option (List V)) (b : Budget δ) (path : List (δ × V)) (out : List V)
    (memo memo' : ObjectMap (δ × V) (List V)) : Prop :=
  ∀ d u, (memo'.get? (d, u)).isSome → memo.get? (d, u) = none → ∀ v, Child next u v →
    Served next b path out memo' (b.rest d) v

theorem Expands.settles (h : Expands next b path d cs acc memo out memo') (hpath : ∀ p ∈ path, b.le d p.1) :
    (∀ c ∈ cs, Served next b path out memo' d c) ∧ Settled next b path out memo memo' := by
  induction h with
  | done =>
    refine ⟨List.forall_mem_nil _, fun d u hsome hnone => ?_⟩
    rw [hnone] at hsome
    cases hsome
  | @skip path d c cs acc memo out memo' hc _ ih =>
    obtain ⟨hcs, hset⟩ := ih hpath
    refine ⟨List.forall_mem_cons.2 ⟨?_, hcs⟩, hset⟩
    obtain ⟨p, hp, rfl⟩ := List.mem_map.1 hc
    exact .inl ⟨p.1, hpath p hp, hp⟩
  | @leaf path d c cs acc memo out memo' hc hleaf hrest ih =>
    obtain ⟨hcs, hset⟩ := ih hpath
    refine ⟨List.forall_mem_cons.2 ⟨.inr ⟨hrest.grows.1 (mem_toFront.2 (.inl rfl)), ?_⟩, hcs⟩, hset⟩
    exact hleaf.imp_right .inl
  | @known path d c cs acc memo found out memo' hc hfound hrest ih =>
    obtain ⟨hcs, hset⟩ := ih hpath
    have hgrow := hrest.grows
    refine ⟨List.forall_mem_cons.2 ⟨.inr ⟨hgrow.1 (mem_mergeFront.2 (.inr (mem_toFront.2 (.inl rfl)))), ?_⟩, hcs⟩, hset⟩
    exact .inr (.inr ⟨d, b.refl d, hgrow.2 _ (by rw [hfound]; rfl)⟩)
  | @expand path d c cs acc memo targets found memo₁ out memo' hc hd hn hnone hin hrest ihin ih =>
    obtain ⟨hcs, hset⟩ := ih hpath
    have hgrow := hrest.grows
    have hcout : c ∈ out := hgrow.1 (mem_mergeFront.2 (.inr (mem_toFront.2 (.inl rfl))))
    have hcmemo : (memo'.get? (d, c)).isSome := hgrow.2 _ (by rw [ObjectMap.get?_set_self]; rfl)
    have hmemo₁ : ∀ k, (memo₁.get? k).isSome → (memo'.get? k).isSome := by
      intro k hk
      apply hgrow.2
      rw [ObjectMap.get?_set]
      split
      · rfl
      · exact hk
    obtain ⟨htargets, hsetin⟩ := ihin (List.forall_mem_cons.2 ⟨b.rest_le hd, fun p hp =>
      b.trans (b.rest_le hd) (hpath p hp)⟩)
    -- what was on the path of the inner loop only is the node that the loop was for
    have hlift : ∀ {e v}, Served next b ((d, c) :: path) found memo₁ e v → Served next b path out memo' e v := by
      intro e v hs
      rcases hs with ⟨e', he, hmem⟩ | hs
      · rcases List.mem_cons.1 hmem with heq | hmem
        · cases heq
          exact .inr ⟨hcout, .inr (.inr ⟨d, he, hcmemo⟩)⟩
        · exact .inl ⟨e', he, hmem⟩
      · exact Served.mono (fun v hv => hgrow.1 (mem_mergeFront.2 (.inl hv))) hmemo₁ (.inr hs)
    refine ⟨List.forall_mem_cons.2 ⟨.inr ⟨hcout, .inr (.inr ⟨d, b.refl d, hcmemo⟩)⟩, hcs⟩, ?_⟩
    intro e u hsome hold v hchild
    by_cases hnew : ((memo₁.set (d, c) found).get? (e, u)) = none
    · exact hset e u hsome hnew v hchild
    · by_cases hk : (e, u) = (d, c)
      · cases hk
        obtain ⟨ts, hts, hv⟩ := hchild
        rw [hn] at hts
        cases hts
        exact hlift (htargets v hv)
      · rw [ObjectMap.get?_set_ne _ hk, ← ne_eq, Option.ne_none_iff_isSome] at hnew
        exact hlift (hsetin e u hnew hold v hchild)

inductive Leaves (next : V → Option (List V)) (b : Budget δ) : δ → V → δ → V → Prop
  | refl {d u} : Leaves next b d u d u
  | step {d u w e v} : ¬ b.spent d → Child next u w → Leaves next b (b.rest d) w e v → Leaves next b d u e v

omit [DecidableEq V] [DecidableEq δ] in
theorem Within.leaves {u v : V} (h : Within next b d u v) :
    ∃ e w, Leaves next b d u e w ∧ ¬ b.spent e ∧ Child next w v := by
  induction h with
  | one hd hc => exact ⟨_, _, .refl, hd, hc⟩
  | more hd hc _ ih =>
    obtain ⟨e, w, hw, he, hv⟩ := ih
    exact ⟨e, w, .step hd hc hw, he, hv⟩

omit [DecidableEq V] [DecidableEq δ] in
theorem Leaves.goes_on {u v : V} {e : δ} (h : Leaves next b d u e v) (he : ¬ b.spent e) (hv : next v ≠ none) :
    ¬ b.spent d ∧ next u ≠ none := by
  cases h with
  | refl => exact ⟨he, hv⟩
  | step hd hc =>
    obtain ⟨targets, hn, -⟩ := hc
    exact ⟨hd, by simp [hn]⟩

section Root

variable {start : V} {targets : List V} (hd : ¬ b.spent d) (hn : next start = some targets)
  (h : Expands next b [(d, start)] (b.rest d) targets [] .empty out memo')

include hd hn h

theorem served_of_expanded {e : δ} {u w : V} (hcame : (e, u) = (d, start) ∨ (memo'.get? (e, u)).isSome)
    (hchild : Child next u w) : Served next b [(d, start)] out memo' (b.rest e) w := by
  obtain ⟨hcs, hset⟩ := h.settles (by simpa using b.rest_le hd)
  rcases hcame with heq | hk
  · cases heq
    obtain ⟨ts, hts, hw⟩ := hchild
    rw [hn] at hts
    cases hts
    exact hcs w hw
  · exact hset e u hk (ObjectMap.get?_empty _) w hchild

theorem expanded_of_leaves {e e₁ : δ} {u v : V} (hw : Leaves next b e u e₁ v) (he : ¬ b.spent e₁) (hv : next v ≠ none)
    (hu : ∃ e', b.le e e' ∧ ((e', u) = (d, start) ∨ (memo'.get? (e', u)).isSome)) :
    ∃ e', b.le e₁ e' ∧ ((e', v) = (d, start) ∨ (memo'.get? (e', v)).isSome) := by
  induction hw with
  | refl => exact hu
  | @step e u w e₁ v hspent hchild hw ih =>
    obtain ⟨e', hle, hcame⟩ := hu
    have hrest := b.rest_mono hspent hle
    refine ih he hv ?_
    rcases served_of_expanded hd hn h hcame hchild with ⟨e'', hle'', hmem⟩ | ⟨-, hs | hnone | ⟨e'', hle'', hk⟩⟩
    · exact ⟨e'', b.trans hrest hle'', .inl (List.mem_singleton.1 hmem)⟩
    · exact absurd (b.spent_of_le hrest hs) (hw.goes_on he hv).1
    · exact absurd hnone (hw.goes_on he hv).2
    · exact ⟨e'', b.trans hrest hle'', .inr hk⟩

theorem expands_lists : out.Nodup ∧ ∀ v, v ∈ out ↔ v ≠ start ∧ Within next b d start v := by
  have hstart : start ∈ [(d, start)].map Prod.snd := by simp
  obtain ⟨hnodup, hout, -⟩ := h.sound hstart (fun {d v found} hk => by cases hk) List.nodup_nil
  refine ⟨hnodup, fun v => ⟨(Sound.of_children hd hn hnodup hout).2 v, ?_⟩⟩
  rintro ⟨hne, hw⟩
  obtain ⟨e, u, hu, he, hchild⟩ := hw.leaves
  have hsome : next u ≠ none := by
    obtain ⟨ts, hts, -⟩ := hchild
    simp [hts]
  obtain ⟨e', -, hcame⟩ := expanded_of_leaves hd hn h hu he hsome ⟨d, b.refl d, .inl rfl⟩
  rcases served_of_expanded hd hn h hcame hchild with ⟨e'', -, hmem⟩ | ⟨hmem, -⟩
  · rw [List.mem_singleton] at hmem
    cases hmem
    exact absurd rfl hne
  · exact hmem

end Root

section Order

structure BelowFirst (next : V → Option (List V)) (found : List V) : Prop where
  nodup : found.Nodup
  closed : ∀ u ∈ found, ∀ v, TransGen (Child next) u v → v ∈ found
  pairwise : found.Pairwise fun u v => ¬ TransGen (Child next) u v

omit [DecidableEq V] in
theorem BelowFirst.nil : BelowFirst next [] := by
  refine ⟨List.nodup_nil, ?_, .nil⟩
  intro u hu
  cases hu

theorem BelowFirst.merge {c : V} (hacc : BelowFirst next acc) (hfound : BelowFirst next found)
    (hc : ∀ v, TransGen (Child next) c v → v ∈ found) : BelowFirst next (mergeFront found (toFront acc c)) := by
  have hfront := nodup_toFront hacc.nodup c
  refine ⟨nodup_mergeFront hfront found, ?_, ?_⟩
  · intro u hu v huv
    rw [mem_mergeFront, mem_toFront] at hu ⊢
    rcases hu with hu | rfl | hu
    · exact .inl (hfound.closed u hu v huv)
    · exact .inl (hc v huv)
    · exact .inr (.inr (hacc.closed u hu v huv))
  · rw [mergeFront_eq hfound.nodup hfront]
    apply List.pairwise_append.2
    refine ⟨hfound.pairwise, ?_, ?_⟩
    · rw [toFront, List.filter_cons]
      have hrest := (hacc.pairwise.sublist List.erase_sublist).filter (p := (· ∉ found)) (l := acc.erase c)
      split
      · refine List.pairwise_cons.2 ⟨fun v hv hcv => ?_, hrest⟩
        exact of_decide_eq_true (List.mem_filter.1 hv).2 (hc v hcv)
      · exact hrest
    · intro u hu v hv huv
      exact of_decide_eq_true (List.mem_filter.1 hv).2 (hfound.closed u hu v huv)

def Complete (next : V → Option (List V)) (_ : δ) (u : V) (found : List V) : Prop :=
  BelowFirst next found ∧ ∀ v, TransGen (Child next) u v → v ∈ found

omit [DecidableEq V] [DecidableEq δ] in
theorem Complete.of_children {u : V} {targets : List V} (hn : next u = some targets) (hfound : BelowFirst next found)
    (hall : ∀ c ∈ targets, c ∈ found) : Complete next d u found := by
  refine ⟨hfound, fun v huv => ?_⟩
  obtain ⟨c, ⟨ts, hts, hc⟩, hcv⟩ := TransGen.head'_iff.1 huv
  rw [hn] at hts
  cases hts
  rcases reflTransGen_iff_eq_or_transGen.1 hcv with rfl | hcv
  · exact hall _ hc
  · exact hfound.closed c (hall c hc) v hcv

theorem Expands.ordered (hacyclic : ∀ v, ¬ TransGen (Child next) v v) (h : Expands next b path d cs acc memo out memo')
    (hd : ¬ b.spent d ∧ b.rest d = d) (hpath : ∀ p ∈ path, ∀ c ∈ cs, TransGen (Child next) p.2 c)
    (hmemo : Kept (Complete next) memo) (hacc : BelowFirst next acc) :
    BelowFirst next out ∧ (∀ c ∈ cs, c ∈ out) ∧ Kept (Complete next) memo' := by
  induction h with
  | done => exact ⟨hacc, List.forall_mem_nil _, hmemo⟩
  | @skip path d c cs acc memo out memo' hc _ ih =>
    obtain ⟨p, hp, rfl⟩ := List.mem_map.1 hc
    exact absurd (hpath p hp p.2 List.mem_cons_self) (hacyclic p.2)
  | @leaf path d c cs acc memo out memo' hc hleaf hrest ih =>
    have hnone : next c = none := hleaf.resolve_left hd.1
    have hc : ∀ v, TransGen (Child next) c v → v ∈ ([] : List V) := by
      intro v hcv
      obtain ⟨w, ⟨ts, hts, -⟩, -⟩ := TransGen.head'_iff.1 hcv
      rw [hnone] at hts
      cases hts
    obtain ⟨hout, hcs, hkept⟩ := ih hd (fun p hp a ha => hpath p hp a (List.mem_cons_of_mem _ ha)) hmemo
      (hacc.merge .nil hc)
    exact ⟨hout, List.forall_mem_cons.2 ⟨hrest.grows.1 (mem_toFront.2 (.inl rfl)), hcs⟩, hkept⟩
  | @known path d c cs acc memo found out memo' hc hfound hrest ih =>
    obtain ⟨hbelow, hall⟩ := hmemo hfound
    obtain ⟨hout, hcs, hkept⟩ := ih hd (fun p hp a ha => hpath p hp a (List.mem_cons_of_mem _ ha)) hmemo
      (hacc.merge hbelow hall)
    exact ⟨hout, List.forall_mem_cons.2 ⟨hrest.grows.1 (mem_mergeFront.2 (.inr (mem_toFront.2 (.inl rfl)))), hcs⟩, hkept⟩
  | @expand path d c cs acc memo targets found memo₁ out memo' hc _ hn _ _ hrest ihin ih =>
    have hin : ∀ p ∈ (d, c) :: path, ∀ a ∈ targets, TransGen (Child next) p.2 a := by
      intro p hp a ha
      rcases List.mem_cons.1 hp with rfl | hp
      · exact .single ⟨targets, hn, ha⟩
      · exact (hpath p hp c List.mem_cons_self).tail ⟨targets, hn, ha⟩
    obtain ⟨hbelow, hall, hkeptin⟩ := ihin ⟨by rw [hd.2]; exact hd.1, by rw [hd.2]; exact hd.2⟩ hin hmemo .nil
    have hfound : Complete next d c found := .of_children hn hbelow hall
    obtain ⟨hout, hcs, hkept⟩ := ih hd (fun p hp a ha => hpath p hp a (List.mem_cons_of_mem _ ha))
      (hkeptin.set hfound) (hacc.merge hbelow hfound.2)
    exact ⟨hout, List.forall_mem_cons.2 ⟨hrest.grows.1 (mem_mergeFront.2 (.inr (mem_toFront.2 (.inl rfl)))), hcs⟩, hkept⟩

theorem BelowFirst.idxOf_lt (h : BelowFirst next found) (hacyclic : ∀ v, ¬ TransGen (Child next) v v)
    {u v : V} (hu : u ∈ found) (huv : TransGen (Child next) u v) : found.idxOf v < found.idxOf u := by
  have hv := h.closed u hu v huv
  rcases Nat.lt_trichotomy (found.idxOf v) (found.idxOf u) with hlt | heq | hgt
  · exact hlt
  · rw [List.idxOf_inj hv] at heq
    exact absurd (heq ▸ huv) (hacyclic u)
  · have hpair := List.pairwise_iff_getElem.1 h.pairwise _ _ (List.idxOf_lt_length_of_mem hu)
      (List.idxOf_lt_length_of_mem hv) hgt
    rw [List.getElem_idxOf, List.getElem_idxOf] at hpair
    exact absurd huv hpair

end Order

end Expansion

end N8n.Lib
