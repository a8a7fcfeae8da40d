import N8n.Lib.Search

namespace N8n.Lib

open Relation

variable {α σ : Type} [DecidableEq α]

/-- The nodes of the branch, the finished nodes with the last one first, and what the recorded edges were made into. -/
structure BranchSearch (α σ : Type) where
  visiting : List α
  visited : List α
  result : σ

namespace BranchSearch

/-- The turn for the edge from `a` to `b`, given how a node is visited. -/
def turn (record : α → α → σ → σ) (visit : α → BranchSearch α σ → BranchSearch α σ) (a : α) (ancestors : List α)
    (s : BranchSearch α σ) (b : α) : BranchSearch α σ :=
  if b ∈ ancestors then { s with result := record a b s.result }
  else if b ∈ s.visited then s
  else visit b s

def enter (s : BranchSearch α σ) (a : α) : BranchSearch α σ := { s with visiting := a :: s.visiting }

def finish (s : BranchSearch α σ) (a : α) : BranchSearch α σ :=
  { s with visiting := s.visiting.filter (· ≠ a), visited := a :: s.visited }

/-- The fuel bounds the depth. -/
def dfs (next : α → List α) (record : α → α → σ → σ) : Nat → α → List α → BranchSearch α σ → BranchSearch α σ
  | 0, _, _, s => s
  | fuel + 1, a, ancestors, s =>
    if a ∈ s.visited ∨ a ∈ s.visiting then s
    else
      ((next a).foldl (turn record (fun b => dfs next record fuel b (a :: ancestors)) a ancestors)
        (s.enter a)).finish a

def searchAll (next : α → List α) (record : α → α → σ → σ) (fuel : Nat) (starts : List α) (s : BranchSearch α σ) :
    BranchSearch α σ := starts.foldl (fun s a => dfs next record fuel a [] s) s

/-- The search that lists the recorded edges, the last one first. -/
abbrev listing : α → α → List (α × α) → List (α × α) := fun a b edges => (a, b) :: edges

def replay (record : α → α → σ → σ) (g : σ) (s : BranchSearch α (List (α × α))) : BranchSearch α σ :=
  ⟨s.visiting, s.visited, s.result.foldr (fun e g => record e.1 e.2 g) g⟩

theorem turn_replay (record : α → α → σ → σ) (g : σ)
    {visit : α → BranchSearch α (List (α × α)) → BranchSearch α (List (α × α))}
    {visit' : α → BranchSearch α σ → BranchSearch α σ}
    (hvisit : ∀ b s, visit' b (replay record g s) = replay record g (visit b s)) (a : α) (ancestors : List α)
    (s : BranchSearch α (List (α × α))) (b : α) :
    turn record visit' a ancestors (s.replay record g) b = (turn listing visit a ancestors s b).replay record g := by
  rw [turn, turn, show (s.replay record g).visited = s.visited from rfl]
  split
  · rfl
  · split
    · rfl
    · exact hvisit b s

theorem dfs_replay (next : α → List α) (record : α → α → σ → σ) (g : σ) (fuel : Nat) (a : α) (ancestors : List α)
    (s : BranchSearch α (List (α × α))) :
    dfs next record fuel a ancestors (s.replay record g) = (dfs next listing fuel a ancestors s).replay record g := by
  induction fuel generalizing a ancestors s with
  | zero => rfl
  | succ fuel ih =>
    rw [dfs, dfs, show (s.replay record g).visited = s.visited from rfl,
      show (s.replay record g).visiting = s.visiting from rfl]
    split
    · rfl
    · refine congrArg (finish · a) (@List.foldl_hom _ _ _ (replay record g) _ _ (next a) (s.enter a) fun s b => ?_)
      exact turn_replay record g (fun b s => ih b (a :: ancestors) s) a ancestors s b

theorem searchAll_replay (next : α → List α) (record : α → α → σ → σ) (g : σ) (fuel : Nat) (starts : List α)
    (s : BranchSearch α (List (α × α))) :
    searchAll next record fuel starts (s.replay record g) = (searchAll next listing fuel starts s).replay record g :=
  List.foldl_hom (replay record g) fun s a => dfs_replay next record g fuel a [] s

section Correctness

variable {next : α → List α} {bound ancestors : List α} {edges edges' : List (α × α)} {a b : α}
  {s s' : BranchSearch α (List (α × α))}

def Finished (next : α → List α) (edges : List (α × α)) : List α → Prop
  | [] => True
  | a :: visited => (∀ b ∈ next a, b = a ∨ (a, b) ∈ edges ∨ b ∈ visited) ∧ a ∉ visited ∧ Finished next edges visited

omit [DecidableEq α] in
theorem Finished.mono {visited : List α} (h : Finished next edges visited) (he : edges ⊆ edges') :
    Finished next edges' visited := by
  induction visited with
  | nil => trivial
  | cons a visited ih => exact ⟨fun b hb => (h.1 b hb).imp_right (.imp_left (@he _)), h.2.1, ih h.2.2⟩

structure Inv (next : α → List α) (ancestors : List α) (s : BranchSearch α (List (α × α))) : Prop where
  visiting : ∀ b, b ∈ s.visiting ↔ b ∈ ancestors
  apart : ∀ b ∈ s.visited, b ∉ ancestors
  finished : Finished next s.result s.visited
  sound : ∀ e ∈ s.result, e.2 ∈ next e.1 ∧ e.2 ≠ e.1 ∧ ReflTransGen (Step next) e.2 e.1

structure Grows (s s' : BranchSearch α (List (α × α))) : Prop where
  visited : s.visited ⊆ s'.visited
  result : s.result ⊆ s'.result

omit [DecidableEq α] in
theorem Grows.refl (s : BranchSearch α (List (α × α))) : Grows s s := ⟨List.Subset.refl _, List.Subset.refl _⟩

omit [DecidableEq α] in
theorem Grows.trans {s'' : BranchSearch α (List (α × α))} (h : Grows s s') (h' : Grows s' s'') : Grows s s'' :=
  ⟨fun _ hm => h'.visited (h.visited hm), fun _ hm => h'.result (h.result hm)⟩

def unvisited (bound : List α) (s : BranchSearch α (List (α × α))) : Finset α :=
  bound.toFinset.filter fun a => a ∉ s.visited ∧ a ∉ s.visiting

theorem Inv.unvisited_subset (h : Inv next ancestors s) (h' : Inv next ancestors s') (hg : Grows s s')
    (bound : List α) :
    unvisited bound s' ⊆ unvisited bound s := by
  intro b hb
  obtain ⟨hbound, hv, hi⟩ := Finset.mem_filter.1 hb
  exact Finset.mem_filter.2 ⟨hbound, fun hm => hv (hg.visited hm), fun hm => hi
    ((h'.visiting b).2 ((h.visiting b).1 hm))⟩

theorem card_unvisited_enter (ha : a ∈ bound) (hv : a ∉ s.visited) (hi : a ∉ s.visiting) :
    (unvisited bound (s.enter a)).card < (unvisited bound s).card := by
  apply Finset.card_lt_card
  refine (Finset.ssubset_iff_of_subset fun b hb => ?_).2 ⟨a, ?_, fun hm => ?_⟩
  · obtain ⟨hbound, hv', hi'⟩ := Finset.mem_filter.1 hb
    exact Finset.mem_filter.2 ⟨hbound, hv', fun hm => hi' (List.mem_cons_of_mem _ hm)⟩
  · exact Finset.mem_filter.2 ⟨List.mem_toFinset.2 ha, hv, hi⟩
  · exact (Finset.mem_filter.1 hm).2.2 List.mem_cons_self

omit [DecidableEq α] in
theorem Inv.enter (h : Inv next ancestors s) (ha : a ∉ s.visited) : Inv next (a :: ancestors) (s.enter a) := by
  refine ⟨fun b => ?_, fun b hb hm => ?_, h.finished, h.sound⟩
  · exact List.mem_cons.trans (Iff.trans (or_congr_right (h.visiting b)) List.mem_cons.symm)
  · rcases List.mem_cons.1 hm with rfl | hm
    · exact ha hb
    · exact h.apart b hb hm

theorem Inv.finish (h : Inv next (a :: ancestors) s) (ha : a ∉ ancestors)
    (htargets : ∀ b ∈ next a, b = a ∨ (a, b) ∈ s.result ∨ b ∈ s.visited) : Inv next ancestors (s.finish a) := by
  have hnew : a ∉ s.visited := fun hm => h.apart a hm List.mem_cons_self
  refine ⟨fun b => ?_, fun b hb hm => ?_, ⟨htargets, hnew, h.finished⟩, h.sound⟩
  · simp only [BranchSearch.finish, List.mem_filter, h.visiting, List.mem_cons, decide_eq_true_eq]
    constructor
    · rintro ⟨rfl | hb, hne⟩
      · exact absurd rfl hne
      · exact hb
    · exact fun hb => ⟨.inr hb, fun he => ha (he ▸ hb)⟩
  · rcases List.mem_cons.1 hb with rfl | hb
    · exact ha hm
    · exact h.apart b hb (List.mem_cons_of_mem _ hm)

structure Visits (next : α → List α) (ancestors : List α) (a : α) (s s' : BranchSearch α (List (α × α))) : Prop where
  inv : Inv next ancestors s'
  grows : Grows s s'
  done : a ∈ s'.visited ∨ a ∈ ancestors

theorem Inv.turns {visit : α → BranchSearch α (List (α × α)) → BranchSearch α (List (α × α))} {bs : List α}
    (hvisit : ∀ b ∈ bs, ∀ s', Inv next (a :: ancestors) s' → Grows s s' → Visits next (a :: ancestors) b s'
      (visit b s'))
    (hbs : bs ⊆ next a) (hnew : a ∉ ancestors) (hreach : ∀ g ∈ ancestors, ReflTransGen (Step next) g a)
    (h : Inv next (a :: ancestors) s) :
    let s' := bs.foldl (turn listing visit a ancestors) s
    Inv next (a :: ancestors) s' ∧ Grows s s' ∧ ∀ b ∈ bs, b = a ∨ (a, b) ∈ s'.result ∨ b ∈ s'.visited := by
  induction bs generalizing s with
  | nil => exact ⟨h, .refl s, fun b hb => absurd hb List.not_mem_nil⟩
  | cons b bs ih =>
    obtain ⟨hb, hbs⟩ := List.cons_subset.1 hbs
    have hturn : Inv next (a :: ancestors) (turn listing visit a ancestors s b) ∧
        Grows s (turn listing visit a ancestors s b) ∧
          (b = a ∨ (a, b) ∈ (turn listing visit a ancestors s b).result ∨
          b ∈ (turn listing visit a ancestors s b).visited) := by
      rw [turn]
      split
      · next hanc =>
        refine ⟨⟨h.visiting, h.apart, h.finished.mono (List.subset_cons_self _ _), ?_⟩, ⟨List.Subset.refl _, ?_⟩,
          ?_⟩
        · exact List.forall_mem_cons.2 ⟨⟨hb, fun he : b = a => hnew (he ▸ hanc), hreach b hanc⟩, h.sound⟩
        · exact List.subset_cons_self _ _
        · exact .inr (.inl List.mem_cons_self)
      · next hanc =>
        split
        · next hv => exact ⟨h, .refl s, .inr (.inr hv)⟩
        · obtain ⟨hinv, hgrows, hdone⟩ := hvisit b List.mem_cons_self s h (.refl s)
          refine ⟨hinv, hgrows, ?_⟩
          rcases hdone with hdone | hdone
          · exact .inr (.inr hdone)
          · exact .inl ((List.mem_cons.1 hdone).resolve_right hanc)
    obtain ⟨hinv, hgrows, hdone⟩ := hturn
    obtain ⟨hinv', hgrows', hdone'⟩ := ih (fun c hc s' hs' hg => hvisit c (List.mem_cons_of_mem _ hc) s' hs'
      (hgrows.trans hg)) hbs hinv
    refine ⟨hinv', hgrows.trans hgrows', List.forall_mem_cons.2 ⟨?_, hdone'⟩⟩
    exact hdone.imp_right (.imp (@hgrows'.result _) (@hgrows'.visited _))

theorem Inv.dfs {fuel : Nat} (hbound : ∀ b, b ∉ bound → next b = []) (h : Inv next ancestors s)
    (hreach : ∀ g ∈ ancestors, ReflTransGen (Step next) g a) (hfuel : (unvisited bound s).card < fuel) :
    Visits next ancestors a s (dfs next listing fuel a ancestors s) := by
  induction fuel generalizing a ancestors s with
  | zero => exact absurd hfuel (Nat.not_lt_zero _)
  | succ fuel ih =>
    rw [BranchSearch.dfs]
    split
    · next hseen => exact ⟨h, .refl s, hseen.imp_right (h.visiting a).1⟩
    · next hseen =>
      obtain ⟨hv, hi⟩ := not_or.1 hseen
      have hnew : a ∉ ancestors := fun hm => hi ((h.visiting a).2 hm)
      have henter := h.enter hv
      have hvisit : ∀ b ∈ next a, ∀ s', Inv next (a :: ancestors) s' → Grows (s.enter a) s' →
          Visits next (a :: ancestors) b s' (BranchSearch.dfs next listing fuel b (a :: ancestors) s') := by
        intro b hb s' hs' hg
        have ha : a ∈ bound := by
          by_contra hm
          rw [hbound a hm] at hb
          exact List.not_mem_nil hb
        refine ih hs' (fun g hg => ?_) ?_
        · rcases List.mem_cons.1 hg with rfl | hg
          · exact .single hb
          · exact (hreach g hg).tail hb
        · exact (Finset.card_le_card (henter.unvisited_subset hs' hg bound)).trans_lt
            ((card_unvisited_enter ha hv hi).trans_le (Nat.le_of_lt_succ hfuel))
      obtain ⟨hinv, hgrows, htargets⟩ := Inv.turns hvisit (List.Subset.refl _) hnew hreach henter
      exact ⟨hinv.finish hnew htargets, ⟨fun _ hm => List.mem_cons_of_mem _ (hgrows.visited hm), hgrows.result⟩,
        .inl List.mem_cons_self⟩

def fresh : BranchSearch α (List (α × α)) := ⟨[], [], []⟩

omit [DecidableEq α] in
theorem Inv.fresh : Inv next [] fresh :=
  ⟨fun _ => Iff.rfl, fun _ hb => absurd hb List.not_mem_nil, trivial, fun _ he => absurd he List.not_mem_nil⟩

theorem Inv.searchAll {fuel : Nat} {starts : List α} (hbound : ∀ b, b ∉ bound → next b = [])
    (hfuel : bound.toFinset.card < fuel) (h : Inv next [] s) :
    let s' := searchAll next listing fuel starts s
    Inv next [] s' ∧ Grows s s' ∧ ∀ a ∈ starts, a ∈ s'.visited := by
  induction starts generalizing s with
  | nil => exact ⟨h, .refl s, fun a ha => absurd ha List.not_mem_nil⟩
  | cons a starts ih =>
    obtain ⟨hinv, hgrows, hdone⟩ := Inv.dfs (a := a) hbound h (fun g hg => absurd hg List.not_mem_nil)
      ((Finset.card_filter_le _ _).trans_lt hfuel)
    obtain ⟨hinv', hgrows', hdone'⟩ := ih hinv
    refine ⟨hinv', hgrows.trans hgrows', List.forall_mem_cons.2 ⟨?_, hdone'⟩⟩
    exact hgrows'.visited (hdone.resolve_right List.not_mem_nil)

def Uncut (next : α → List α) (edges : List (α × α)) (a b : α) : Prop := b ∈ next a ∧ b ≠ a ∧ (a, b) ∉ edges

theorem Finished.uncut {visited : List α} (h : Finished next edges visited) (ha : a ∈ visited)
    (hab : Uncut next edges a b) : b ∈ visited ∧ visited.idxOf a < visited.idxOf b := by
  obtain ⟨hb, hne, hcut⟩ := hab
  induction visited with
  | nil => exact absurd ha List.not_mem_nil
  | cons c visited ih =>
    have hcons : b ∈ visited → b ∈ c :: visited ∧ (c :: visited).idxOf b = visited.idxOf b + 1 := fun hm =>
      ⟨List.mem_cons_of_mem _ hm, List.idxOf_cons_ne _ fun hc => h.2.1 (by rwa [hc])⟩
    rcases List.mem_cons.1 ha with rfl | ha
    · obtain ⟨hm, hidx⟩ := hcons (((h.1 b hb).resolve_left hne).resolve_left hcut)
      exact ⟨hm, by rw [List.idxOf_cons_self, hidx]; exact Nat.succ_pos _⟩
    · obtain ⟨hm, hlt⟩ := ih h.2.2 ha
      obtain ⟨hm, hidx⟩ := hcons hm
      refine ⟨hm, ?_⟩
      rw [List.idxOf_cons_ne _ (fun hc => h.2.1 (by rwa [hc])), hidx]
      exact Nat.succ_lt_succ hlt

theorem Finished.transGen {visited : List α} (h : Finished next edges visited) (ha : a ∈ visited)
    (hab : TransGen (Uncut next edges) a b) : b ∈ visited ∧ visited.idxOf a < visited.idxOf b := by
  induction hab with
  | single hab => exact h.uncut ha hab
  | tail _ hbc ih =>
    obtain ⟨hb, hlt⟩ := ih
    obtain ⟨hc, hlt'⟩ := h.uncut hb hbc
    exact ⟨hc, hlt.trans hlt'⟩

theorem searchAll_spec {fuel : Nat} {starts : List α} (hstarts : ∀ b, b ∉ starts → next b = [])
    (hbound : ∀ b, b ∉ bound → next b = []) (hfuel : bound.toFinset.card < fuel) :
    let edges := (searchAll next listing fuel starts fresh).result
    (∀ a, ¬ TransGen (Uncut next edges) a a) ∧
      ∀ e ∈ edges, e.2 ∈ next e.1 ∧ e.2 ≠ e.1 ∧ ReflTransGen (Step next) e.2 e.1 := by
  obtain ⟨hinv, -, hdone⟩ := @Inv.searchAll _ _ _ _ _ _ starts hbound hfuel (.fresh)
  refine ⟨fun a h => ?_, hinv.sound⟩
  obtain ⟨b, hab, -⟩ := TransGen.head'_iff.1 h
  have ha : a ∈ starts := by
    by_contra hm
    rw [Uncut, hstarts a hm] at hab
    exact List.not_mem_nil hab.1
  exact lt_irrefl _ (hinv.finished.transGen (hdone a ha) h).2

end Correctness

end BranchSearch

end N8n.Lib
