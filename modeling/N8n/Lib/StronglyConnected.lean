import N8n.Lib.ObjectMap
import N8n.Lib.Search

namespace N8n.Lib

open Relation

variable {α : Type} [DecidableEq α] {bs bound : List α}

def Connected (next : α → List α) (a b : α) : Prop :=
  ReflTransGen (Step next) a b ∧ ReflTransGen (Step next) b a

/-- What the search remembers. The stack has the last pushed node first. -/
structure SccState (α : Type) where
  indexById : α → Option Nat
  lowlinkById : α → Nat
  stack : List α
  membership : ObjectMap α (OrderedSet α)
  nextIndex : Nat

namespace SccState

def setLowlink (s : SccState α) (a : α) (n : Nat) : SccState α :=
  { s with lowlinkById := Function.update s.lowlinkById a n }

def enter (s : SccState α) (a : α) : SccState α :=
  { s with
    indexById := Function.update s.indexById a (some s.nextIndex)
    lowlinkById := Function.update s.lowlinkById a s.nextIndex
    stack := a :: s.stack
    nextIndex := s.nextIndex + 1 }

def popTo (a : α) : List α → List α × List α
  | [] => ([], [])
  | b :: stack => if b = a then ([b], stack) else (b :: (popTo a stack).1, (popTo a stack).2)

def leave (s : SccState α) (a : α) : SccState α :=
  if some (s.lowlinkById a) = s.indexById a then
    let members := OrderedSet.ofList (popTo a s.stack).1
    { s with
      stack := (popTo a s.stack).2
      membership := members.items.foldl (fun m b => m.set b members) s.membership }
  else s

/-- Follow the edges of a node; `connect` visits the targets not seen yet. -/
def follow (connect : α → SccState α → SccState α) (a : α) : List α → SccState α → SccState α
  | [], s => s
  | b :: bs, s =>
    match s.indexById b with
    | none =>
      let s' := connect b s
      follow connect a bs (s'.setLowlink a (min (s'.lowlinkById a) (s'.lowlinkById b)))
    | some n => follow connect a bs (if b ∈ s.stack then s.setLowlink a (min (s.lowlinkById a) n) else s)

/-- Visit a node and everything it leads to. The fuel bounds the depth of the search. -/
def connect (next : α → List α) : Nat → α → SccState α → SccState α
  | 0, _, s => s
  | fuel + 1, a, s => (follow (connect next fuel) a (next a) (s.enter a)).leave a

def empty : SccState α := ⟨fun _ => none, fun _ => 0, [], .empty, 0⟩

section Correctness

variable {next : α → List α} {opened : List α} {s s' s₀ : SccState α} {a b : α}

def Seen (s : SccState α) (a : α) : Prop := (s.indexById a).isSome = true

def num (s : SccState α) (a : α) : Nat := (s.indexById a).getD 0

structure Inv (next : α → List α) (opened : List α) (s : SccState α) : Prop where
  opened_stack : ∀ a ∈ opened, a ∈ s.stack
  seen_iff : ∀ a, s.Seen a ↔ a ∈ s.stack ∨ (s.membership.get? a).isSome = true
  sorted : s.stack.Pairwise fun a b => s.num b < s.num a
  bounded : ∀ a ∈ s.stack, s.num a < s.nextIndex
  leads : ∀ a ∈ s.stack, ∀ b ∈ s.stack, s.num a ≤ s.num b → ReflTransGen (Step next) a b
  returns : ∀ b ∈ s.stack, ∃ a ∈ opened, s.num a ≤ s.num b ∧ ReflTransGen (Step next) b a
  closed : ∀ a, s.Seen a → a ∉ opened → ∀ b ∈ next a, s.Seen b
  assigned : ∀ a c, s.membership.get? a = some c → a ∉ s.stack ∧ ∀ b, b ∈ c ↔ Connected next a b
  whole : ∀ a b, (s.membership.get? a).isSome = true → Connected next a b → (s.membership.get? b).isSome = true

structure Grows (s s' : SccState α) : Prop where
  index : ∀ a, s.Seen a → s'.indexById a = s.indexById a
  lowlink : ∀ a, s.Seen a → s'.lowlinkById a = s.lowlinkById a
  nextIndex : s.nextIndex ≤ s'.nextIndex

omit [DecidableEq α] in
theorem Grows.refl (s : SccState α) : Grows s s := ⟨fun _ _ => rfl, fun _ _ => rfl, Nat.le_refl _⟩

omit [DecidableEq α] in
theorem Grows.seen (hg : Grows s s') (ha : s.Seen a) : s'.Seen a := by
  rw [Seen, hg.index a ha]
  exact ha

omit [DecidableEq α] in
theorem Grows.num_eq (hg : Grows s s') (ha : s.Seen a) : s'.num a = s.num a := by
  rw [num, num, hg.index a ha]

theorem Inv.seen (hi : Inv next opened s) (ha : a ∈ s.stack) : s.Seen a := (hi.seen_iff a).2 (.inl ha)

/-- The search of the targets `bs` of the node `a` is still to come. -/
structure Visiting (next : α → List α) (opened : List α) (s₀ : SccState α) (a : α) (bs : List α) (s : SccState α) :
    Prop where
  inv : Inv next (a :: opened) s
  grows : Grows s₀ s
  index : s.indexById a = some s₀.nextIndex
  lowlink_le : s.lowlinkById a ≤ s₀.nextIndex
  pushed : ∃ front, s.stack = front ++ a :: s₀.stack ∧
    ∀ b ∈ front, ∀ c ∈ next b, c ∈ s₀.stack → s.lowlinkById a ≤ s₀.num c
  target : ∃ b ∈ s.stack, ReflTransGen (Step next) a b ∧ s.num b = s.lowlinkById a
  passed : ∀ b ∈ next a, b ∈ bs ∨ s.Seen b ∧ (b ∈ s₀.stack → s.lowlinkById a ≤ s₀.num b)

/-- What a visit of the node `a` leaves behind: its component is assigned, or it can get below the node. -/
structure Visited (next : α → List α) (opened : List α) (s₀ : SccState α) (a : α) (s : SccState α) : Prop where
  inv : Inv next opened s
  grows : Grows s₀ s
  seen : s.Seen a
  result : s.stack = s₀.stack ∧ s₀.nextIndex ≤ s.lowlinkById a ∨
    ∃ front, s.stack = front ++ a :: s₀.stack ∧
      (∀ b ∈ front ++ [a], ∀ c ∈ next b, c ∈ s₀.stack → s.lowlinkById a ≤ s₀.num c) ∧
      ∃ b ∈ s.stack, ReflTransGen (Step next) a b ∧ s.num b = s.lowlinkById a

theorem Inv.setLowlink (hi : Inv next opened s) (a : α) (n : Nat) : Inv next opened (s.setLowlink a n) :=
  ⟨hi.opened_stack, hi.seen_iff, hi.sorted, hi.bounded, hi.leads, hi.returns, hi.closed, hi.assigned, hi.whole⟩

theorem Inv.enter (hi : Inv next opened s) (ha : ¬ s.Seen a) (hreach : ∀ g ∈ opened, ReflTransGen (Step next) g a) :
    Visiting next opened s a (next a) (s.enter a) := by
  have hstack : ∀ b ∈ s.stack, b ≠ a := fun b hb he => ha (he ▸ hi.seen hb)
  have hindex : ∀ b, b ≠ a → (s.enter a).indexById b = s.indexById b := fun b hb => Function.update_of_ne hb _ _
  have hself : (s.enter a).indexById a = some s.nextIndex := Function.update_self _ _ _
  have hnum : ∀ b, b ≠ a → (s.enter a).num b = s.num b := fun b hb => by rw [num, num, hindex b hb]
  have hnumself : (s.enter a).num a = s.nextIndex := by rw [num, hself, Option.getD_some]
  have hseen : ∀ b, (s.enter a).Seen b ↔ b = a ∨ s.Seen b := by
    intro b
    by_cases hb : b = a
    · rw [Seen, hb, hself]
      exact ⟨fun _ => .inl rfl, fun _ => rfl⟩
    · rw [Seen, hindex b hb]
      exact ⟨.inr, fun h => h.resolve_left hb⟩
  have hne : ∀ b, s.Seen b → b ≠ a := fun b hb he => ha (he ▸ hb)
  have hlow : (s.enter a).lowlinkById a = s.nextIndex := Function.update_self _ _ _
  have htop : ∀ b ∈ s.stack, (s.enter a).num b < (s.enter a).num a := by
    intro b hb
    rw [hnumself, hnum b (hstack b hb)]
    exact hi.bounded b hb
  refine
    { inv :=
        { opened_stack := ?_
          seen_iff := ?_
          sorted := ?_
          bounded := ?_
          leads := ?_
          returns := ?_
          closed := ?_
          assigned := ?_
          whole := hi.whole }
      grows := ⟨fun b hb => hindex b (hne b hb), fun b hb => Function.update_of_ne (hne b hb) _ _, Nat.le_succ _⟩
      index := hself
      lowlink_le := hlow.le
      pushed := ⟨[], rfl, fun b hb => nomatch hb⟩
      target := ⟨a, List.mem_cons_self, .refl, hnumself.trans hlow.symm⟩
      passed := fun b hb => .inl hb }
  · intro g hg
    rcases List.mem_cons.1 hg with rfl | hg
    · exact List.mem_cons_self
    · exact List.mem_cons_of_mem _ (hi.opened_stack g hg)
  · intro b
    rw [hseen, hi.seen_iff, SccState.enter, List.mem_cons, or_assoc]
  · refine List.pairwise_cons.2 ⟨htop, hi.sorted.imp_of_mem fun hb hc hlt => ?_⟩
    rwa [hnum _ (hstack _ hb), hnum _ (hstack _ hc)]
  · intro b hb
    rcases List.mem_cons.1 hb with rfl | hb
    · rw [hnumself]
      exact Nat.lt_succ_self _
    · rw [hnum b (hstack b hb)]
      exact Nat.lt_succ_of_lt (hi.bounded b hb)
  · intro b hb c hc hle
    rcases List.mem_cons.1 hb with hba | hb'
    · rcases List.mem_cons.1 hc with hca | hc'
      · rw [hba, hca]
      · rw [hba] at hle
        exact absurd (htop c hc') (Nat.not_lt.2 hle)
    · rcases List.mem_cons.1 hc with hca | hc'
      · obtain ⟨g, hg, -, hr⟩ := hi.returns b hb'
        rw [hca]
        exact hr.trans (hreach g hg)
      · rw [hnum b (hstack b hb'), hnum c (hstack c hc')] at hle
        exact hi.leads b hb' c hc' hle
  · intro b hb
    rcases List.mem_cons.1 hb with rfl | hb
    · exact ⟨b, List.mem_cons_self, Nat.le_refl _, .refl⟩
    · obtain ⟨g, hg, hle, hr⟩ := hi.returns b hb
      refine ⟨g, List.mem_cons_of_mem _ hg, ?_, hr⟩
      rwa [hnum g (hstack g (hi.opened_stack g hg)), hnum b (hstack b hb)]
  · intro b hb hopen c hc
    have hba : b ≠ a := fun he => hopen (he ▸ List.mem_cons_self)
    have hb' := ((hseen b).1 hb).resolve_left hba
    exact (hseen c).2 (.inr (hi.closed b hb' (fun h => hopen (List.mem_cons_of_mem _ h)) c hc))
  · intro b c hc
    obtain ⟨hstk, hmem⟩ := hi.assigned b c hc
    refine ⟨fun hb => ?_, hmem⟩
    rcases List.mem_cons.1 hb with hba | hb'
    · exact hne b ((hi.seen_iff b).2 (.inr (Option.isSome_iff_exists.2 ⟨c, hc⟩))) hba
    · exact hstk hb'

theorem Visiting.lower (hv : Visiting next opened s₀ a (b :: bs) s) (hfresh : ¬ s₀.Seen a)
    (hgrows : Grows s s') (hinv : Inv next (a :: opened) s') (hseen : s'.Seen b) {n : Nat} (hle : n ≤ s.lowlinkById a)
    (hpushed : ∃ front, s'.stack = front ++ a :: s₀.stack ∧ ∀ b ∈ front, ∀ c ∈ next b, c ∈ s₀.stack → n ≤ s₀.num c)
    (htarget : ∃ b ∈ s'.stack, ReflTransGen (Step next) a b ∧ s'.num b = n)
    (hpassed : b ∈ s₀.stack → n ≤ s₀.num b) : Visiting next opened s₀ a bs (s'.setLowlink a n) := by
  have hlow : (s'.setLowlink a n).lowlinkById a = n := Function.update_self _ _ _
  have hself : s.Seen a := by rw [Seen, hv.index]; rfl
  refine
    { inv := hinv.setLowlink a n
      grows := ⟨fun c hc => (hgrows.index c (hv.grows.seen hc)).trans (hv.grows.index c hc), fun c hc => ?_,
        hv.grows.nextIndex.trans hgrows.nextIndex⟩
      index := (hgrows.index a hself).trans hv.index
      lowlink_le := hlow.le.trans (hle.trans hv.lowlink_le)
      pushed := ?_
      target := ?_
      passed := fun c hc => ?_ }
  · have hne : c ≠ a := fun he => hfresh (he ▸ hc)
    exact ((Function.update_of_ne hne _ _).trans (hgrows.lowlink c (hv.grows.seen hc))).trans (hv.grows.lowlink c hc)
  · rw [hlow]
    exact hpushed
  · rw [hlow]
    exact htarget
  · rw [hlow]
    rcases hv.passed c hc with hmem | ⟨hc', hbound⟩
    · rcases List.mem_cons.1 hmem with rfl | hmem
      · exact .inr ⟨hseen, hpassed⟩
      · exact .inl hmem
    · exact .inr ⟨hgrows.seen hc', fun hs => hle.trans (hbound hs)⟩

theorem Visiting.num_lt (hv : Visiting next opened s₀ a bs s) : s₀.nextIndex < s.nextIndex := by
  have hself := hv.inv.bounded a (hv.inv.opened_stack a List.mem_cons_self)
  rwa [num, hv.index] at hself

theorem Visiting.follow {connect : α → SccState α → SccState α} (h₀ : Inv next opened s₀)
    (hfresh : ¬ s₀.Seen a) (hbs : ∀ b ∈ bs, b ∈ next a)
    (hconnect : ∀ b ∈ next a, ∀ s bs, Visiting next opened s₀ a bs s → ¬ s.Seen b →
      Visited next (a :: opened) s b (connect b s))
    (hv : Visiting next opened s₀ a bs s) : Visiting next opened s₀ a [] (follow connect a bs s) := by
  induction bs generalizing s with
  | nil => exact hv
  | cons b bs ih =>
    have hb := hbs b List.mem_cons_self
    have hbs' : ∀ c ∈ bs, c ∈ next a := fun c hc => hbs c (List.mem_cons_of_mem _ hc)
    have hself : s.Seen a := by rw [Seen, hv.index]; rfl
    obtain ⟨front, hstack, hfront⟩ := hv.pushed
    obtain ⟨t, ht, hreach, hnum⟩ := hv.target
    rw [SccState.follow]
    cases hindex : s.indexById b with
    | none =>
      have hunseen : ¬ s.Seen b := by rw [Seen, hindex]; exact Bool.false_ne_true
      have hvisited := hconnect b hb s (b :: bs) hv hunseen
      have hlow := hvisited.grows.lowlink a hself
      refine ih hbs' ?_
      rw [hlow]
      refine hv.lower hfresh hvisited.grows hvisited.inv hvisited.seen (Nat.min_le_left _ _) ?_ ?_ fun hs =>
        absurd (hv.grows.seen (h₀.seen hs)) hunseen
      · rcases hvisited.result with ⟨hsame, -⟩ | ⟨front', hstack', hfront', -⟩
        · exact ⟨front, hsame.trans hstack, fun c hc d hd hs => (Nat.min_le_left _ _).trans (hfront c hc d hd hs)⟩
        · refine ⟨front' ++ b :: front, by rw [hstack', hstack, List.append_assoc]; rfl, fun c hc d hd hs => ?_⟩
          have hs' : d ∈ s.stack := by
            rw [hstack]
            exact List.mem_append_right _ (List.mem_cons_of_mem _ hs)
          have hd' : s.num d = s₀.num d := hv.grows.num_eq (h₀.seen hs)
          rcases List.mem_append.1 hc with hc | hc
          · exact (Nat.min_le_right _ _).trans (hd' ▸ hfront' c (List.mem_append_left _ hc) d hd hs')
          · rcases List.mem_cons.1 hc with rfl | hc
            · exact (Nat.min_le_right _ _).trans
                (hd' ▸ hfront' c (List.mem_append_right _ List.mem_cons_self) d hd hs')
            · exact (Nat.min_le_left _ _).trans (hfront c hc d hd hs)
      · have hold : t ∈ (connect b s).stack ∧ (connect b s).num t = s.lowlinkById a := by
          refine ⟨?_, (hvisited.grows.num_eq (hv.inv.seen ht)).trans hnum⟩
          rcases hvisited.result with ⟨hsame, -⟩ | ⟨front', hstack', -⟩
          · rwa [hsame]
          · rw [hstack']
            exact List.mem_append_right _ (List.mem_cons_of_mem _ ht)
        rcases hvisited.result with ⟨-, hle⟩ | ⟨-, -, -, t', ht', hreach', hnum'⟩
        · refine ⟨t, hold.1, hreach, ?_⟩
          rw [hold.2, Nat.min_eq_left]
          exact (hv.lowlink_le.trans hv.num_lt.le).trans hle
        · rcases Nat.le_total (s.lowlinkById a) ((connect b s).lowlinkById b) with hle | hle
          · exact ⟨t, hold.1, hreach, by rw [hold.2, Nat.min_eq_left hle]⟩
          · exact ⟨t', ht', .head hb hreach', by rw [hnum', Nat.min_eq_right hle]⟩
    | some n =>
      have hseen : s.Seen b := by rw [Seen, hindex]; rfl
      have hnumb : s.num b = n := by rw [num, hindex, Option.getD_some]
      refine ih hbs' ?_
      split
      · next hon =>
        refine hv.lower hfresh (Grows.refl s) hv.inv hseen (Nat.min_le_left _ _)
          ⟨front, hstack, fun c hc d hd hs => (Nat.min_le_left _ _).trans (hfront c hc d hd hs)⟩ ?_ fun hs => ?_
        · rcases Nat.le_total (s.lowlinkById a) n with hle | hle
          · exact ⟨t, ht, hreach, by rw [hnum, Nat.min_eq_left hle]⟩
          · exact ⟨b, hon, .single hb, by rw [hnumb, Nat.min_eq_right hle]⟩
        · rw [← hv.grows.num_eq (h₀.seen hs), hnumb]
          exact Nat.min_le_right _ _
      · next hoff =>
        have hnot : b ∉ s₀.stack := fun hs => hoff (by
          rw [hstack]
          exact List.mem_append_right _ (List.mem_cons_of_mem _ hs))
        exact
          { hv with
            passed := fun c hc => by
              rcases hv.passed c hc with hmem | hpassed
              · rcases List.mem_cons.1 hmem with rfl | hmem
                · exact .inr ⟨hseen, fun hs => absurd hs hnot⟩
                · exact .inl hmem
              · exact .inr hpassed }

theorem popTo_append {front rest : List α} (ha : a ∉ front) : popTo a (front ++ a :: rest) = (front ++ [a], rest) := by
  induction front with
  | nil => rw [List.nil_append, popTo, if_pos rfl, List.nil_append]
  | cons b front ih =>
    have hne : b ≠ a := by
      rintro rfl
      exact ha List.mem_cons_self
    rw [List.cons_append, popTo, if_neg hne, ih fun hm => ha (List.mem_cons_of_mem _ hm)]
    rfl

theorem get?_setAll (members : OrderedSet α) (items : List α) (m : ObjectMap α (OrderedSet α)) (b : α) :
    (items.foldl (fun m b => m.set b members) m).get? b = if b ∈ items then some members else m.get? b := by
  induction items generalizing m with
  | nil => simp
  | cons c items ih =>
    rw [List.foldl_cons, ih, ObjectMap.get?_set]
    by_cases hb : b = c
    · simp [hb]
    · simp [hb]

theorem Visiting.num_front (hv : Visiting next opened s₀ a bs s) {front : List α}
    (hstack : s.stack = front ++ a :: s₀.stack) :
    (∀ b ∈ front, s.num a < s.num b) ∧ ∀ b ∈ s₀.stack, s.num b < s.num a := by
  have hsorted := hv.inv.sorted
  rw [hstack, List.pairwise_append, List.pairwise_cons] at hsorted
  obtain ⟨-, ⟨htail, -⟩, hfront⟩ := hsorted
  exact ⟨fun b hb => hfront b hb a List.mem_cons_self, htail⟩

theorem Visiting.component (hv : Visiting next opened s₀ a [] s) (h₀ : Inv next opened s₀)
    (hreach : ∀ g ∈ opened, ReflTransGen (Step next) g a) (hlow : s.lowlinkById a = s₀.nextIndex) {front : List α}
    (hstack : s.stack = front ++ a :: s₀.stack)
    (hfront : ∀ b ∈ front, ∀ c ∈ next b, c ∈ s₀.stack → s.lowlinkById a ≤ s₀.num c) (b : α) :
    b ∈ front ++ [a] ↔ Connected next a b := by
  have ha : a ∈ s.stack := hv.inv.opened_stack a List.mem_cons_self
  have hmem : ∀ c ∈ front ++ [a], c ∈ s.stack := by
    intro c hc
    rw [hstack]
    rcases List.mem_append.1 hc with hc | hc
    · exact List.mem_append_left _ hc
    · exact List.mem_append_right _ (List.mem_singleton.1 hc ▸ List.mem_cons_self)
  obtain ⟨habove, hbelow⟩ := hv.num_front hstack
  constructor
  · intro hb
    have hle : s.num a ≤ s.num b := by
      rcases List.mem_append.1 hb with hb | hb
      · exact (habove b hb).le
      · exact (List.mem_singleton.1 hb ▸ Nat.le_refl _)
    refine ⟨hv.inv.leads a ha b (hmem b hb) hle, ?_⟩
    obtain ⟨g, hg, -, hr⟩ := hv.inv.returns b (hmem b hb)
    rcases List.mem_cons.1 hg with rfl | hg
    · exact hr
    · exact hr.trans (hreach g hg)
  · rintro ⟨hab, hba⟩
    by_contra hb
    -- The path to `b` leaves the nodes above `a` by an edge to an assigned node, or to one below `a`.
    obtain ⟨c, d, hc, hd, hstep, hac, hdb⟩ := exists_leaving (P := fun c => c ∈ front ++ [a]) hab
      (List.mem_append_right _ (List.mem_singleton_self a)) hb
    have hconnected : Connected next a d := ⟨hac.tail hstep, hdb.trans hba⟩
    have hbound : s.Seen d ∧ (d ∈ s₀.stack → s.lowlinkById a ≤ s₀.num d) := by
      rcases List.mem_append.1 hc with hfc | hca
      · refine ⟨hv.inv.closed c (hv.inv.seen (hmem c hc)) ?_ d hstep, hfront c hfc d hstep⟩
        intro hopen
        rcases List.mem_cons.1 hopen with rfl | hopen
        · exact Nat.lt_irrefl _ (habove c hfc)
        · have hlt := hbelow c (h₀.opened_stack c hopen)
          exact Nat.lt_asymm hlt (habove c hfc)
      · cases List.mem_singleton.1 hca
        exact (hv.passed d hstep).resolve_left (fun h => nomatch h)
    rcases (hv.inv.seen_iff d).1 hbound.1 with hon | hassigned
    · have hd' : d ∈ s₀.stack := by
        rw [hstack] at hon
        rcases List.mem_append.1 hon with hon | hon
        · exact absurd (List.mem_append_left _ hon) hd
        · rcases List.mem_cons.1 hon with rfl | hon
          · exact absurd (List.mem_append_right _ (List.mem_singleton_self d)) hd
          · exact hon
      have hle := hbound.2 hd'
      rw [hlow] at hle
      exact absurd (h₀.bounded d hd') (Nat.not_lt.2 hle)
    · obtain ⟨component, hcomponent⟩ := Option.isSome_iff_exists.1
        (hv.inv.whole d a hassigned ⟨hconnected.2, hconnected.1⟩)
      exact (hv.inv.assigned a component hcomponent).1 ha

theorem Visiting.leave (hv : Visiting next opened s₀ a [] s) (h₀ : Inv next opened s₀)
    (hreach : ∀ g ∈ opened, ReflTransGen (Step next) g a) : Visited next opened s₀ a (s.leave a) := by
  obtain ⟨front, hstack, hfront⟩ := hv.pushed
  obtain ⟨habove, hbelow⟩ := hv.num_front hstack
  have ha : a ∈ s.stack := hv.inv.opened_stack a List.mem_cons_self
  have hnuma : s.num a = s₀.nextIndex := by rw [num, hv.index, Option.getD_some]
  have hsub : ∀ b ∈ s₀.stack, b ∈ s.stack := fun b hb => by
    rw [hstack]
    exact List.mem_append_right _ (List.mem_cons_of_mem _ hb)
  have hold : ∀ b ∈ s₀.stack, s.num b = s₀.num b := fun b hb => hv.grows.num_eq (h₀.seen hb)
  have hclosed : ∀ b, s.Seen b → b ∉ opened → ∀ c ∈ next b, s.Seen c := by
    intro b hb hopen c hc
    by_cases hba : b = a
    · rw [hba] at hc
      exact ((hv.passed c hc).resolve_left (fun h => nomatch h)).1
    · exact hv.inv.closed b hb (fun h => (List.mem_cons.1 h).elim hba hopen) c hc
  rw [SccState.leave]
  split
  · next hroot =>
    have hlow : s.lowlinkById a = s₀.nextIndex := Option.some.inj (hroot.trans hv.index)
    have hpop : popTo a s.stack = (front ++ [a], s₀.stack) := by
      rw [hstack]
      exact popTo_append fun hm => Nat.lt_irrefl _ (habove a hm)
    have hcomponent := hv.component h₀ hreach hlow hstack hfront
    have hget : ∀ b, ((OrderedSet.ofList (popTo a s.stack).1).items.foldl
        (fun m b => m.set b (OrderedSet.ofList (popTo a s.stack).1)) s.membership).get? b =
          if b ∈ front ++ [a] then some (OrderedSet.ofList (front ++ [a])) else s.membership.get? b := by
      intro b
      rw [get?_setAll, hpop]
      simp only [OrderedSet.mem_items, OrderedSet.mem_ofList]
    have hnot : ∀ b ∈ front ++ [a], b ∉ s₀.stack := by
      intro b hb hs
      rcases List.mem_append.1 hb with hb | hb
      · exact Nat.lt_asymm (hbelow b hs) (habove b hb)
      · cases List.mem_singleton.1 hb
        exact Nat.lt_irrefl _ (hbelow a hs)
    have hassigned : ∀ b, s.membership.get? b ≠ none → b ∉ s₀.stack := by
      intro b hb hs
      obtain ⟨c, hc⟩ := Option.ne_none_iff_exists'.1 hb
      exact (hv.inv.assigned b c hc).1 (hsub b hs)
    refine
      { inv :=
          { opened_stack := fun g hg => by rw [hpop]; exact h₀.opened_stack g hg
            seen_iff := fun b => ?_
            sorted := ?_
            bounded := fun b hb => ?_
            leads := fun b hb c hc hle => ?_
            returns := fun b hb => ?_
            closed := hclosed
            assigned := fun b c hc => ?_
            whole := fun b c hb hbc => ?_ }
        grows := ⟨hv.grows.index, hv.grows.lowlink, hv.grows.nextIndex⟩
        seen := hv.inv.seen ha
        result := .inl ⟨by rw [hpop], hlow.ge⟩ }
    · have hmem : b ∈ s.stack ↔ b ∈ front ++ [a] ∨ b ∈ s₀.stack := by
        rw [hstack, List.append_cons, List.mem_append]
      refine (hv.inv.seen_iff b).trans ?_
      rw [hget, hpop, hmem]
      by_cases hb : b ∈ front ++ [a]
      · simp [hb]
      · simp [hb]
    · have hrest : s₀.stack.Sublist s.stack := by
        rw [hstack, List.append_cons]
        exact List.sublist_append_right _ _
      rw [hpop]
      exact hv.inv.sorted.sublist hrest
    · rw [hpop] at hb
      exact hv.inv.bounded b (hsub b hb)
    · rw [hpop] at hb hc
      exact hv.inv.leads b (hsub b hb) c (hsub c hc) hle
    · rw [hpop] at hb
      obtain ⟨g, hg, hle, hr⟩ := h₀.returns b hb
      refine ⟨g, hg, ?_, hr⟩
      rw [← hold b hb, ← hold g (h₀.opened_stack g hg)] at hle
      exact hle
    · rw [hget] at hc
      rw [hpop]
      split at hc
      · next hb =>
        cases hc
        refine ⟨hnot b hb, fun d => ?_⟩
        have hab := (hcomponent b).1 hb
        rw [OrderedSet.mem_ofList, hcomponent]
        exact ⟨fun had => ⟨hab.2.trans had.1, had.2.trans hab.1⟩, fun hbd => ⟨hab.1.trans hbd.1, hbd.2.trans hab.2⟩⟩
      · exact ⟨hassigned b (hc ▸ Option.some_ne_none c), (hv.inv.assigned b c hc).2⟩
    · rw [hget] at hb ⊢
      by_cases hb' : b ∈ front ++ [a]
      · have hab := (hcomponent b).1 hb'
        rw [if_pos ((hcomponent c).2 ⟨hab.1.trans hbc.1, hbc.2.trans hab.2⟩)]
        rfl
      · rw [if_neg hb'] at hb
        split
        · rfl
        · exact hv.inv.whole b c hb hbc
  · next hroot =>
    have hlt : s.lowlinkById a < s.num a := by
      rw [hnuma]
      refine Nat.lt_of_le_of_ne hv.lowlink_le fun he => hroot ?_
      rw [he, hv.index]
    obtain ⟨t, ht, hreacht, hnumt⟩ := hv.target
    -- What comes back to `a` comes back to a node opened before it.
    have hlower : ∃ g ∈ opened, s.num g ≤ s.num t ∧ ReflTransGen (Step next) t g := by
      obtain ⟨g, hg, hle, hr⟩ := hv.inv.returns t ht
      rcases List.mem_cons.1 hg with rfl | hg
      · rw [hnumt] at hle
        exact absurd hlt (Nat.not_lt.2 hle)
      · exact ⟨g, hg, hle, hr⟩
    exact
      { inv :=
          { hv.inv with
            opened_stack := fun g hg => hv.inv.opened_stack g (List.mem_cons_of_mem _ hg)
            returns := fun b hb => by
              obtain ⟨g, hg, hle, hr⟩ := hv.inv.returns b hb
              rcases List.mem_cons.1 hg with rfl | hg
              · obtain ⟨g', hg', hle', hr'⟩ := hlower
                exact ⟨g', hg', by omega, (hr.trans hreacht).trans hr'⟩
              · exact ⟨g, hg, hle, hr⟩
            closed := hclosed }
        grows := hv.grows
        seen := hv.inv.seen ha
        result := .inr ⟨front, hstack, fun b hb c hc hs => by
          rcases List.mem_append.1 hb with hb | hb
          · exact hfront b hb c hc hs
          · rw [List.mem_singleton.1 hb] at hc
            exact ((hv.passed c hc).resolve_left (fun h => nomatch h)).2 hs, t, ht, hreacht, hnumt⟩ }

def unseen (bound : List α) (s : SccState α) : Finset α := bound.toFinset.filter fun a => s.indexById a = none

omit [DecidableEq α] in
theorem not_seen : ¬ s.Seen a ↔ s.indexById a = none := by
  rw [Seen, Bool.not_eq_true, Option.isSome_eq_false_iff, Option.isNone_iff_eq_none]

theorem Visiting.unseen_lt (hv : Visiting next opened s₀ a bs s) (hfresh : ¬ s₀.Seen a)
    (ha : a ∈ bound) : (unseen bound s).card < (unseen bound s₀).card := by
  refine Finset.card_lt_card ((Finset.ssubset_iff_of_subset fun b hb => ?_).2 ⟨a, ?_, ?_⟩)
  · obtain ⟨hbound, hnone⟩ := Finset.mem_filter.1 hb
    refine Finset.mem_filter.2 ⟨hbound, not_seen.1 fun hs => ?_⟩
    exact not_seen.2 hnone (hv.grows.seen hs)
  · exact Finset.mem_filter.2 ⟨List.mem_toFinset.2 ha, not_seen.1 hfresh⟩
  · intro hm
    exact nomatch hv.index.symm.trans (Finset.mem_filter.1 hm).2

theorem Inv.connect (hb : ∀ a ∈ bound, ∀ b ∈ next a, b ∈ bound) {fuel : Nat} (hi : Inv next opened s)
    (ha : a ∈ bound) (hfresh : ¬ s.Seen a) (hreach : ∀ g ∈ opened, ReflTransGen (Step next) g a)
    (hfuel : (unseen bound s).card ≤ fuel) : Visited next opened s a (connect next fuel a s) := by
  induction fuel generalizing a s opened with
  | zero =>
    have hmem : a ∈ unseen bound s := Finset.mem_filter.2 ⟨List.mem_toFinset.2 ha, not_seen.1 hfresh⟩
    rw [Finset.card_eq_zero.1 (Nat.le_zero.1 hfuel)] at hmem
    exact absurd hmem (Finset.notMem_empty a)
  | succ fuel ih =>
    rw [SccState.connect]
    refine Visiting.leave ?_ hi hreach
    refine Visiting.follow hi hfresh (fun b hb => hb) (fun b hstep s' bs hv hunseen => ?_) (hi.enter hfresh hreach)
    refine ih hv.inv (hb a ha b hstep) hunseen (fun g hg => ?_)
      (Nat.le_of_lt_succ ((hv.unseen_lt hfresh ha).trans_le hfuel))
    rcases List.mem_cons.1 hg with rfl | hg
    · exact .single hstep
    · exact (hreach g hg).tail hstep

omit [DecidableEq α] in
theorem Inv.empty [DecidableEq α] : Inv next [] (empty : SccState α) where
  opened_stack _ hg := nomatch hg
  seen_iff _ := ⟨(fun h => nomatch h), fun h => Or.elim h (fun h => nomatch h) fun h => nomatch h⟩
  sorted := .nil
  bounded _ hb := nomatch hb
  leads _ hb := nomatch hb
  returns _ hb := nomatch hb
  closed _ hb := nomatch hb
  assigned _ _ hc := nomatch hc
  whole _ _ hb := nomatch hb

end Correctness

end SccState

def components (next : α → List α) (fuel : Nat) (nodes : List α) : ObjectMap α (OrderedSet α) :=
  (nodes.foldl (fun s a => if (s.indexById a).isSome then s else s.connect next fuel a) SccState.empty).membership

theorem components_fold {next : α → List α} (hb : ∀ a ∈ bound, ∀ b ∈ next a, b ∈ bound) {nodes : List α}
    (hn : ∀ a ∈ nodes, a ∈ bound) {s : SccState α} (hi : SccState.Inv next [] s) :
    let s' := nodes.foldl (fun s a => if (s.indexById a).isSome then s else s.connect next bound.length a) s
    SccState.Inv next [] s' ∧ (∀ a, s.Seen a → s'.Seen a) ∧ ∀ a ∈ nodes, s'.Seen a := by
  induction nodes generalizing s with
  | nil => exact ⟨hi, fun _ h => h, fun _ h => nomatch h⟩
  | cons a nodes ih =>
    have hvisit : ∃ t, t = (if (s.indexById a).isSome then s else s.connect next bound.length a) ∧
        SccState.Inv next [] t ∧ (∀ b, s.Seen b → t.Seen b) ∧ t.Seen a := by
      refine ⟨_, rfl, ?_⟩
      split
      · next hseen => exact ⟨hi, fun _ h => h, hseen⟩
      · next hfresh =>
        have hcard : (SccState.unseen bound s).card ≤ bound.length :=
          (Finset.card_filter_le _ _).trans (List.toFinset_card_le bound)
        have hvisited := hi.connect hb (hn a List.mem_cons_self) hfresh (fun g hg => nomatch hg) hcard
        exact ⟨hvisited.inv, fun b hs => hvisited.grows.seen hs, hvisited.seen⟩
    obtain ⟨t, ht, hinv, hkeep, hseen⟩ := hvisit
    obtain ⟨hinv', hkeep', hall⟩ := ih (fun b hm => hn b (List.mem_cons_of_mem _ hm)) hinv
    rw [List.foldl_cons, ← ht]
    refine ⟨hinv', fun b hs => hkeep' b (hkeep b hs), fun b hm => ?_⟩
    rcases List.mem_cons.1 hm with rfl | hm
    · exact hkeep' b hseen
    · exact hall b hm

theorem components_spec {next : α → List α} (hb : ∀ a ∈ bound, ∀ b ∈ next a, b ∈ bound) {nodes : List α}
    (hn : ∀ a ∈ nodes, a ∈ bound) :
    (∀ a ∈ nodes, ((components next bound.length nodes).get? a).isSome = true) ∧
      ∀ a c, (components next bound.length nodes).get? a = some c → ∀ b, b ∈ c ↔ Connected next a b := by
  have hempty : SccState.Inv next [] SccState.empty := SccState.Inv.empty
  obtain ⟨hinv, -, hall⟩ := components_fold hb hn hempty
  refine ⟨fun a ha => ?_, fun a c hc => (hinv.assigned a c hc).2⟩
  refine ((hinv.seen_iff a).1 (hall a ha)).resolve_left fun hs => ?_
  obtain ⟨g, hg, -⟩ := hinv.returns a hs
  exact nomatch hg

end N8n.Lib
