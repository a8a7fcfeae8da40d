import Mathlib.Data.List.Nodup

/-!
Elimination of vertices. Arcs carry a label at each end; an eliminated vertex is bypassed by arcs that join each arc
into it with each arc out of it.
-/

namespace N8n.Lib

variable {V A B : Type}

abbrev Arcs (V A B : Type) := V → A → B → V → Prop

inductive Through (inner : V → Prop) (E : Arcs V A B) : Arcs V A B where
  | arc {u v a b} (h : E u a b v) : Through inner E u a b v
  | on {u w v a b a' b'} (h : Through inner E u a b w) (hw : inner w) (h' : E w a' b' v) : Through inner E u a b' v

def bypass (d : V) (E : Arcs V A B) : Arcs V A B := fun u a b v =>
  (u ≠ d ∧ v ≠ d ∧ E u a b v) ∨ ∃ b' a', E u a b' d ∧ E d a' b v

def bypassAll : List V → Arcs V A B → Arcs V A B
  | [], E => E
  | d :: ds, E => bypassAll ds (bypass d E)

variable {inner : V → Prop} {E : Arcs V A B} {u v d : V} {a : A} {b : B}

theorem Through.mono {inner' : V → Prop} (h : Through inner E u a b v)
    (hi : ∀ w a b v, E w a b v → inner w → inner' w) : Through inner' E u a b v := by
  induction h with
  | arc h => exact .arc h
  | on _ hw h' ih => exact .on ih (hi _ _ _ _ h' hw) h'

theorem Through.mono_off {F : Arcs V A B} (hd : ¬ inner d) (hE : ∀ x a b y, x ≠ d → y ≠ d → E x a b y → F x a b y)
    (hu : u ≠ d) (h : Through inner E u a b v) (hv : v ≠ d) : Through inner F u a b v := by
  induction h with
  | arc h => exact .arc (hE _ _ _ _ hu hv h)
  | @on u w v a b a' b' _ hw h' ih =>
    have hne : w ≠ d := by
      rintro rfl
      exact hd hw
    exact .on (ih hu hne) hw (hE _ _ _ _ hne hv h')

theorem through_of_bypass (h : Through inner (bypass d E) u a b v) : Through (fun w => w = d ∨ inner w) E u a b v := by
  induction h with
  | arc h =>
    rcases h with ⟨-, -, h⟩ | ⟨b', a', hin, hout⟩
    · exact .arc h
    · exact .on (.arc hin) (.inl rfl) hout
  | on _ hw h' ih =>
    rcases h' with ⟨-, -, h'⟩ | ⟨b', a', hin, hout⟩
    · exact .on ih (.inr hw) h'
    · exact .on (.on ih (.inr hw) hin) (.inl rfl) hout

/-- A path to the bypassed vertex, the first time it gets there. -/
def Arrives (inner : V → Prop) (E : Arcs V A B) (d u : V) (a : A) : Prop :=
  (∃ b, E u a b d) ∨ ∃ b w a' b', Through inner (bypass d E) u a b w ∧ inner w ∧ E w a' b' d

/-- Between its first arrival at the bypassed vertex and its last departure a path may go round, which is left out. -/
theorem bypass_of_through (hd : ¬ inner d) (hu : u ≠ d) (h : Through (fun w => w = d ∨ inner w) E u a b v) :
    (v ≠ d → Through inner (bypass d E) u a b v) ∧ (v = d → Arrives inner E d u a) := by
  induction h with
  | @arc u v a b h =>
    refine ⟨fun hv => .arc (.inl ⟨hu, hv, h⟩), ?_⟩
    rintro rfl
    exact .inl ⟨b, h⟩
  | @on u w v a b a' b' _ hw h' ih =>
    obtain ⟨hpath, harrives⟩ := ih hu
    rcases hw with rfl | hw
    · refine ⟨fun _ => ?_, fun _ => harrives rfl⟩
      rcases harrives rfl with ⟨b₀, h₀⟩ | ⟨b₁, w₀, a₀, b₀, h₁, hw₀, h₀⟩
      · exact .arc (.inr ⟨b₀, a', h₀, h'⟩)
      · exact .on h₁ hw₀ (.inr ⟨b₀, a', h₀, h'⟩)
    · have hne : w ≠ d := by
        rintro rfl
        exact hd hw
      refine ⟨fun hv => .on (hpath hne) hw (.inl ⟨hne, hv, h'⟩), ?_⟩
      rintro rfl
      exact .inr ⟨b, w, a', b', hpath hne, hw, h'⟩

theorem through_bypass_iff (hd : ¬ inner d) (hu : u ≠ d) (hv : v ≠ d) :
    Through inner (bypass d E) u a b v ↔ Through (fun w => w = d ∨ inner w) E u a b v :=
  ⟨through_of_bypass, fun h => (bypass_of_through hd hu h).1 hv⟩

theorem bypassAll_iff {ds : List V} (hn : ds.Nodup) (hu : u ∉ ds) (hv : v ∉ ds) :
    bypassAll ds E u a b v ↔ Through (· ∈ ds) E u a b v := by
  induction ds generalizing E with
  | nil =>
    constructor
    · exact fun h => .arc h
    · rintro (h | ⟨-, hw, -⟩)
      · exact h
      · cases hw
  | cons d ds ih =>
    obtain ⟨hd, hn⟩ := List.nodup_cons.1 hn
    rw [List.mem_cons, not_or] at hu hv
    rw [bypassAll, ih hn hu.2 hv.2, through_bypass_iff hd hu.1 hv.1]
    exact ⟨fun h => h.mono fun _ _ _ _ _ => List.mem_cons.2, fun h => h.mono fun _ _ _ _ _ => List.mem_cons.1⟩

end N8n.Lib
