import Mathlib.Order.Defs.LinearOrder
import Mathlib.Order.Lattice
import Mathlib.Data.List.Pairwise

namespace Relational

structure Lifespan (P : Type) where
  start : P
  stop : Option P
deriving DecidableEq

namespace Lifespan
variable {P : Type} [LinearOrder P]

def Covers (s : Lifespan P) (x : P) : Prop := s.start ≤ x ∧ ∀ t ∈ s.stop, x ≤ t

instance (s : Lifespan P) (x : P) : Decidable (s.Covers x) := by
  unfold Covers
  infer_instance

def closeAt (now : P) (s : Lifespan P) : Lifespan P := ⟨s.start, some (s.stop.getD now)⟩

/-- Two lifespans of one owner-bearing thing: never both open, an open one starts after the other
was closed, and no position is covered by both. -/
structure Apart (a b : Lifespan P) : Prop where
  open_left : a.stop = none → ∃ t ∈ b.stop, t < a.start
  open_right : b.stop = none → ∃ t ∈ a.stop, t < b.start
  disjoint : ∀ x, a.Covers x → ¬ b.Covers x

theorem Apart.symm {a b : Lifespan P} (apart : a.Apart b) : b.Apart a :=
  ⟨apart.open_right, apart.open_left, fun x hb ha => apart.disjoint x ha hb⟩

theorem Apart.not_both_open {a b : Lifespan P} (apart : a.Apart b) : ¬ (a.stop = none ∧ b.stop = none) := by
  rintro ⟨ha, hb⟩
  obtain ⟨t, closed, -⟩ := apart.open_left ha
  rw [hb] at closed
  cases closed

theorem covers_of_closeAt {now x : P} {s : Lifespan P} (covers : (s.closeAt now).Covers x) : s.Covers x := by
  refine ⟨covers.1, fun t closed => covers.2 t ?_⟩
  rw [closeAt, Option.mem_def] at *
  rw [closed]
  rfl

theorem Apart.closeAt_left {a b : Lifespan P} (now : P) (apart : a.Apart b) : (a.closeAt now).Apart b where
  open_left := fun absurd => by cases absurd
  open_right := fun isOpen => by
    obtain ⟨t, closed, before⟩ := apart.open_right isOpen
    exact ⟨t, by rw [closeAt, Option.mem_def, Option.mem_def.mp closed]; rfl, before⟩
  disjoint := fun x ha => apart.disjoint x (covers_of_closeAt ha)

theorem apart_of_lt {a b : Lifespan P} {t : P} (closed : a.stop = some t) (later : t < b.start) :
    a.Apart b where
  open_left := fun isOpen => by rw [closed] at isOpen; cases isOpen
  open_right := fun _ => ⟨t, closed, later⟩
  disjoint := fun x ha hb => absurd (ha.2 t closed) (not_le.mpr (later.trans_le hb.1))

end Lifespan

section Separated
variable {α κ P : Type} [LinearOrder P] (group : α → κ) (span : α → Lifespan P)

def Separated (rows : List α) : Prop :=
  rows.Pairwise fun a b => group a = group b → (span a).Apart (span b)

variable {group span}

theorem Separated.sublist {rows kept : List α} (separated : Separated group span rows)
    (sub : kept.Sublist rows) : Separated group span kept :=
  List.Pairwise.sublist sub separated

theorem Separated.map {rows : List α} (separated : Separated group span rows) (f : α → α)
    (keeps : ∀ a, group (f a) = group a)
    (apart : ∀ a b, (span a).Apart (span b) → (span (f a)).Apart (span (f b))) :
    Separated group span (rows.map f) := by
  refine List.pairwise_map.mpr (separated.imp ?_)
  intro a b ab same
  rw [keeps, keeps] at same
  exact apart a b (ab same)

theorem Separated.append {rows : List α} {row : α} (separated : Separated group span rows)
    (apart : ∀ a ∈ rows, group a = group row → (span a).Apart (span row)) :
    Separated group span (rows ++ [row]) := by
  refine List.pairwise_append.mpr ⟨separated, List.pairwise_singleton _ _, ?_⟩
  intro a ha b hb
  rw [List.mem_singleton] at hb
  subst hb
  exact apart a ha

theorem Separated.apart_of_ne {rows : List α} (separated : Separated group span rows) {a b : α} (ha : a ∈ rows)
    (hb : b ∈ rows) (differ : a ≠ b) (same : group a = group b) : (span a).Apart (span b) := by
  have symmetric : ∀ x y : α, (group x = group y → (span x).Apart (span y)) →
      group y = group x → (span y).Apart (span x) :=
    fun x y apart alike => (apart alike.symm).symm
  have : Std.Symm fun x y : α => group x = group y → (span x).Apart (span y) := ⟨symmetric⟩
  exact List.Pairwise.forall separated ha hb differ same

theorem Separated.filter_length_le_one {rows : List α} (separated : Separated group span rows)
    (p : α → Bool) (alike : ∀ a b, p a → p b → group a = group b)
    (clash : ∀ a b, p a → p b → ¬ (span a).Apart (span b)) : (rows.filter p).length ≤ 1 := by
  induction rows with
  | nil => simp
  | cons head rest ih =>
      obtain ⟨headApart, restSeparated⟩ := List.pairwise_cons.mp separated
      by_cases keep : p head
      · have none : ∀ b ∈ rest, ¬ p b := fun b member other =>
          clash head b keep other (headApart b member (alike head b keep other))
        rw [List.filter_cons_of_pos keep, List.filter_eq_nil_iff.mpr none]
        simp
      · rw [List.filter_cons_of_neg keep]
        exact ih restSeparated

end Separated
end Relational
