import Mathlib.Data.Prod.Lex
import Mathlib.Data.Int.Order.Basic

namespace FpvIndexer

@[ext] structure Position where
  epoch : Int
  logIndex : Nat
deriving DecidableEq, Repr

namespace Position

def lexPair (p : Position) : Int ×ₗ Nat := toLex (p.epoch, p.logIndex)

theorem lexPair_injective : Function.Injective lexPair := by
  intro p q same
  cases p
  cases q
  cases same
  rfl

instance : LinearOrder Position := LinearOrder.lift' lexPair lexPair_injective

theorem le_iff {p q : Position} :
    p ≤ q ↔ p.epoch < q.epoch ∨ p.epoch = q.epoch ∧ p.logIndex ≤ q.logIndex :=
  Prod.Lex.toLex_le_toLex

theorem lt_iff {p q : Position} :
    p < q ↔ p.epoch < q.epoch ∨ p.epoch = q.epoch ∧ p.logIndex < q.logIndex :=
  Prod.Lex.toLex_lt_toLex

theorem epoch_le_of_le {p q : Position} (le : p ≤ q) : p.epoch ≤ q.epoch := by
  rw [le_iff] at le
  omega

theorem lt_of_epoch_lt {p q : Position} (lt : p.epoch < q.epoch) : p < q := lt_iff.mpr (Or.inl lt)

def next (p : Position) : Position := ⟨p.epoch, p.logIndex + 1⟩

theorem next_le_iff {p q : Position} : p.next ≤ q ↔ p < q := by
  rw [le_iff, lt_iff]
  exact Iff.rfl

theorem lt_next (p : Position) : p < p.next := next_le_iff.mp le_rfl

example : (⟨3, 5⟩ : Position) < ⟨4, 0⟩ ∧ ¬ (⟨4, 1⟩ : Position) ≤ ⟨4, 0⟩ := by decide

end Position
end FpvIndexer
