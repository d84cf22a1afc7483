import FpvIndexer.Services.VolumeCalculation

namespace FpvIndexer.Proof
open Relational

def stopPosition (toEpoch : Option Int) (toLogIndex : Option Nat) : Option Position :=
  toEpoch.bind fun epoch => toLogIndex.map fun logIndex => ⟨epoch, logIndex⟩

@[simp] theorem stopPosition_none (toLogIndex : Option Nat) : stopPosition none toLogIndex = none := rfl

@[simp] theorem stopPosition_some (epoch : Int) (logIndex : Nat) :
    stopPosition (some epoch) (some logIndex) = some ⟨epoch, logIndex⟩ := rfl

def FilledTogether (toEpoch : Option Int) (toLogIndex : Option Nat) : Prop :=
  toLogIndex.isSome = toEpoch.isSome

theorem FilledTogether.cases {toEpoch : Option Int} {toLogIndex : Option Nat}
    (together : FilledTogether toEpoch toLogIndex) :
    (toEpoch = none ∧ toLogIndex = none) ∨
      ∃ stop : Position, toEpoch = some stop.epoch ∧ toLogIndex = some stop.logIndex := by
  unfold FilledTogether at together
  cases toEpoch with
  | none =>
      cases toLogIndex with
      | none => exact Or.inl ⟨rfl, rfl⟩
      | some logIndex => cases together
  | some epoch =>
      cases toLogIndex with
      | none => cases together
      | some logIndex => exact Or.inr ⟨⟨epoch, logIndex⟩, rfl, rfl⟩

theorem stopPosition_eq_none {toEpoch : Option Int} {toLogIndex : Option Nat}
    (together : FilledTogether toEpoch toLogIndex) : stopPosition toEpoch toLogIndex = none ↔ toEpoch = none := by
  rcases together.cases with ⟨rfl, rfl⟩ | ⟨stop, rfl, rfl⟩ <;> simp

theorem inForce_iff {fromEpoch : Int} {fromLogIndex : Nat} {toEpoch : Option Int} {toLogIndex : Option Nat}
    (together : FilledTogether toEpoch toLogIndex) (position : Position) :
    inForce fromEpoch fromLogIndex toEpoch toLogIndex position = true ↔
      (⟨⟨fromEpoch, fromLogIndex⟩, stopPosition toEpoch toLogIndex⟩ : Lifespan Position).Covers position := by
  unfold inForce Lifespan.Covers
  have started : (fromEpoch < position.epoch ∨ position.epoch = fromEpoch ∧ fromLogIndex ≤ position.logIndex) ↔
      (⟨fromEpoch, fromLogIndex⟩ : Position) ≤ position := by
    rw [Position.le_iff]
    constructor <;> (intro either; simp only at *; omega)
  rcases together.cases with ⟨rfl, rfl⟩ | ⟨stop, rfl, rfl⟩
  · simp [started]
  · simp [started, Position.le_iff (p := position)]

end FpvIndexer.Proof
