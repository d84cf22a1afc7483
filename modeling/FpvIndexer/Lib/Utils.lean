import FpvIndexer.Database.Schema
import FpvIndexer.Relational.Numeric

namespace FpvIndexer
open Relational

/-- The settings, and `BigNumber(value).toBigInt()` of the bignumber.js that is installed. -/
structure Deployment extends Config where
  toBigInt : ℚ → Option Int
  toBigInt_intCast : ∀ n : Int, toBigInt n = some n

instance : Coe Deployment Config := ⟨Deployment.toConfig⟩

namespace Deployment
variable (cfg : Deployment)

def numericToBigInt (value : ℚ) : Except Failure Int :=
  match cfg.toBigInt value with
  | some integer => .ok integer
  | none => .error (.notAnInteger value)

/-- What version 11 does of a value that is a number. -/
def RoundsHalfUp : Prop := ∀ value, cfg.toBigInt value = some (roundHalfAway value)

/-- What the error of `numericToBigInt` expects. -/
def RejectsFractions : Prop := ∀ value, (∀ n : Int, (n : ℚ) ≠ value) → cfg.toBigInt value = none

theorem toBigInt_of_whole {value : ℚ} {n : Int} (whole : (n : ℚ) = value) : cfg.toBigInt value = some n := by
  rw [← whole, cfg.toBigInt_intCast]

theorem numericToBigInt_eq_ok {value : ℚ} {integer : Int} :
    cfg.numericToBigInt value = .ok integer ↔ cfg.toBigInt value = some integer := by
  unfold numericToBigInt
  cases cfg.toBigInt value <;> simp

theorem numericToBigInt_of_whole {value : ℚ} {n : Int} (whole : (n : ℚ) = value) : cfg.numericToBigInt value = .ok n :=
  cfg.numericToBigInt_eq_ok.mpr (cfg.toBigInt_of_whole whole)

end Deployment

def hundredEpochs : Deployment where
  toConfig := everyHundredEpochs
  toBigInt value := some (roundHalfAway value)
  toBigInt_intCast := by
    intro n
    rw [roundHalfAway_intCast]

theorem hundredEpochs_rounds : hundredEpochs.RoundsHalfUp := fun _ => rfl

end FpvIndexer
