import FpvIndexer.Position
import Mathlib.Tactic.Linarith
import Mathlib.Data.Int.Init
import Mathlib.Data.Int.DivMod

namespace FpvIndexer

/-- The part of `strictConfigSchema` that fixes the quarters, with the bounds it checks. -/
structure Config where
  activationEpoch : Int
  epochsPerQuarter : Int
  activationEpoch_nonneg : 0 ≤ activationEpoch
  epochsPerQuarter_pos : 1 ≤ epochsPerQuarter
deriving DecidableEq

namespace Config
variable (cfg : Config)

/-- `ServiceRewardsActorIndexer.getQuarterForEpoch`; `bigint` division truncates. -/
def getQuarterForEpoch (epoch : Int) : Int :=
  if epoch < cfg.activationEpoch then 0
  else (epoch - cfg.activationEpoch).tdiv cfg.epochsPerQuarter + 1

/-- The `CASE` of the queries around `FLOOR((epoch - activation_epoch) / epochs_per_quarter) + 1`. -/
def quarterNum (epoch : Int) : Int :=
  if epoch < cfg.activationEpoch then 0
  else (epoch - cfg.activationEpoch) / cfg.epochsPerQuarter + 1

def quarterStartEpoch (quarter : Int) : Int :=
  cfg.activationEpoch + cfg.epochsPerQuarter * (quarter - 1)

def quarterEndEpoch (quarter : Int) : Int :=
  cfg.quarterStartEpoch quarter + cfg.epochsPerQuarter - 1

theorem getQuarterForEpoch_eq (epoch : Int) : cfg.getQuarterForEpoch epoch = cfg.quarterNum epoch := by
  unfold getQuarterForEpoch quarterNum
  split
  · rfl
  · rw [Int.tdiv_eq_ediv_of_nonneg (by omega)]

theorem quarterNum_nonneg (epoch : Int) : 0 ≤ cfg.quarterNum epoch := by
  unfold quarterNum
  split
  · exact le_rfl
  · have := Int.ediv_nonneg (a := epoch - cfg.activationEpoch) (b := cfg.epochsPerQuarter)
      (by omega) (by have := cfg.epochsPerQuarter_pos; omega)
    omega

theorem quarterNum_lt_iff {quarter : Int} (q1 : 1 ≤ quarter) (epoch : Int) :
    cfg.quarterNum epoch < quarter ↔ epoch < cfg.quarterStartEpoch quarter := by
  have pos := cfg.epochsPerQuarter_pos
  have span : 0 ≤ cfg.epochsPerQuarter * (quarter - 1) := Int.mul_nonneg (by omega) (by omega)
  unfold quarterNum quarterStartEpoch
  split
  · constructor <;> intro <;> omega
  · have bound : (epoch - cfg.activationEpoch) / cfg.epochsPerQuarter < quarter - 1 ↔
        epoch - cfg.activationEpoch < (quarter - 1) * cfg.epochsPerQuarter :=
      Int.ediv_lt_iff_lt_mul (by omega)
    rw [Int.mul_comm] at bound
    constructor <;> intro <;> omega

theorem le_quarterNum_iff {quarter : Int} (q1 : 1 ≤ quarter) (epoch : Int) :
    quarter ≤ cfg.quarterNum epoch ↔ cfg.quarterStartEpoch quarter ≤ epoch := by
  rw [← not_lt, ← not_lt, cfg.quarterNum_lt_iff q1]

theorem quarterStartEpoch_succ (quarter : Int) :
    cfg.quarterStartEpoch (quarter + 1) = cfg.quarterEndEpoch quarter + 1 := by
  unfold quarterEndEpoch quarterStartEpoch
  rw [show quarter + 1 - 1 = quarter - 1 + 1 by omega, Int.mul_add]
  omega

theorem quarterNum_le_iff {quarter : Int} (q0 : 0 ≤ quarter) (epoch : Int) :
    cfg.quarterNum epoch ≤ quarter ↔ epoch ≤ cfg.quarterEndEpoch quarter := by
  rw [← Int.lt_add_one_iff, cfg.quarterNum_lt_iff (by omega), cfg.quarterStartEpoch_succ, Int.lt_add_one_iff]

theorem quarterNum_mono {a b : Int} (le : a ≤ b) : cfg.quarterNum a ≤ cfg.quarterNum b := by
  have nonneg := cfg.quarterNum_nonneg b
  rw [cfg.quarterNum_le_iff nonneg]
  exact le.trans ((cfg.quarterNum_le_iff nonneg b).mp le_rfl)

end Config

def everyHundredEpochs : Config := ⟨100, 100, by decide, by decide⟩

example : everyHundredEpochs.quarterNum 99 = 0 ∧ everyHundredEpochs.quarterNum 200 = 2 ∧
    everyHundredEpochs.quarterEndEpoch 2 = 299 := by decide

end FpvIndexer
