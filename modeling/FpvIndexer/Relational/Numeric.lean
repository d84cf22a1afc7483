import Mathlib.Data.Rat.Floor
import Mathlib.Data.Int.Log
import Mathlib.Data.Nat.GCD.Basic
import Mathlib.Algebra.Order.BigOperators.Group.List
import Mathlib.Tactic.Linarith
import Mathlib.Tactic.NormNum
import Mathlib.Tactic.Positivity
import Mathlib.Tactic.FieldSimp

namespace Relational

def roundHalfAway (x : ℚ) : Int := if 0 ≤ x then ⌊x + 1 / 2⌋ else ⌈x - 1 / 2⌉

def roundTo (decimals : Nat) (x : ℚ) : ℚ := roundHalfAway (x * 10 ^ decimals) / 10 ^ decimals

/-- The decimals of a quotient: sixteen significant digits in groups of four, and no fewer than an operand has. -/
def quotientDecimals (scale : ℚ → Nat) (a b : ℚ) : Nat :=
  max (16 - 4 * Int.log 10000 |a / b|).toNat (max (scale a) (scale b))

def StaysBelow (decimals : Nat) (x : ℚ) : Prop :=
  if 0 ≤ x then x + 1 / (2 * 10 ^ decimals) < ⌊x⌋ + 1 else x + 1 / (2 * 10 ^ decimals) ≤ ⌊x⌋ + 1

instance (decimals : Nat) (x : ℚ) : Decidable (StaysBelow decimals x) := by
  unfold StaysBelow
  infer_instance

theorem roundHalfAway_intCast (n : Int) : roundHalfAway n = n := by
  unfold roundHalfAway
  split
  · rw [Int.floor_eq_iff]
    constructor <;> linarith
  · rw [Int.ceil_eq_iff]
    constructor <;> linarith

theorem le_roundHalfAway {x : ℚ} {n : Int} (le : n ≤ x) : n ≤ roundHalfAway x := by
  unfold roundHalfAway
  split
  · rw [Int.le_floor]
    linarith
  · rw [Int.le_ceil_iff]
    linarith

theorem roundHalfAway_lt_iff {x : ℚ} {n : Int} :
    roundHalfAway x < n ↔ if 0 ≤ x then x + 1 / 2 < n else x + 1 / 2 ≤ n := by
  unfold roundHalfAway
  split
  · exact Int.floor_lt
  · rw [← Int.le_sub_one_iff, Int.ceil_le]
    push_cast
    constructor <;> intro le <;> linarith

theorem roundHalfAway_eq_iff {x : ℚ} (nonneg : 0 ≤ x) {n : Int} :
    roundHalfAway x = n ↔ n ≤ x + 1 / 2 ∧ x + 1 / 2 < n + 1 := by
  unfold roundHalfAway
  rw [if_pos nonneg, Int.floor_eq_iff]

theorem roundHalfAway_eq_add_iff {x missing : ℚ} (nonneg : 0 ≤ x) (missing_nonneg : 0 ≤ missing) :
    (roundHalfAway x : ℚ) = x + missing ↔ (∃ n : Int, (n : ℚ) = x + missing) ∧ missing ≤ 1 / 2 := by
  constructor
  · intro same
    have reached := ((roundHalfAway_eq_iff nonneg).mp rfl).1
    refine ⟨⟨_, same⟩, ?_⟩
    linarith
  · rintro ⟨⟨n, whole⟩, half⟩
    rw [← whole, Int.cast_inj, roundHalfAway_eq_iff nonneg]
    constructor <;> linarith

/-- What rounding leaves of a value that is not negative: from minus a half up to below a half. -/
def roundingRest (x : ℚ) : ℚ := x - ⌊x + 1 / 2⌋

theorem roundingRest_intCast (n : Int) : roundingRest n = 0 := by
  have floor : ⌊(n : ℚ) + 1 / 2⌋ = n := by
    rw [Int.floor_eq_iff]
    constructor <;> linarith
  rw [roundingRest, floor, sub_self]

theorem sum_roundHalfAway {values : List ℚ} (nonneg : ∀ value ∈ values, 0 ≤ value) :
    ((values.map roundHalfAway).sum : ℚ) = values.sum - (values.map roundingRest).sum := by
  induction values with
  | nil => simp
  | cons value rest ih =>
      obtain ⟨here, later⟩ := List.forall_mem_cons.mp nonneg
      have floor : roundHalfAway value = ⌊value + 1 / 2⌋ := if_pos here
      rw [List.map_cons, List.map_cons, List.sum_cons, List.sum_cons, List.sum_cons, Int.cast_add, ih later, roundingRest,
        floor]
      ring

theorem sum_roundHalfAway_eq_iff {values : List ℚ} (nonneg : ∀ value ∈ values, 0 ≤ value) :
    (values.map roundHalfAway).sum = roundHalfAway values.sum ↔
      -(1 / 2) ≤ (values.map roundingRest).sum ∧ (values.map roundingRest).sum < 1 / 2 := by
  rw [eq_comm, roundHalfAway_eq_iff (List.sum_nonneg nonneg), sum_roundHalfAway nonneg]
  constructor
  · rintro ⟨reached, below⟩
    constructor <;> linarith
  · rintro ⟨least, most⟩
    constructor <;> linarith

theorem floor_roundTo_eq_iff (decimals : Nat) (x : ℚ) : ⌊roundTo decimals x⌋ = ⌊x⌋ ↔ StaysBelow decimals x := by
  have unit : (0 : ℚ) < 10 ^ decimals := by positivity
  have reached : (⌊x⌋ : ℚ) ≤ roundTo decimals x := by
    have scaled : ((⌊x⌋ * 10 ^ decimals : Int) : ℚ) ≤ x * 10 ^ decimals := by
      push_cast
      exact mul_le_mul_of_nonneg_right (Int.floor_le x) unit.le
    rw [roundTo, le_div_iff₀ unit]
    exact_mod_cast le_roundHalfAway scaled
  have below : roundTo decimals x < ⌊x⌋ + 1 ↔ StaysBelow decimals x := by
    have scaled : roundTo decimals x < ⌊x⌋ + 1 ↔ roundHalfAway (x * 10 ^ decimals) < (⌊x⌋ + 1) * 10 ^ decimals := by
      rw [roundTo, div_lt_iff₀ unit]
      exact_mod_cast Iff.rfl
    have half : x * 10 ^ decimals + 1 / 2 = (x + 1 / (2 * 10 ^ decimals)) * 10 ^ decimals := by
      field_simp
    rw [scaled, roundHalfAway_lt_iff, StaysBelow, half]
    push_cast
    simp only [mul_nonneg_iff_of_pos_right unit, mul_lt_mul_iff_left₀ unit, mul_le_mul_iff_left₀ unit]
  rw [Int.floor_eq_iff, below]
  exact and_iff_right reached

section Scaled
variable {scale ratio base : Nat}

def reducedScale (scale ratio : Nat) : Nat := scale / scale.gcd ratio

theorem pow_dvd_mul_pow_iff (positive : 0 < scale) (n : Nat) :
    scale ^ n ∣ base * ratio ^ n ↔ reducedScale scale ratio ^ n ∣ base := by
  have common : 0 < scale.gcd ratio := Nat.gcd_pos_of_pos_left ratio positive
  have coprime : (reducedScale scale ratio ^ n).Coprime ((ratio / scale.gcd ratio) ^ n) :=
    (Nat.coprime_div_gcd_div_gcd common).pow n n
  have whole : scale ^ n = reducedScale scale ratio ^ n * scale.gcd ratio ^ n := by
    rw [← Nat.mul_pow, reducedScale, Nat.div_mul_cancel (Nat.gcd_dvd_left scale ratio)]
  have scaled : base * ratio ^ n = base * (ratio / scale.gcd ratio) ^ n * scale.gcd ratio ^ n := by
    rw [Nat.mul_assoc, ← Nat.mul_pow, Nat.div_mul_cancel (Nat.gcd_dvd_right scale ratio)]
  rw [whole, scaled, Nat.mul_dvd_mul_iff_right (Nat.pow_pos common), coprime.dvd_mul_right]

theorem den_eq_one_iff (positive : 0 < scale) (n : Nat) :
    ((base : ℚ) * (ratio / scale) ^ n).den = 1 ↔ scale ^ n ∣ base * ratio ^ n := by
  have power : (scale ^ n : Nat) ≠ 0 := (Nat.pow_pos positive).ne'
  have quotient : (base : ℚ) * (ratio / scale) ^ n = ((base * ratio ^ n : Nat) : ℚ) / (scale ^ n : Nat) := by
    push_cast
    rw [div_pow, mul_div_assoc]
  rw [quotient]
  exact Rat.den_div_natCast_eq_one_iff _ _ power

end Scaled

end Relational
