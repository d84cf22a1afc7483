import Mathlib.Data.Rat.Init
import Mathlib.Data.Nat.Log
import Mathlib.Tactic.NormNum

/-!
# Numbers and their decimals

The numbers of the language are the doubles. An integer is taken to the nearest of them, and a number that is an
integer is written with the fewest digits that read back as it.
-/

namespace EcmaScript

inductive Number
  | nan
  | infinity (negative : Bool)
  | finite (value : ℚ)
deriving DecidableEq

/-- The integer of `bits` significant bits nearest to `n`, and of two the even one. -/
def nearest (bits n : Nat) : Nat :=
  if n < 2 ^ bits then n
  else
    let unit := 2 ^ (n.log2 + 1 - bits)
    let below := n / unit
    if 2 * (n % unit) < unit ∨ 2 * (n % unit) = unit ∧ below % 2 = 0 then below * unit else (below + 1) * unit

section Nearest
variable {bits n : Nat}

theorem nearest_of_lt (lt : n < 2 ^ bits) : nearest bits n = n := if_pos lt

theorem nearest_of_between {k : Nat} (lower : 2 ^ (k + bits) ≤ n) (upper : n < 2 ^ (k + bits + 1)) :
    nearest bits n =
      if 2 * (n % 2 ^ (k + 1)) < 2 ^ (k + 1) ∨ 2 * (n % 2 ^ (k + 1)) = 2 ^ (k + 1) ∧ n / 2 ^ (k + 1) % 2 = 0 then
        n / 2 ^ (k + 1) * 2 ^ (k + 1)
      else (n / 2 ^ (k + 1) + 1) * 2 ^ (k + 1) := by
  have many : ¬n < 2 ^ bits := by
    have monotone : 2 ^ bits ≤ 2 ^ (k + bits) := Nat.pow_le_pow_right (by omega) (by omega)
    omega
  have log : n.log2 = k + bits := by
    have positive : n ≠ 0 := by
      have := Nat.two_pow_pos (k + bits)
      omega
    exact (Nat.log2_eq_iff positive).mpr ⟨lower, upper⟩
  have exponent : n.log2 + 1 - bits = k + 1 := by omega
  simp only [nearest, many, ↓reduceIte, exponent]

theorem exists_between (many : ¬n < 2 ^ bits) : ∃ k, 2 ^ (k + bits) ≤ n ∧ n < 2 ^ (k + bits + 1) := by
  have positive : n ≠ 0 := by
    have := Nat.two_pow_pos bits
    omega
  have long : bits ≤ n.log2 := (Nat.le_log2 positive).mpr (not_lt.mp many)
  refine ⟨n.log2 - bits, ?_⟩
  rw [Nat.sub_add_cancel long]
  exact ⟨Nat.log2_self_le positive, Nat.lt_log2_self⟩

theorem div_unit_lt {k : Nat} (upper : n < 2 ^ (k + bits + 1)) : n / 2 ^ (k + 1) < 2 ^ bits := by
  rwa [Nat.div_lt_iff_lt_mul (Nat.two_pow_pos _), ← Nat.pow_add, show bits + (k + 1) = k + bits + 1 by omega]

theorem two_pow_le_nearest {e : Nat} (some : 1 ≤ bits) (le : 2 ^ e ≤ n) : 2 ^ e ≤ nearest bits n := by
  by_cases few : n < 2 ^ bits
  · rwa [nearest_of_lt few]
  · obtain ⟨k, lower, upper⟩ := exists_between few
    have short : e < k + bits + 1 := (Nat.pow_lt_pow_iff_right (by omega)).mp (lt_of_le_of_lt le upper)
    calc 2 ^ e ≤ 2 ^ (k + bits) := Nat.pow_le_pow_right (by omega) (by omega)
      _ = 2 ^ (bits - 1) * 2 ^ (k + 1) := by rw [← Nat.pow_add]; congr 1; omega
      _ ≤ n / 2 ^ (k + 1) * 2 ^ (k + 1) := by
        refine Nat.mul_le_mul_right _ ((Nat.le_div_iff_mul_le (Nat.two_pow_pos _)).mpr ?_)
        rwa [← Nat.pow_add, show bits - 1 + (k + 1) = k + bits by omega]
      _ ≤ nearest bits n := by
        rw [nearest_of_between lower upper]
        split
        · exact le_rfl
        · exact Nat.mul_le_mul_right _ (Nat.le_succ _)

theorem nearest_le_two_pow {e : Nat} (lt : n < 2 ^ e) : nearest bits n ≤ 2 ^ e := by
  by_cases few : n < 2 ^ bits
  · rw [nearest_of_lt few]
    exact lt.le
  · obtain ⟨k, lower, upper⟩ := exists_between few
    have long : k + bits < e := (Nat.pow_lt_pow_iff_right (by omega)).mp (lt_of_le_of_lt lower lt)
    calc nearest bits n ≤ (n / 2 ^ (k + 1) + 1) * 2 ^ (k + 1) := by
          rw [nearest_of_between lower upper]
          split
          · exact Nat.mul_le_mul_right _ (Nat.le_succ _)
          · exact le_rfl
      _ ≤ 2 ^ bits * 2 ^ (k + 1) := Nat.mul_le_mul_right _ (div_unit_lt upper)
      _ = 2 ^ (k + bits + 1) := by rw [← Nat.pow_add]; congr 1; omega
      _ ≤ 2 ^ e := Nat.pow_le_pow_right (by omega) (by omega)

theorem nearest_lt_two_pow_iff {k : Nat} (some : 1 ≤ bits) :
    nearest bits n < 2 ^ (k + bits + 1) ↔ n + 2 ^ k < 2 ^ (k + bits + 1) := by
  have double : 2 ^ (k + bits + 1) = 2 * 2 ^ (k + bits) := Nat.pow_succ'
  rcases lt_or_ge n (2 ^ (k + bits)) with low | lower
  · have reached := @nearest_le_two_pow bits n _ low
    have unit : 2 ^ k < 2 ^ (k + bits) := Nat.pow_lt_pow_right (by omega) (by omega)
    omega
  rcases lt_or_ge n (2 ^ (k + bits + 1)) with upper | high
  · have unit : 2 ^ (k + 1) = 2 * 2 ^ k := Nat.pow_succ'
    have units : 2 ^ (k + bits + 1) = 2 ^ bits * 2 ^ (k + 1) := by rw [← Nat.pow_add]; congr 1; omega
    have even : 2 ^ bits % 2 = 0 := by
      rw [show bits = bits - 1 + 1 by omega, Nat.pow_succ]
      omega
    have below := div_unit_lt upper
    have remainder := Nat.mod_lt n (Nat.two_pow_pos (k + 1))
    have divided := Nat.div_add_mod' n (2 ^ (k + 1))
    rw [nearest_of_between lower upper, units]
    generalize n / 2 ^ (k + 1) = q at *
    generalize n % 2 ^ (k + 1) = r at *
    rcases Nat.lt_or_ge (q + 1) (2 ^ bits) with inner | last
    · -- a whole unit is left above
      have room : (q + 2) * 2 ^ (k + 1) ≤ 2 ^ bits * 2 ^ (k + 1) := Nat.mul_le_mul_right _ inner
      have next : (q + 1) * 2 ^ (k + 1) = q * 2 ^ (k + 1) + 2 ^ (k + 1) := Nat.succ_mul _ _
      have afterNext : (q + 2) * 2 ^ (k + 1) = (q + 1) * 2 ^ (k + 1) + 2 ^ (k + 1) := Nat.succ_mul _ _
      split <;> omega
    · -- the last multiple is odd, so that a tie is carried as well
      obtain rfl : q = 2 ^ bits - 1 := by omega
      have full : 2 ^ bits * 2 ^ (k + 1) = (2 ^ bits - 1) * 2 ^ (k + 1) + 2 ^ (k + 1) := by
        rw [← Nat.succ_mul, Nat.succ_eq_add_one, Nat.sub_add_cancel Nat.one_le_two_pow]
      rw [Nat.sub_add_cancel Nat.one_le_two_pow]
      split <;> omega
  · have reached := two_pow_le_nearest some high
    have unit := Nat.two_pow_pos k
    omega

theorem nearest_lt_iff (some : 1 ≤ bits) : nearest bits n < 2 ^ bits ↔ n < 2 ^ bits := by
  constructor
  · intro lt
    by_contra many
    exact absurd (two_pow_le_nearest some (not_lt.mp many)) (not_le.mpr lt)
  · intro lt
    rwa [nearest_of_lt lt]

end Nearest

namespace Number

def ofInt (value : Int) : Number :=
  let magnitude := nearest 53 value.natAbs
  if magnitude < 2 ^ 1024 then .finite (value.sign * magnitude : Int) else .infinity (decide (value < 0))

def isNaN : Number → Bool
  | .nan => true
  | _ => false

def isInteger : Number → Bool
  | .finite value => value.isInt
  | _ => false

def lessThan (bound : ℚ) : Number → Bool
  | .nan => false
  | .infinity negative => negative
  | .finite value => value < bound

def integer : Number → Int
  | .finite value => value.num
  | _ => 0

def overflow : Nat := 2 ^ 1024 - 2 ^ 970

theorem safe_lt_overflow : 2 ^ 53 < overflow := by decide +kernel

theorem ofInt_natCast (n : Nat) :
    ofInt n = if n < overflow then .finite (nearest 53 n : Nat) else .infinity false := by
  have carried : nearest 53 n < 2 ^ (970 + 53 + 1) ↔ n < overflow := by
    rw [nearest_lt_two_pow_iff (by omega), overflow, Nat.lt_sub_iff_add_lt]
  have sign : (n : Int).sign * (nearest 53 n : Nat) = (nearest 53 n : Nat) := by
    cases n with
    | zero => rfl
    | succ n => rw [Int.sign_eq_one_of_pos (by omega), Int.one_mul]
  have natural : ¬(n : Int) < 0 := by omega
  simp only [ofInt, Int.natAbs_natCast, carried, sign, natural, decide_false]
  split
  · rfl
  · rfl

theorem ofInt_lessThan_of_nonpos {value : Int} (nonpos : value ≤ 0) : (ofInt value).lessThan 1 := by
  have sign : value.sign * (nearest 53 value.natAbs : Nat) ≤ 0 :=
    Int.mul_nonpos_of_nonpos_of_nonneg (by simpa using nonpos) (by omega)
  simp only [ofInt]
  split
  case isTrue => exact decide_eq_true (lt_of_le_of_lt (Int.cast_nonpos.mpr sign) one_pos)
  case isFalse large =>
    refine decide_eq_true (lt_of_le_of_ne nonpos ?_)
    rintro rfl
    have zero : nearest 53 (Int.natAbs 0) = 0 := nearest_of_lt (by decide)
    omega

theorem eq_finite_integer {x : Number} (integral : x.isInteger) : x = .finite x.integer := by
  cases x with
  | nan => cases integral
  | infinity negative => cases integral
  | finite value =>
    have den : value.den = 1 := by simpa [isInteger, Rat.isInt] using integral
    have whole : (value.num : ℚ) = value := Rat.coe_int_num_of_den_eq_one den
    rw [integer, whole]

theorem one_le_integer {x : Number} (integral : x.isInteger) (reached : ¬x.lessThan 1) : 1 ≤ x.integer := by
  rw [eq_finite_integer integral, lessThan, decide_eq_true_eq, not_lt] at reached
  exact_mod_cast reached

@[simp] theorem isInteger_natCast (n : Nat) : (finite n).isInteger := by
  simp [isInteger, Rat.isInt]

@[simp] theorem integer_natCast (n : Nat) : (finite n).integer = n := Rat.num_natCast n

end Number

/-- Digits and a power of ten that read back as `n`, as few digits as do; the power is at most the one given. -/
def shortest (n : Nat) : Nat → Nat × Nat
  | 0 => (n, 0)
  | power + 1 =>
      let unit := 10 ^ (power + 1)
      let below := n / unit
      let closest := if 2 * (n % unit) ≤ unit then [below, below + 1] else [below + 1, below]
      match closest.find? fun digits => nearest 53 (digits * unit) = n with
      | some digits => (digits, power + 1)
      | none => shortest n power

def integerToString (n : Nat) : List Char :=
  let (digits, power) := shortest n (Nat.toDigits 10 n).length
  let shown := Nat.toDigits 10 digits
  let point := shown.length + power
  if point ≤ 21 then shown ++ List.replicate power '0'
  else
    let fraction := if shown.tail = [] then [] else '.' :: shown.tail
    shown.take 1 ++ fraction ++ ['e', '+'] ++ Nat.toDigits 10 (point - 1)

theorem nearest_shortest {n : Nat} (exact : nearest 53 n = n) (power : Nat) :
    nearest 53 ((shortest n power).1 * 10 ^ (shortest n power).2) = n := by
  induction power with
  | zero => simpa [shortest] using exact
  | succ power ih =>
    simp only [shortest]
    split
    next digits found => simpa using List.find?_some found
    next => exact ih

theorem integerToString_of_lt {n : Nat} (positive : 1 ≤ n) (lt : n < 2 ^ 53) :
    integerToString n ≠ [] ∧ (∀ c ∈ integerToString n, c.isDigit) ∧ Nat.ofDigitChars 10 (integerToString n) 0 = n := by
  have exact := nearest_of_lt lt
  have back := nearest_shortest exact (Nat.toDigits 10 n).length
  unfold integerToString
  generalize shortest n (Nat.toDigits 10 n).length = written at *
  obtain ⟨digits, power⟩ := written
  simp only at back ⊢
  have held : digits * 10 ^ power < 2 ^ 53 := by
    rwa [← nearest_lt_iff (by omega), back]
  rw [nearest_of_lt held] at back
  have short : (Nat.toDigits 10 digits).length + power ≤ 21 := by
    have some : 1 ≤ digits := by
      by_contra none
      obtain rfl : digits = 0 := by omega
      omega
    have under : digits * 10 ^ power < 10 ^ 21 := lt_trans held (by norm_num)
    have power_lt : power < 21 := by
      refine (Nat.pow_lt_pow_iff_right (a := 10) (by omega)).mp (lt_of_le_of_lt ?_ under)
      exact Nat.le_mul_of_pos_left _ some
    have few : digits < 10 ^ (21 - power) := by
      refine Nat.lt_of_mul_lt_mul_right (a := 10 ^ power) ?_
      rwa [← Nat.pow_add, Nat.sub_add_cancel power_lt.le]
    have length := (Nat.length_toDigits_le_iff (by omega) (by omega)).mpr few
    omega
  simp only [short, ↓reduceIte]
  refine ⟨by simp, ?_, ?_⟩
  · intro c member
    rcases List.mem_append.mp member with shown | zero
    · exact Nat.isDigit_of_mem_toDigits (by omega) (by omega) shown
    · rw [List.eq_of_mem_replicate zero]
      rfl
  · rw [Nat.ofDigitChars_append, Nat.ofDigitChars_replicate_zero, Nat.ofDigitChars_ten_toDigits, Nat.mul_comm, back]

end EcmaScript
