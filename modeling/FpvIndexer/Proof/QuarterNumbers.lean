import FpvIndexer.Lib.QuarterNumber

namespace FpvIndexer
namespace Proof.QuarterNumbers
open EcmaScript

/-- An optional `q` or `Q`, and digits for a number from one to the greatest safe integer. -/
def InGrammar (text : String) (n : Nat) : Prop :=
  ∃ digits : List Char, (text.toList = digits ∨ text.toList = 'q' :: digits ∨ text.toList = 'Q' :: digits) ∧
    digits ≠ [] ∧ (∀ c ∈ digits, c.isDigit) ∧ Nat.ofDigitChars 10 digits 0 = n ∧ 1 ≤ n ∧ n ≤ 2 ^ 53 - 1

structure MeetsGrammar (lowerCase : LowerCase) (text : String) : Prop where
  accepts : (∃ q, QuarterNumber.from lowerCase (.string text) = .ok q) ↔ ∃ n, InGrammar text n
  value : ∀ n, InGrammar text n → ∀ q, QuarterNumber.from lowerCase (.string text) = .ok q → q.toNumber = .finite n
  input : isQuarterNumberInput lowerCase (.string text) ↔ ∃ n, InGrammar text n
  roundTrip : ∀ q, QuarterNumber.from lowerCase (.string text) = .ok q →
    QuarterNumber.from lowerCase (.string q.toString) = .ok q

def unprefixed : List Char → List Char
  | [] => []
  | c :: text => if c = 'q' ∨ c = 'Q' then text else c :: text

/-- Digits for a number from one on that is finite, with white space or a sign before them, something behind them, or a
number that is not safe. -/
def Misread (text : String) : Prop :=
  ∃ blanks sign digits rest, Reads (unprefixed text.toList) blanks sign digits rest ∧ sign ≠ ['-'] ∧
    1 ≤ Nat.ofDigitChars 10 digits 0 ∧ Nat.ofDigitChars 10 digits 0 < Number.overflow ∧
    (blanks ≠ [] ∨ sign ≠ [] ∨ rest ≠ [] ∨ 2 ^ 53 ≤ Nat.ofDigitChars 10 digits 0)

variable {lowerCase : LowerCase}

theorem parseInt_numericString (text : String) :
    parseInt (numericString lowerCase text) = parseInt (unprefixed text.toList) := by
  unfold numericString LowerCase.toLowerCase
  cases text.toList with
  | nil => rfl
  | cons c tail =>
    by_cases prefixed : c = 'q' ∨ c = 'Q'
    · have mapped : lowerCase.map [] c tail = ['q'] := by
        rcases prefixed with rfl | rfl
        · exact lowerCase.ascii _ _ _ (by decide)
        · exact lowerCase.ascii _ _ _ (by decide)
      simp only [LowerCase.mapFrom, mapped, List.singleton_append, List.head?_cons, ↓reduceIte, List.tail_cons,
        unprefixed, prefixed]
      rw [← parseInt_takeWhile, lowerCase.takeWhile_mapFrom, parseInt_takeWhile]
    · have kept : (lowerCase.mapFrom [] (c :: tail)).head? ≠ some 'q' := by
        by_cases numeral : isNumeral c
        · simp only [LowerCase.mapFrom, lowerCase.map_of_isNumeral _ _ numeral, List.singleton_append, List.head?_cons]
          rintro ⟨⟩
          exact prefixed (.inl rfl)
        · obtain ⟨d, rest, mapped, -, q⟩ := lowerCase.map_of_not_isNumeral [] tail numeral
          simp only [LowerCase.mapFrom, mapped, List.cons_append, List.head?_cons]
          rintro ⟨⟩
          exact prefixed (q.mp rfl)
      simp only [kept, ↓reduceIte, unprefixed, prefixed]

theorem from_number_eq_ok_iff {x : Number} {q : QuarterNumber} :
    QuarterNumber.from lowerCase (.number x) = .ok q ↔ x = q.toNumber := by
  simp only [QuarterNumber.from, QuarterNumber.new, QuarterNumber.toNumber]
  constructor
  · intro made
    split at made
    case isTrue => cases made
    case isFalse check =>
      injection made with same
      obtain ⟨-, checked⟩ := not_or.mp check
      obtain ⟨integral, reached⟩ := not_or.mp checked
      have least := Number.one_le_integer (not_not.mp integral) reached
      have natural : (q.intValue : Int) = x.integer := by
        rw [← same]
        exact Int.toNat_of_nonneg (by omega)
      calc x = .finite x.integer := Number.eq_finite_integer (not_not.mp integral)
        _ = .finite q.intValue := by rw [← natural, Int.cast_natCast]
  · rintro rfl
    have reached : ¬(q.intValue : ℚ) < 1 := not_lt.mpr (Nat.one_le_cast.mpr q.positive)
    simp [Number.isNaN, Number.lessThan, reached]

theorem from_string (text : String) :
    QuarterNumber.from lowerCase (.string text) =
      QuarterNumber.from lowerCase (.number (parseInt (unprefixed text.toList))) := by
  simp only [QuarterNumber.from, QuarterNumber.new, parseInt_numericString]

theorem unprefixed_of_digits {digits : List Char} (all : ∀ c ∈ digits, c.isDigit) : unprefixed digits = digits := by
  cases digits with
  | nil => rfl
  | cons c tail =>
    have not_prefix : ¬(c = 'q' ∨ c = 'Q') := by
      rintro (rfl | rfl)
      · exact absurd (all 'q' List.mem_cons_self) (by decide)
      · exact absurd (all 'Q' List.mem_cons_self) (by decide)
    exact if_neg not_prefix

theorem inGrammar_iff {text : String} {n : Nat} :
    InGrammar text n ↔
      ∃ digits, Reads (unprefixed text.toList) [] [] digits [] ∧ Nat.ofDigitChars 10 digits 0 = n ∧ 1 ≤ n ∧
        n ≤ 2 ^ 53 - 1 := by
  constructor
  · rintro ⟨digits, shape, some, all, value⟩
    have bare : unprefixed text.toList = digits := by
      rcases shape with whole | lower | upper
      · rw [whole, unprefixed_of_digits all]
      · rw [lower]
        rfl
      · rw [upper]
        rfl
    refine ⟨digits, ⟨?_, by simp, .inl rfl, some, all, by simp⟩, value⟩
    rw [bare, List.append_nil]
    rfl
  · rintro ⟨digits, reads, value⟩
    refine ⟨digits, ?_, reads.some, reads.digits, value⟩
    have bare : unprefixed text.toList = digits := by simpa using reads.text
    cases shape : text.toList with
    | nil => exact absurd (by rw [← bare, shape]; rfl) reads.some
    | cons c tail =>
      rw [shape, unprefixed] at bare
      split at bare
      case isTrue prefixed =>
        rcases prefixed with rfl | rfl
        · exact .inr (.inl (by rw [bare]))
        · exact .inr (.inr (by rw [bare]))
      case isFalse => exact .inl bare

section
variable (lowerCase)

theorem from_of_inGrammar {text : String} {n : Nat} (grammar : InGrammar text n) :
    ∃ q, QuarterNumber.from lowerCase (.string text) = .ok q ∧ q.intValue = n := by
  obtain ⟨digits, reads, rfl, positive, safe⟩ := inGrammar_iff.mp grammar
  have lt : Nat.ofDigitChars 10 digits 0 < 2 ^ 53 := by omega
  refine ⟨⟨_, positive⟩, ?_, rfl⟩
  rw [from_string, from_number_eq_ok_iff]
  exact (parseInt_eq_finite_iff positive).mpr
    ⟨[], [], digits, [], reads, by simp, lt_trans lt Number.safe_lt_overflow, nearest_of_lt lt⟩

theorem from_of_misread {text : String} (misread : Misread text) :
    ∃ q, QuarterNumber.from lowerCase (.string text) = .ok q := by
  obtain ⟨blanks, sign, digits, rest, reads, unsigned, positive, finite, -⟩ := misread
  have least : 1 ≤ nearest 53 (Nat.ofDigitChars 10 digits 0) := @two_pow_le_nearest 53 _ 0 (by omega) positive
  refine ⟨⟨_, least⟩, ?_⟩
  rw [from_string, from_number_eq_ok_iff]
  exact (parseInt_eq_finite_iff least).mpr ⟨blanks, sign, digits, rest, reads, unsigned, finite, rfl⟩

theorem from_toString {q : QuarterNumber} (safe : q.intValue < 2 ^ 53) :
    QuarterNumber.from lowerCase (.string q.toString) = .ok q := by
  obtain ⟨some, all, value⟩ := integerToString_of_lt q.positive safe
  have grammar : InGrammar q.toString q.intValue :=
    ⟨_, .inr (.inr String.toList_ofList), some, all, value, q.positive, by omega⟩
  obtain ⟨q', made, same⟩ := from_of_inGrammar lowerCase grammar
  rw [made, QuarterNumber.ext same]

end

theorem inGrammar_or_misread {text : String} {q : QuarterNumber}
    (made : QuarterNumber.from lowerCase (.string text) = .ok q) : InGrammar text q.intValue ∨ Misread text := by
  rw [from_string, from_number_eq_ok_iff] at made
  obtain ⟨blanks, sign, digits, rest, reads, unsigned, finite, value⟩ := (parseInt_eq_finite_iff q.positive).mp made
  have positive : 1 ≤ Nat.ofDigitChars 10 digits 0 := by
    by_contra zero
    have zero : Nat.ofDigitChars 10 digits 0 = 0 := by omega
    have least := q.positive
    rw [← value, zero, nearest_of_lt (by omega)] at least
    omega
  by_cases clean : blanks = [] ∧ sign = [] ∧ rest = [] ∧ Nat.ofDigitChars 10 digits 0 < 2 ^ 53
  · obtain ⟨rfl, rfl, rfl, lt⟩ := clean
    rw [nearest_of_lt lt] at value
    exact .inl (inGrammar_iff.mpr ⟨digits, reads, value, q.positive, by omega⟩)
  · refine .inr ⟨blanks, sign, digits, rest, reads, unsigned, positive, finite, ?_⟩
    by_contra none
    push Not at none
    exact clean none

theorem not_inGrammar_of_misread {text : String} (misread : Misread text) (n : Nat) : ¬InGrammar text n := by
  intro grammar
  obtain ⟨all, clean, rfl, -, safe⟩ := inGrammar_iff.mp grammar
  obtain ⟨blanks, sign, digits, rest, reads, -, -, -, around⟩ := misread
  have bare : unprefixed text.toList = all := by simpa using clean.text
  obtain ⟨rfl, rfl, rfl⟩ := reads.eq_nil (by rw [bare]; exact clean.digits)
  have same : all = digits := by simpa [bare] using reads.text
  subst same
  simp only [ne_eq, not_true_eq_false, false_or] at around
  omega

theorem meetsGrammar_iff (lowerCase : LowerCase) (text : String) : MeetsGrammar lowerCase text ↔ ¬Misread text := by
  constructor
  · intro meets misread
    obtain ⟨n, grammar⟩ := meets.accepts.mp (from_of_misread lowerCase misread)
    exact not_inGrammar_of_misread misread n grammar
  · intro clean
    have grammar : ∀ q, QuarterNumber.from lowerCase (.string text) = .ok q → InGrammar text q.intValue :=
      fun q made => (inGrammar_or_misread made).resolve_right clean
    have accepts : (∃ q, QuarterNumber.from lowerCase (.string text) = .ok q) ↔ ∃ n, InGrammar text n := by
      constructor
      · rintro ⟨q, made⟩
        exact ⟨q.intValue, grammar q made⟩
      · rintro ⟨n, inGrammar⟩
        obtain ⟨q, made, -⟩ := from_of_inGrammar lowerCase inGrammar
        exact ⟨q, made⟩
    refine ⟨accepts, ?_, ?_, ?_⟩
    · intro n inGrammar q made
      obtain ⟨q', made', same⟩ := from_of_inGrammar lowerCase inGrammar
      obtain rfl : q' = q := Except.ok.inj (made'.symm.trans made)
      rw [QuarterNumber.toNumber, same]
    · rw [← accepts, isQuarterNumberInput]
      cases made : QuarterNumber.from lowerCase (.string text) with
      | error failure => simp [Except.toBool]
      | ok q => simp [Except.toBool]
    · intro q made
      obtain ⟨-, -, -, -, -, -, safe⟩ := grammar q made
      exact from_toString lowerCase (by omega)

theorem letters_after_quarter_ignored : ¬MeetsGrammar .onlyAscii "Q1abc" := by
  intro meets
  have made : QuarterNumber.from .onlyAscii (.string "Q1abc") = .ok ⟨1, by omega⟩ := by decide +kernel
  obtain ⟨n, digits, shape, -, all, -⟩ := meets.accepts.mp ⟨_, made⟩
  have letters : 'a' ∈ digits := by
    have split : "Q1abc".toList = ['Q', '1', 'a', 'b', 'c'] := by decide +kernel
    rw [split] at shape
    rcases shape with rfl | lower | upper
    · decide
    · exact absurd (List.cons.inj lower).1 (by decide)
    · rw [← (List.cons.inj upper).2]
      decide
  exact absurd (all 'a' letters) (by decide)

end Proof.QuarterNumbers
end FpvIndexer
