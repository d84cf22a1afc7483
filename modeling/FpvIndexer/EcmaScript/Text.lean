import FpvIndexer.EcmaScript.Number
import Mathlib.Data.List.TakeWhile

/-!
# Texts

`toLowerCase` and `parseInt` in radix ten. `parseInt` reads the longest run of digits after white space and a sign and
ignores what follows; it takes no notice of the case of a text.
-/

namespace EcmaScript

def isWhiteSpace (c : Char) : Bool :=
  let code := c.toNat
  (9 ≤ code && code ≤ 13) || code = 0x20 || code = 0xA0 || code = 0x1680 || (0x2000 ≤ code && code ≤ 0x200A) ||
    code = 0x2028 || code = 0x2029 || code = 0x202F || code = 0x205F || code = 0x3000 || code = 0xFEFF

def isNumeral (c : Char) : Bool := isWhiteSpace c || c.isDigit || c = '+' || c = '-'

theorem toLower_of_ascii {c : Char} (low : c.toNat < 128) :
    (isNumeral c → c.toLower = c) ∧ (¬isNumeral c → ¬isNumeral c.toLower) ∧ (c.toLower = 'q' ↔ c = 'q' ∨ c = 'Q') := by
  have all : ∀ code < 128, let c := Char.ofNat code
      (isNumeral c → c.toLower = c) ∧ (¬isNumeral c → ¬isNumeral c.toLower) ∧
        (c.toLower = 'q' ↔ c = 'q' ∨ c = 'Q') := by decide +kernel
  have here := all c.toNat low
  rwa [Char.ofNat_toNat] at here

theorem toLower_of_not_ascii {c : Char} (high : 128 ≤ c.toNat) : c.toLower = c := by
  have not_upper : ¬(c.val ≥ 'A'.val ∧ c.val ≤ 'Z'.val) := by
    rintro ⟨-, le⟩
    have := UInt32.le_iff_toNat_le.mp le
    exact absurd (le_trans high this) (by decide)
  exact dif_neg not_upper

theorem isDigit_iff {c : Char} : c.isDigit ↔ 48 ≤ c.toNat ∧ c.toNat ≤ 57 := by
  rw [Char.isDigit, Bool.and_eq_true, decide_eq_true_eq, decide_eq_true_eq, ge_iff_le, UInt32.le_iff_toNat_le,
    UInt32.le_iff_toNat_le]
  rfl

theorem not_isNumeral_of_not_ascii {c : Char} (high : 128 ≤ c.toNat) (dark : ¬isWhiteSpace c) : ¬isNumeral c := by
  have not_digit : ¬c.isDigit := by
    rw [isDigit_iff]
    omega
  simp only [isNumeral, dark, not_digit, Bool.false_or, Bool.or_eq_true, decide_eq_true_eq]
  rintro (rfl | rfl)
  · exact absurd high (by decide)
  · exact absurd high (by decide)

/-- A mapping of code points to lower case, which may look at the text before and after. What it does with ASCII and
white space is fixed; of the others, `İ` and the Kelvin sign are the ones with an ASCII letter in lower case. -/
structure LowerCase where
  map : List Char → Char → List Char → List Char
  ascii : ∀ before c after, c.toNat < 128 → map before c after = [c.toLower]
  whiteSpace : ∀ before c after, isWhiteSpace c → map before c after = [c]
  other : ∀ before c after, 128 ≤ c.toNat → ¬isWhiteSpace c →
    map before c after ≠ [] ∧ ∀ d ∈ map before c after, ¬isWhiteSpace d ∧ (d.toNat < 128 → d = 'i' ∨ d = 'k')

namespace LowerCase

def onlyAscii : LowerCase where
  map _ c _ := [c.toLower]
  ascii _ _ _ _ := rfl
  whiteSpace _ c _ white := by
    rcases Nat.lt_or_ge c.toNat 128 with low | high
    · rw [(toLower_of_ascii low).1 (by simp only [isNumeral, white, Bool.true_or])]
    · rw [toLower_of_not_ascii high]
  other _ c _ high dark := by
    refine ⟨List.cons_ne_nil _ _, fun d member => ?_⟩
    obtain rfl : d = c := (List.mem_singleton.mp member).trans (toLower_of_not_ascii high)
    exact ⟨dark, fun low => absurd low (not_lt.mpr high)⟩

variable (lowerCase : LowerCase)

def mapFrom (before : List Char) : List Char → List Char
  | [] => []
  | c :: after => lowerCase.map before c after ++ mapFrom (before ++ [c]) after

def toLowerCase (text : List Char) : List Char := lowerCase.mapFrom [] text

theorem map_of_isNumeral (before after : List Char) {c : Char} (numeral : isNumeral c) :
    lowerCase.map before c after = [c] := by
  by_cases white : isWhiteSpace c
  · exact lowerCase.whiteSpace before c after white
  · rcases Nat.lt_or_ge c.toNat 128 with low | high
    · rw [lowerCase.ascii before c after low, (toLower_of_ascii low).1 numeral]
    · exact absurd numeral (not_isNumeral_of_not_ascii high white)

theorem map_of_not_isNumeral (before after : List Char) {c : Char} (plain : ¬isNumeral c) :
    ∃ d rest, lowerCase.map before c after = d :: rest ∧ ¬isNumeral d ∧ (d = 'q' ↔ c = 'q' ∨ c = 'Q') := by
  rcases Nat.lt_or_ge c.toNat 128 with low | high
  · obtain ⟨-, lowered, q⟩ := toLower_of_ascii low
    exact ⟨c.toLower, [], lowerCase.ascii before c after low, lowered plain, q⟩
  · have dark : ¬isWhiteSpace c := by
      intro white
      exact plain (by simp only [isNumeral, white, Bool.true_or])
    obtain ⟨some, others⟩ := lowerCase.other before c after high dark
    obtain ⟨d, rest, mapped⟩ := List.exists_cons_of_ne_nil some
    obtain ⟨kept, not_q⟩ : ¬isNumeral d ∧ d ≠ 'q' := by
      obtain ⟨stillDark, letter⟩ := others d (mapped ▸ List.mem_cons_self)
      rcases Nat.lt_or_ge d.toNat 128 with low | stillHigh
      · rcases letter low with rfl | rfl
        · exact ⟨by decide, by decide⟩
        · exact ⟨by decide, by decide⟩
      · refine ⟨not_isNumeral_of_not_ascii stillHigh stillDark, ?_⟩
        rintro rfl
        exact absurd stillHigh (by decide)
    refine ⟨d, rest, mapped, kept, iff_of_false not_q ?_⟩
    rintro (rfl | rfl)
    · exact absurd high (by decide)
    · exact absurd high (by decide)

theorem takeWhile_mapFrom (before text : List Char) :
    (lowerCase.mapFrom before text).takeWhile isNumeral = text.takeWhile isNumeral := by
  induction text generalizing before with
  | nil => rfl
  | cons c after ih =>
    by_cases numeral : isNumeral c
    · simp only [mapFrom, lowerCase.map_of_isNumeral before after numeral, List.singleton_append, List.takeWhile_cons,
        numeral, ↓reduceIte, ih]
    · obtain ⟨d, rest, mapped, kept, -⟩ := lowerCase.map_of_not_isNumeral before after numeral
      simp only [mapFrom, mapped, List.cons_append, List.takeWhile_cons, kept, numeral, Bool.false_eq_true, ↓reduceIte]

end LowerCase

/-- `parseInt(text, 10)`. -/
def parseInt (text : List Char) : Number :=
  let trimmed := text.dropWhile isWhiteSpace
  let negative := trimmed.head? = some '-'
  let unsigned := if trimmed.head? = some '+' ∨ trimmed.head? = some '-' then trimmed.tail else trimmed
  let digits := unsigned.takeWhile Char.isDigit
  if digits = [] then .nan
  else
    let value : Int := Nat.ofDigitChars 10 digits 0
    .ofInt (if negative then -value else value)

structure Reads (text blanks sign digits rest : List Char) : Prop where
  text : text = blanks ++ (sign ++ (digits ++ rest))
  blanks : ∀ c ∈ blanks, isWhiteSpace c
  sign : sign = [] ∨ sign = ['+'] ∨ sign = ['-']
  some : digits ≠ []
  digits : ∀ c ∈ digits, c.isDigit
  rest : ∀ c ∈ rest.head?, ¬c.isDigit

theorem dropWhile_takeWhile {α : Type*} {p r : α → Bool} (subset : ∀ c, p c → r c) (l : List α) :
    (l.takeWhile r).dropWhile p = (l.dropWhile p).takeWhile r := by
  induction l with
  | nil => rfl
  | cons c l ih =>
    by_cases first : p c
    · simp only [List.takeWhile_cons, subset c first, ↓reduceIte, List.dropWhile_cons, first, ih]
    · by_cases kept : r c
      · simp only [List.takeWhile_cons, kept, ↓reduceIte, List.dropWhile_cons, first, Bool.false_eq_true]
      · simp only [List.takeWhile_cons, kept, ↓reduceIte, List.dropWhile_cons, first, Bool.false_eq_true,
          List.dropWhile_nil]

theorem parseInt_takeWhile (text : List Char) : parseInt (text.takeWhile isNumeral) = parseInt text := by
  have blank : ∀ c, isWhiteSpace c → isNumeral c := by
    intro c white
    simp only [isNumeral, white, Bool.true_or]
  have digit : ∀ c : Char, c.isDigit → isNumeral c := by
    intro c digit
    simp only [isNumeral, digit, Bool.or_true, Bool.true_or]
  have digits : ∀ l : List Char, (l.takeWhile isNumeral).takeWhile Char.isDigit = l.takeWhile Char.isDigit := by
    intro l
    rw [List.takeWhile_takeWhile]
    congr 1
    funext c
    by_cases one : c.isDigit
    · simp only [one, digit c one, and_self, decide_true]
    · simp only [one, Bool.false_eq_true, false_and, decide_false]
  unfold parseInt
  rw [dropWhile_takeWhile blank]
  cases text.dropWhile isWhiteSpace with
  | nil => rfl
  | cons c trimmed =>
    by_cases sign : c = '+' ∨ c = '-'
    · have numeral : isNumeral c := by
        rcases sign with rfl | rfl <;> rfl
      simp only [List.takeWhile_cons, numeral, ↓reduceIte, List.head?_cons, Option.some.injEq, sign, List.tail_cons,
        digits]
    · have same := digits (c :: trimmed)
      by_cases numeral : isNumeral c
      · simp only [List.takeWhile_cons, numeral, ↓reduceIte, List.head?_cons, Option.some.injEq, sign] at same ⊢
        rw [same]
      · have not_digit : ¬c.isDigit := fun one => numeral (digit c one)
        simp only [List.takeWhile_cons, numeral, not_digit, Bool.false_eq_true, ↓reduceIte, List.head?_nil,
          List.head?_cons, Option.some.injEq, reduceCtorEq, or_self, sign, List.takeWhile_nil]

theorem digit_cases {c : Char} (digit : c.isDigit) : ¬isWhiteSpace c ∧ c ≠ '+' ∧ c ≠ '-' := by
  have bounds := isDigit_iff.mp digit
  refine ⟨?_, ?_, ?_⟩
  · simp only [isWhiteSpace, Bool.or_eq_true, Bool.and_eq_true, decide_eq_true_eq]
    omega
  · rintro rfl
    exact absurd digit (by decide)
  · rintro rfl
    exact absurd digit (by decide)

theorem parseInt_of_reads {text blanks sign digits rest : List Char} (reads : Reads text blanks sign digits rest) :
    parseInt text =
      .ofInt (if sign = ['-'] then -(Nat.ofDigitChars 10 digits 0 : Int) else Nat.ofDigitChars 10 digits 0) := by
  have untrimmed : ∀ c l, ¬isWhiteSpace c → (blanks ++ c :: l).dropWhile isWhiteSpace = c :: l := by
    intro c l dark
    rw [List.dropWhile_append_of_pos reads.blanks, List.dropWhile_cons_of_neg dark]
  have run : (digits ++ rest).takeWhile Char.isDigit = digits := by
    rw [List.takeWhile_append_of_pos reads.digits]
    cases rest with
    | nil => exact List.append_nil digits
    | cons c rest => rw [List.takeWhile_cons_of_neg (reads.rest c rfl), List.append_nil]
  obtain ⟨d, ds, rfl⟩ := List.exists_cons_of_ne_nil reads.some
  obtain ⟨dark, not_plus, not_minus⟩ := digit_cases (reads.digits d List.mem_cons_self)
  rw [reads.text]
  rw [List.cons_append] at run ⊢
  rcases reads.sign with rfl | rfl | rfl
  · simp only [parseInt, List.nil_append, untrimmed d _ dark, List.head?_cons, Option.some.injEq, not_plus, not_minus,
      or_self, ↓reduceIte, run, List.cons_ne_nil, reduceCtorEq]
  · simp only [parseInt, List.cons_append, List.nil_append, untrimmed '+' _ (by decide), List.head?_cons, true_or,
      ↓reduceIte, List.tail_cons, run, List.cons_ne_nil, Option.some.injEq, Char.reduceEq, List.cons.injEq, false_and]
  · simp only [parseInt, List.cons_append, List.nil_append, untrimmed '-' _ (by decide), List.head?_cons, or_true,
      ↓reduceIte, List.tail_cons, run, List.cons_ne_nil]

theorem Reads.eq_nil {text blanks sign digits rest : List Char} (reads : Reads text blanks sign digits rest)
    (all : ∀ c ∈ text, c.isDigit) : blanks = [] ∧ sign = [] ∧ rest = [] := by
  rw [reads.text] at all
  simp only [List.mem_append] at all
  refine ⟨?_, ?_, ?_⟩
  · cases blanks with
    | nil => rfl
    | cons c _ => exact absurd (reads.blanks c List.mem_cons_self) (digit_cases (all c (by simp))).1
  · rcases reads.sign with rfl | rfl | rfl
    · rfl
    · exact absurd rfl (digit_cases (all '+' (by simp))).2.1
    · exact absurd rfl (digit_cases (all '-' (by simp))).2.2
  · cases rest with
    | nil => rfl
    | cons c _ => exact absurd (all c (by simp)) (reads.rest c rfl)

theorem exists_digits {l : List Char} (some : l.takeWhile Char.isDigit ≠ []) :
    ∃ digits rest, l = digits ++ rest ∧ digits ≠ [] ∧ (∀ c ∈ digits, c.isDigit) ∧ ∀ c ∈ rest.head?, ¬c.isDigit := by
  refine ⟨_, _, List.takeWhile_append_dropWhile.symm, some, fun c => List.mem_takeWhile_imp, fun c first digit => ?_⟩
  have stopped := List.head?_dropWhile_not Char.isDigit l
  rw [Option.mem_def.mp first] at stopped
  exact absurd digit (by rw [stopped]; decide)

theorem exists_reads {text : List Char} (number : parseInt text ≠ .nan) :
    ∃ blanks sign digits rest, Reads text blanks sign digits rest := by
  have blanks : ∀ c ∈ text.takeWhile isWhiteSpace, isWhiteSpace c := fun c => List.mem_takeWhile_imp
  have parts := (@List.takeWhile_append_dropWhile _ isWhiteSpace text).symm
  have signed : ∀ c l, text.dropWhile isWhiteSpace = c :: l → c = '+' ∨ c = '-' → l.takeWhile Char.isDigit ≠ [] →
      ∃ blanks sign digits rest, Reads text blanks sign digits rest := by
    intro c l trimmed sign some
    obtain ⟨digits, rest, unsigned, some, digit, stopped⟩ := exists_digits some
    rw [trimmed, unsigned] at parts
    exact ⟨_, [c], digits, rest, parts, blanks, by simpa using sign, some, digit, stopped⟩
  have some : (if (text.dropWhile isWhiteSpace).head? = some '+' ∨ (text.dropWhile isWhiteSpace).head? = some '-' then
      (text.dropWhile isWhiteSpace).tail else text.dropWhile isWhiteSpace).takeWhile Char.isDigit ≠ [] := by
    intro none
    exact number (by simp only [parseInt, none, ↓reduceIte])
  split at some
  case isTrue sign =>
    obtain ⟨c, l, trimmed⟩ : ∃ c l, text.dropWhile isWhiteSpace = c :: l := by
      cases trimmed : text.dropWhile isWhiteSpace with
      | nil => simp [trimmed] at sign
      | cons c l => exact ⟨c, l, rfl⟩
    rw [trimmed] at sign some
    exact signed c l trimmed (by simpa using sign) some
  case isFalse =>
    obtain ⟨digits, rest, unsigned, some, digit, stopped⟩ := exists_digits some
    rw [unsigned] at parts
    exact ⟨_, [], digits, rest, parts, blanks, .inl rfl, some, digit, stopped⟩

theorem parseInt_eq_finite_iff {text : List Char} {n : Nat} (positive : 1 ≤ n) :
    parseInt text = .finite n ↔
      ∃ blanks sign digits rest, Reads text blanks sign digits rest ∧ sign ≠ ['-'] ∧
        Nat.ofDigitChars 10 digits 0 < Number.overflow ∧ nearest 53 (Nat.ofDigitChars 10 digits 0) = n := by
  constructor
  · intro read
    obtain ⟨blanks, sign, digits, rest, reads⟩ := @exists_reads text (by rw [read]; exact Number.noConfusion)
    refine ⟨blanks, sign, digits, rest, reads, ?_⟩
    rw [parseInt_of_reads reads] at read
    split at read
    case isTrue =>
      have below := @Number.ofInt_lessThan_of_nonpos (-Nat.ofDigitChars 10 digits 0) (by omega)
      rw [read] at below
      have lt : (n : ℚ) < 1 := of_decide_eq_true below
      exact absurd (Nat.one_le_cast.mpr positive) (not_le.mpr lt)
    case isFalse unsigned =>
      rw [Number.ofInt_natCast] at read
      split at read
      case isTrue lt =>
        injection read with same
        exact ⟨unsigned, lt, Nat.cast_injective (R := ℚ) same⟩
      case isFalse => cases read
  · rintro ⟨blanks, sign, digits, rest, reads, unsigned, lt, rfl⟩
    rw [parseInt_of_reads reads, if_neg unsigned, Number.ofInt_natCast, if_pos lt]

end EcmaScript
