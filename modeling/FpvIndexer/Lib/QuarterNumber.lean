import FpvIndexer.Services.Quarters
import FpvIndexer.EcmaScript.Text

namespace FpvIndexer
open EcmaScript

inductive QuarterNumberInput
  | quarterNumber (input : QuarterNumber)
  | string (input : String)
  | number (input : Number)

inductive Unknown
  | string (input : String)
  | number (input : Number)
  | other

def QuarterNumber.toNumber (q : QuarterNumber) : Number := .finite q.intValue

def QuarterNumber.toString (q : QuarterNumber) : String := String.ofList ('Q' :: integerToString q.intValue)

variable (lowerCase : LowerCase)

def numericString (input : String) : List Char :=
  let lower := lowerCase.toLowerCase input.toList
  if lower.head? = some 'q' then lower.tail else input.toList

def QuarterNumber.new (input : QuarterNumberInput) : Except Failure QuarterNumber :=
  let intValue : Number := match input with
    | .quarterNumber input => input.toNumber
    | .string input => parseInt (numericString lowerCase input)
    | .number input => input
  if check : intValue.isNaN ∨ ¬intValue.isInteger ∨ intValue.lessThan 1 then
    .error (.typeError "Quarter number must be an integer greather than or equal 1.")
  else
    have positive : 1 ≤ intValue.integer.toNat := by
      obtain ⟨-, integral⟩ := not_or.mp check
      obtain ⟨integral, reached⟩ := not_or.mp integral
      have := Number.one_le_integer (not_not.mp integral) reached
      omega
    .ok ⟨intValue.integer.toNat, positive⟩

def QuarterNumber.from (input : QuarterNumberInput) : Except Failure QuarterNumber := QuarterNumber.new lowerCase input

def isQuarterNumberInput : Unknown → Bool
  | .string input => (QuarterNumber.from lowerCase (.string input)).toBool
  | .number input => (QuarterNumber.from lowerCase (.number input)).toBool
  | .other => false

end FpvIndexer
