/-
This file holds the reading of a floating-point number from its text.
-/

import Fluent.Double
import Fluent.Error
import Fluent.Text.Digits

namespace Fluent.Double

/-- An unsigned numeral has a digit, at most one point, and perhaps an exponent. -/
def ofDigits? (negative : Bool) (text : List Char) : Option Double :=
  let (whole, rest) := Digits.read text
  let (fraction, rest) :=
    match rest with
    | '.' :: rest => Digits.read rest
    | _ => ([], rest)
  if whole.isEmpty && fraction.isEmpty then none
  else
    match Digits.readExponent rest with
    | some (exponent, []) =>
      some (ofDecimal negative (Digits.value (whole ++ fraction))
        (exponent.getD 0 - fraction.length))
    | _ => none

/-- A numeral without its sign, or one of the words for what is no finite number. -/
def ofUnsigned? (negative : Bool) (text : List Char) : Option Double :=
  let word := String.ofList (text.map Char.toLower)
  if word = "inf" ∨ word = "infinity" then some (.infinite negative)
  else if word = "nan" then some .nan
  else ofDigits? negative text

/-- Reads a number with an optional sign. -/
def parse (text : List Char) : Except FloatFault Double :=
  match text with
  | [] => .error .empty
  | '-' :: rest => (ofUnsigned? true rest).elim (.error .invalid) .ok
  | '+' :: rest => (ofUnsigned? false rest).elim (.error .invalid) .ok
  | text => (ofUnsigned? false text).elim (.error .invalid) .ok

end Fluent.Double
