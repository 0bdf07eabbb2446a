/-
This file holds the shortest decimal form of a floating-point number that reads back.
-/

import Fluent.Double

namespace Fluent

/-- The number `digits * 10 ^ exponent`. -/
structure Decimal where
  digits : Nat
  exponent : Int
  deriving DecidableEq, Repr

/-- Compares `digits * 10 ^ power` with `mantissa * 2 ^ exponent`, exactly. -/
def Decimal.compareBinary (decimal : Decimal) (mantissa : Nat) (exponent : Int) : Ordering :=
  compare (decimal.digits * power 10 decimal.exponent * power 2 (-exponent))
    (mantissa * power 2 exponent * power 10 (-decimal.exponent))

/-- Drops trailing zeros of the digits into the exponent. -/
def Decimal.strip (decimal : Decimal) : Decimal :=
  if divisible : decimal.digits ≠ 0 ∧ decimal.digits % 10 = 0 then
    strip ⟨decimal.digits / 10, decimal.exponent + 1⟩
  else decimal
termination_by decimal.digits
decreasing_by omega

namespace Magnitude

/-- Below a power of two above the subnormal numbers, the next number is half as far away. -/
def narrowBelow (magnitude : Magnitude) : Bool :=
  magnitude.mantissa = leadingBit && minExponent < magnitude.exponent

/-- A decimal reads back between the halves to the neighbours, which an even mantissa includes. -/
def readsBack (magnitude : Magnitude) (decimal : Decimal) : Bool :=
  let quarters := 4 * magnitude.mantissa
  let low := if magnitude.narrowBelow then quarters - 1 else quarters - 2
  let even := magnitude.mantissa % 2 = 0
  let fromLow := decimal.compareBinary low (magnitude.exponent - 2)
  let fromHigh := decimal.compareBinary (quarters + 2) (magnitude.exponent - 2)
  (fromLow = .gt || (even && fromLow = .eq)) && (fromHigh = .lt || (even && fromHigh = .eq))

/-- The better one of the two neighbours among the multiples of `10 ^ exponent` that reads back. -/
def onGrid (magnitude : Magnitude) (exponent : Int) : Option Decimal :=
  let scaled := magnitude.numerator * power 10 (-exponent)
  let unit := magnitude.denominator * power 10 exponent
  let below : Decimal := ⟨scaled / unit, exponent⟩
  let above : Decimal := ⟨scaled / unit + 1, exponent⟩
  match magnitude.readsBack below, magnitude.readsBack above with
  | false, false => none
  | true, false => some below
  | false, true => some above
  | true, true => some ⟨roundHalfEven scaled unit, exponent⟩

/-- The exact value in decimal. -/
def toDecimal (magnitude : Magnitude) : Decimal :=
  ⟨magnitude.numerator * power 5 (-magnitude.exponent), min 0 magnitude.exponent⟩

/-- The powers of ten that the digits of a number can end at, from the coarsest. -/
def grids : List Int :=
  (List.range 652).map fun step : Nat => 310 - (step : Int)

/-- The decimal with the fewest digits that reads back as this positive number. -/
def shortest (magnitude : Magnitude) : Decimal :=
  ((grids.findSome? magnitude.onGrid).getD magnitude.toDecimal).strip

end Magnitude

/-- A leading digit with an exponent from -5 to 15 is written plainly, any other with a sign. -/
def Decimal.render (decimal : Decimal) : String :=
  let digits := Nat.toDigits 10 decimal.digits
  let leading : Int := decimal.exponent + digits.length - 1
  if -5 ≤ leading ∧ leading < 16 then
    if 0 ≤ decimal.exponent then
      String.ofList (digits ++ List.replicate decimal.exponent.toNat '0') ++ ".0"
    else if 0 ≤ leading then
      String.ofList (digits.take (leading.toNat + 1)) ++ "."
        ++ String.ofList (digits.drop (leading.toNat + 1))
    else "0." ++ String.ofList (List.replicate (-leading - 1).toNat '0' ++ digits)
  else
    let fraction := digits.drop 1
    let sign := if leading < 0 then "-" else "+"
    String.ofList (digits.take 1) ++ (if fraction.isEmpty then "" else ".")
      ++ String.ofList fraction ++ "e" ++ sign ++ toString leading.natAbs

/-- The written form of a number; infinities and the undefined number have none. -/
def Double.render? : Double → Option String
  | .finite negative magnitude =>
    let sign := if negative then "-" else ""
    if magnitude.mantissa = 0 then some (sign ++ "0.0")
    else some (sign ++ magnitude.shortest.render)
  | .infinite _ | .nan => none

end Fluent
