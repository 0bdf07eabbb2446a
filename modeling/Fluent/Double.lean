/-
This file holds the binary floating-point numbers of 64 bits, with exact rounding of ratios.
-/

namespace Fluent

/-- A finite number without its sign, `mantissa * 2 ^ exponent`. -/
structure Magnitude where
  mantissa : Nat
  exponent : Int
  deriving DecidableEq, Repr

/-- A power with a whole exponent, and one where the exponent is negative. -/
def power (base : Nat) (exponent : Int) : Nat :=
  base.pow exponent.toNat

/-- The leading bit of a mantissa of 53 bits. -/
def leadingBit : Nat := 0x10000000000000

inductive Double where
  | finite (negative : Bool) (magnitude : Magnitude)
  | infinite (negative : Bool)
  | nan
  deriving DecidableEq, Repr

/-- The quotient rounded to the nearest whole number, a half to the even one. -/
def roundHalfEven (numerator denominator : Nat) : Nat :=
  let quotient := numerator / denominator
  let remainder := numerator % denominator
  if 2 * remainder < denominator then quotient
  else if denominator < 2 * remainder then quotient + 1
  else quotient + quotient % 2

/-- A rounded quotient is at most half a unit away from the exact one. -/
theorem roundHalfEven_near (numerator denominator : Nat) (positive : 0 < denominator) :
    2 * (roundHalfEven numerator denominator * denominator) ≤ 2 * numerator + denominator ∧
      2 * numerator ≤ 2 * (roundHalfEven numerator denominator * denominator) + denominator := by
  have whole := Nat.div_add_mod numerator denominator
  have below := Nat.mod_lt numerator positive
  simp only [roundHalfEven]
  generalize numerator / denominator = quotient at *
  generalize numerator % denominator = remainder at *
  have next : (quotient + 1) * denominator = denominator * quotient + denominator := by
    rw [Nat.add_mul, Nat.mul_comm]
    simp
  have same : quotient * denominator = denominator * quotient := Nat.mul_comm ..
  have parity : quotient % 2 = 0 ∨ quotient % 2 = 1 := Nat.mod_two_eq_zero_or_one quotient
  generalize product : denominator * quotient = total at *
  split
  · omega
  · split
    · omega
    · rcases parity with even | odd
      · rw [even, Nat.add_zero]
        omega
      · rw [odd]
        omega

namespace Magnitude

/-- The least exponent, that of the subnormal numbers. -/
def minExponent : Int := -1074

/-- The exponent of the greatest finite numbers. -/
def maxExponent : Int := 971

def zero : Magnitude :=
  ⟨0, minExponent⟩

/-- The number as a ratio. -/
def numerator (magnitude : Magnitude) : Nat :=
  magnitude.mantissa * power 2 magnitude.exponent

def denominator (magnitude : Magnitude) : Nat :=
  power 2 (-magnitude.exponent)

/-- The exponent at which the mantissa of a positive ratio has 53 bits, or the least exponent. -/
def fittingExponent (numerator denominator : Nat) : Int :=
  let estimate : Int := (Nat.log2 numerator : Int) - Nat.log2 denominator - 52
  let tooSmall :=
    numerator * power 2 (-estimate) < leadingBit * (denominator * power 2 estimate)
  max minExponent (if tooSmall then estimate - 1 else estimate)

/-- The finite number nearest to a ratio, with ties to the even mantissa, or `none` beyond all. -/
def ofRatio (numerator denominator : Nat) : Option Magnitude :=
  if numerator = 0 then some zero
  else
    let exponent := fittingExponent numerator denominator
    let mantissa :=
      roundHalfEven (numerator * power 2 (-exponent)) (denominator * power 2 exponent)
    let rounded : Magnitude :=
      if mantissa = 2 * leadingBit then ⟨leadingBit, exponent + 1⟩ else ⟨mantissa, exponent⟩
    if maxExponent < rounded.exponent then none else some rounded

def mul (first second : Magnitude) : Option Magnitude :=
  ofRatio (first.numerator * second.numerator) (first.denominator * second.denominator)

def div (first second : Magnitude) : Option Magnitude :=
  ofRatio (first.numerator * second.denominator) (first.denominator * second.numerator)

/-- The number nearest to `digits * 10 ^ exponent`; no power is formed far outside the range. -/
def ofDecimal (digits : Nat) (exponent : Int) : Option Magnitude :=
  let places : Int := (Nat.toDigits 10 digits).length + exponent
  if digits = 0 then some zero
  else if 310 ≤ places then none
  else if places ≤ -324 then some zero
  else ofRatio (digits * power 10 exponent) (power 10 (-exponent))

end Magnitude

namespace Double

def ofDecimal (negative : Bool) (digits : Nat) (exponent : Int) : Double :=
  match Magnitude.ofDecimal digits exponent with
  | some magnitude => .finite negative magnitude
  | none => .infinite negative

def zero : Double :=
  .finite false .zero

def signBit (negative : Bool) : Nat :=
  if negative then 0x8000000000000000 else 0

/-- The interchange format: sign, biased exponent, and the mantissa without its leading bit. -/
def toBits : Double → UInt64
  | .finite negative magnitude =>
    let biased :=
      if magnitude.mantissa < leadingBit then 0 else (magnitude.exponent + 1075).toNat
    UInt64.ofNat (signBit negative + biased * leadingBit + magnitude.mantissa % leadingBit)
  | .infinite negative => UInt64.ofNat (signBit negative + 2047 * leadingBit)
  | .nan => UInt64.ofNat (2047 * leadingBit + leadingBit / 2)

example : toBits (ofDecimal false 15 (-1)) = 0x3ff8000000000000 := by decide +kernel

example : toBits (ofDecimal false 1 (-1)) = 0x3fb999999999999a := by decide +kernel

example : toBits (ofDecimal false 5 (-324)) = 1 := by decide +kernel

example : toBits (ofDecimal true 17976931348623157 292) = 0xffefffffffffffff := by decide +kernel

example : ofDecimal false 179769313486231581 291 = .infinite false := by decide +kernel

end Double

end Fluent
