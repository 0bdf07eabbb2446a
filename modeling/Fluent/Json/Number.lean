/-
This file holds the numbers of JSON: their numerals, and the values that numerals denote.
-/

import Fluent.Double.Shortest
import Fluent.Text.Digits

namespace Fluent.Json

/-- A number as it is written, in digits below ten; `fraction` is empty where there is no point. -/
structure Numeral where
  negative : Bool
  whole : List Nat
  fraction : List Nat
  exponent : Option Int
  deriving DecidableEq, Repr

inductive Number where
  | integer (value : Int)
  | float (value : Double)
  deriving DecidableEq, Repr

/-- The digits before the point: a zero alone, or digits that do not start with one. -/
def readWhole : List Char → Option (List Nat × List Char)
  | '0' :: rest => some ([0], rest)
  | text => Digits.readSome text

/-- The point and the digits behind it, at least one, or nothing. -/
def readFraction : List Char → Option (List Nat × List Char)
  | '.' :: rest => Digits.readSome rest
  | text => some ([], text)

/-- A numeral after its sign. -/
def readUnsigned (negative : Bool) (text : List Char) : Option (Numeral × List Char) := do
  let (whole, rest) ← readWhole text
  let (fraction, rest) ← readFraction rest
  let (exponent, rest) ← Digits.readExponent rest
  return (⟨negative, whole, fraction, exponent⟩, rest)

def readNumeral : List Char → Option (Numeral × List Char)
  | '-' :: rest => readUnsigned true rest
  | text => readUnsigned false text

/-- The first number that 64 bits do not hold. -/
def wordLimit : Nat := 0x10000000000000000

/-- Digits that count: as many leading ones as fit into 64 bits, as a number, and those left. -/
def significand (start : Nat) : List Nat → Nat × List Nat
  | [] => (start, [])
  | digit :: rest =>
    if start * 10 + digit < wordLimit then significand (start * 10 + digit) rest
    else (start, digit :: rest)

/-- A power of ten, rounded. -/
def powerOfTen (exponent : Nat) : Option Magnitude :=
  Magnitude.ofRatio (power 10 exponent) 1

/-- The last power of ten that is no infinity. -/
def greatestPower : Nat := 308

/-- A number times a rounded power of ten; `none` if it gets too large. -/
def scaleUp (base : Magnitude) (exponent : Nat) : Option Magnitude :=
  if exponent ≤ greatestPower then (powerOfTen exponent).bind base.mul
  else if base.mantissa = 0 then some base
  else none

/-- Divides by the greatest power of ten a number of times, or until nothing is left. -/
def shrink : Nat → Magnitude → Option Magnitude
  | 0, base => some base
  | times + 1, base =>
    if base.mantissa = 0 then some base
    else ((powerOfTen greatestPower).bind base.div).bind (shrink times)

/-- A number divided by a rounded power of ten, in steps where that is beyond the range. -/
def scaleDown (base : Magnitude) (exponent : Nat) : Option Magnitude :=
  let times := (exponent - 1) / greatestPower
  (shrink times base).bind fun shrunk =>
    (powerOfTen (exponent - times * greatestPower)).bind shrunk.div

namespace Numeral

/-- Whether the numeral has neither a point nor an exponent. -/
def isWhole (numeral : Numeral) : Bool :=
  numeral.fraction.isEmpty && numeral.exponent.isNone

/-- The digits that fit into 64 bits are rounded and scaled by the power of ten that is left. -/
def float? (numeral : Numeral) : Option Double :=
  let (leading, wholeLeft) := significand 0 numeral.whole
  let (digits, fractionLeft) := significand leading numeral.fraction
  let places : Int := (wholeLeft.length : Int) + fractionLeft.length - numeral.fraction.length
  let exponent := places + numeral.exponent.getD 0
  let scaled := (Magnitude.ofRatio digits 1).bind fun base =>
    if 0 ≤ exponent then scaleUp base exponent.toNat else scaleDown base (-exponent).toNat
  scaled.map (Double.finite numeral.negative)

/-- A whole numeral stays an integer where 64 bits hold it, but for negative zero. -/
def value? (numeral : Numeral) : Option Number :=
  let (digits, left) := significand 0 numeral.whole
  if numeral.isWhole && left.isEmpty then
    if !numeral.negative then some (.integer digits)
    else if 0 < digits ∧ 2 * digits ≤ wordLimit then some (.integer (-digits))
    else numeral.float?.map .float
  else numeral.float?.map .float

end Numeral

/-- The written form of a number; floating-point numbers without one are null. -/
def Number.render : Number → String
  | .integer value => toString value
  | .float value => value.render?.getD "null"

end Fluent.Json
