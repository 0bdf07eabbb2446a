/-
This file holds the integers of 64 bits with a sign, and the reading of one from its text.
-/

import Fluent.Error
import Fluent.Text.Digits

namespace Fluent.Integer

def least : Int := -0x8000000000000000

def greatest : Int := 0x7FFFFFFFFFFFFFFF

def inRange (value : Int) : Bool :=
  least ≤ value && value ≤ greatest

/-- Adds a digit behind those of a number, away from zero. -/
def append (negative : Bool) (total : Int) (digit : Nat) : Int :=
  if negative then total * 10 - digit else total * 10 + digit

/-- Reads the digits behind those of `total`, up to the first fault. -/
def readDigits (negative : Bool) : Int → List Char → Except IntegerFault Int
  | total, [] => .ok total
  | total, character :: rest =>
    if !character.isDigit then .error .invalidDigit
    else
      let next := append negative total (Digits.digitValue character)
      if next < least then .error .tooSmall
      else if greatest < next then .error .tooLarge
      else readDigits negative next rest

/-- Reads an optional sign and digits. -/
def parse : List Char → Except IntegerFault Int
  | [] => .error .empty
  | ['-'] | ['+'] => .error .invalidDigit
  | '-' :: rest => readDigits true 0 rest
  | '+' :: rest => readDigits false 0 rest
  | text => readDigits false 0 text

theorem append_natCast (negative : Bool) (total digit : Nat) :
    append negative (if negative then -(total : Int) else total) digit =
      if negative then -((total * 10 + digit : Nat) : Int) else (total * 10 + digit : Nat) := by
  cases negative with
  | false => simp [append]
  | true =>
    simp only [append, if_true]
    omega

end Fluent.Integer
