/-
This file holds runs of decimal digits and the exponents that numerals end with.
-/

namespace Fluent.Digits

def digitValue (character : Char) : Nat :=
  character.toNat - '0'.toNat

/-- The number that digits denote, the first one most significant. -/
def value (digits : List Nat) : Nat :=
  digits.foldl (fun total digit => total * 10 + digit) 0

/-- The leading digits of a text, and what follows them. -/
def read (text : List Char) : List Nat × List Char :=
  ((text.takeWhile Char.isDigit).map digitValue, text.dropWhile Char.isDigit)

/-- The leading digits of a text that has some. -/
def readSome (text : List Char) : Option (List Nat × List Char) :=
  match read text with
  | ([], _) => none
  | (digits, rest) => some (digits, rest)

/-- The exponent behind its mark: an optional sign and digits. -/
def readExponentBody : List Char → Option (Int × List Char)
  | '-' :: rest => (readSome rest).map fun read => (-(value read.1 : Int), read.2)
  | '+' :: rest => (readSome rest).map fun read => ((value read.1 : Int), read.2)
  | text => (readSome text).map fun read => ((value read.1 : Int), read.2)

/-- An exponent, or nothing where there is no mark. -/
def readExponent : List Char → Option (Option Int × List Char)
  | 'e' :: rest | 'E' :: rest =>
    (readExponentBody rest).map fun read => (some read.1, read.2)
  | text => some (none, text)

end Fluent.Digits
