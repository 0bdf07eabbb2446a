/-
This file holds the conversions of an argument to the type that its receiver asks for.
-/

import Fluent.Double.Numeral
import Fluent.Integer
import Fluent.Json.Record
import Fluent.Json.Value
import Fluent.Program

namespace Fluent

namespace Argument

def mismatch (argument : Argument) (conversion : Conversion) : LiteralError :=
  .mismatch conversion argument.kind argument.literal

def toInteger (argument : Argument) : Except LiteralError Int :=
  if argument.kind ≠ .integer then .error (argument.mismatch .integer)
  else (Integer.parse argument.literal.toList).mapError (.integer argument.literal)

def toFloat (argument : Argument) : Except LiteralError Double :=
  if argument.kind ≠ .float then .error (argument.mismatch .float)
  else (Double.parse argument.literal.toList).mapError (.float argument.literal)

def toBoolean (argument : Argument) : Except LiteralError Bool :=
  match argument.kind with
  | .trueWord => .ok true
  | .falseWord => .ok false
  | _ => .error (argument.mismatch .boolean)

/-- Reads the literal as JSON and decodes it. -/
def decode {α : Type} (argument : Argument) (decode? : Json.Tree → Option α) :
    Except LiteralError α :=
  match (Json.Tree.read? argument.literal.toList).bind decode? with
  | some value => .ok value
  | none => .error (.json argument.literal)

/-- The text between the quotes, with its escapes resolved. -/
def toText (argument : Argument) : Except LiteralError String :=
  if argument.kind ≠ .text then .error (argument.mismatch .text)
  else argument.decode Json.Tree.text?

/-- A blob is decoded as the type that `decode?` reads; the scanner has not looked into it. -/
def toJson {α : Type} (argument : Argument) (decode? : Json.Tree → Option α) :
    Except LiteralError α :=
  if argument.kind ≠ .blob then .error (argument.mismatch .json)
  else argument.decode decode?

end Argument

end Fluent
