/-
This file holds the code, the hint, the places and the causes that a report adds to an error.
-/

import Fluent.Error

namespace Fluent

/-- A stretch of the program text, in bytes, and what it is. -/
structure Label where
  offset : Nat
  length : Nat
  text : String
  deriving DecidableEq, Repr

/-- An error below another one. -/
inductive Cause where
  | host (error : HostError)
  | integer (fault : IntegerFault)
  | float (fault : FloatFault)
  | json
  deriving DecidableEq, Repr

def LiteralError.code : LiteralError → String
  | .mismatch _ _ _ => "callchain::type_mismatch"
  | .integer _ _ => "callchain::int_range"
  | .float _ _ => "callchain::float"
  | .json _ => "callchain::json"

/-- The code of an object's error. A refusal in the object's own words has none. -/
def HostError.code : HostError → Option String
  | .literal error => some error.code
  | .arity _ => some "callchain::arity"
  | .unknownMethod _ => some "callchain::unknown_method"
  | .refusal _ => none

def Error.code : Error → String
  | .lexical _ => "callchain::lexical"
  | .unexpected _ => "callchain::syntax"
  | .receiverNotFound _ _ => "callchain::receiver_not_found"
  | .dispatch _ _ _ => "callchain::dispatch"
  | .marshal _ _ => "callchain::marshal"
  | .transport _ => "callchain::io"

def Error.help : Error → Option String
  | .lexical _ => some "check number syntax, string escapes and the `:=` operator"
  | .unexpected _ => some "definitions read `target := receiver.method(arg, ...);`"
  | .receiverNotFound _ receiver =>
    some s!"register `{receiver}` in the symbol table before evaluating"
  | .dispatch _ _ _ | .marshal _ _ | .transport _ => none

def Error.labels : Error → List Label
  | .lexical token => [⟨token.byteOffset, token.literal.utf8ByteSize, "this token"⟩]
  | .unexpected token =>
    [⟨token.byteOffset, token.literal.utf8ByteSize, "expected " ++ token.expected.description⟩]
  | .receiverNotFound _ _ | .dispatch _ _ _ | .marshal _ _ | .transport _ => []

/-- An object's error and the causes below it, outermost first. -/
def HostError.chain (error : HostError) : List Cause :=
  match error with
  | .literal (.integer _ fault) => [.host error, .integer fault]
  | .literal (.float _ fault) => [.host error, .float fault]
  | .literal (.json _) => [.host error, .json]
  | .literal (.mismatch _ _ _) | .arity _ | .unknownMethod _ | .refusal _ => [.host error]

/-- The causes below an error, outermost first. -/
def Error.causes : Error → List Cause
  | .dispatch _ _ source => source.chain
  | .marshal _ source => source.chain
  | .lexical _ | .unexpected _ | .receiverNotFound _ _ | .transport _ => []

/-- The wording of a cause. What a JSON reader has to say is not worded here. -/
def Cause.message : Cause → Option String
  | .host error => some error.message
  | .integer fault => some fault.message
  | .float fault => some fault.message
  | .json => none

def Cause.code : Cause → Option String
  | .host error => error.code
  | .integer _ | .float _ | .json => none

end Fluent
