/-
This file holds what can go wrong between a program text and its answer, and the wording of it.
-/

import Fluent.Fault
import Fluent.Token

namespace Fluent

/-- A token that the lexer refused, with its place in the text. -/
structure IllegalToken where
  literal : String
  byteOffset : Nat
  charOffset : Nat
  deriving DecidableEq, Repr

/-- What the grammar wanted where it met something else. -/
inductive Expectation where
  | bindingName
  | define
  | receiverName
  | dot
  | dotOrSemicolon
  | methodName
  | openParen
  | argument
  | commaOrCloseParen
  deriving DecidableEq, Repr

structure UnexpectedToken where
  expected : Expectation
  found : Kind
  literal : String
  byteOffset : Nat
  charOffset : Nat
  deriving DecidableEq, Repr

/-- The types that an argument can be asked for. -/
inductive Conversion where
  | integer
  | float
  | boolean
  | text
  | json
  deriving DecidableEq, Repr

/-- Why a literal is no 64-bit integer. -/
inductive IntegerFault where
  | empty
  | invalidDigit
  | tooLarge
  | tooSmall
  deriving DecidableEq, Repr

/-- Why a literal is no floating-point number. -/
inductive FloatFault where
  | empty
  | invalid
  deriving DecidableEq, Repr

/-- A conversion that an argument refused. -/
inductive LiteralError where
  | mismatch (conversion : Conversion) (found : Kind) (literal : String)
  | integer (literal : String) (fault : IntegerFault)
  | float (literal : String) (fault : FloatFault)
  | json (literal : String)
  deriving DecidableEq, Repr

/-- A call with the wrong number of arguments. -/
structure ArityError where
  method : String
  expected : Nat
  found : Nat
  deriving DecidableEq, Repr

structure UnknownMethod where
  typeName : String
  method : String
  deriving DecidableEq, Repr

/-- What an object answers when it refuses a call or has no written form. -/
inductive HostError where
  | literal (error : LiteralError)
  | arity (error : ArityError)
  | unknownMethod (error : UnknownMethod)
  | refusal (reason : String)
  deriving DecidableEq, Repr

inductive Error where
  | lexical (token : IllegalToken)
  | unexpected (token : UnexpectedToken)
  | receiverNotFound (target receiver : String)
  | dispatch (target method : String) (source : HostError)
  | marshal (target : String) (source : HostError)
  | transport (fault : Fault)
  deriving DecidableEq, Repr

def IllegalToken.message (token : IllegalToken) : String :=
  let literal := token.literal
  let place := token.charOffset
  s!"illegal token `{literal}` at rune {place}"

def Expectation.description : Expectation → String
  | .bindingName => "binding name"
  | .define => "`:=`"
  | .receiverName => "receiver name"
  | .dot => "`.`"
  | .dotOrSemicolon => "`.` or `;`"
  | .methodName => "method name"
  | .openParen => "`(`"
  | .argument => "argument literal"
  | .commaOrCloseParen => "`,` or `)`"

def UnexpectedToken.message (token : UnexpectedToken) : String :=
  let wanted := token.expected.description
  let kind := token.found.name
  let literal := token.literal
  let place := token.charOffset
  s!"expected {wanted}, got {kind} (`{literal}`) at rune {place}"

def Conversion.name : Conversion → String
  | .integer => "to_int"
  | .float => "to_float"
  | .boolean => "to_bool"
  | .text => "to_text"
  | .json => "to_json"

def IntegerFault.message : IntegerFault → String
  | .empty => "cannot parse integer from empty string"
  | .invalidDigit => "invalid digit found in string"
  | .tooLarge => "number too large to fit in target type"
  | .tooSmall => "number too small to fit in target type"

def FloatFault.message : FloatFault → String
  | .empty => "cannot parse float from empty string"
  | .invalid => "invalid float literal"

def LiteralError.message : LiteralError → String
  | .mismatch conversion found literal =>
    let wanted := conversion.name
    let kind := found.name
    s!"{wanted}(): cannot convert {kind} literal `{literal}`"
  | .integer literal _ => s!"integer literal `{literal}` does not fit in 64 bits"
  | .float literal _ => s!"invalid float literal `{literal}`"
  | .json literal => s!"literal `{literal}` is not valid JSON for the requested type"

def ArityError.message (error : ArityError) : String :=
  let method := error.method
  let expected := error.expected
  let found := error.found
  s!"`{method}` expects {expected} argument(s), got {found}"

def UnknownMethod.message (error : UnknownMethod) : String :=
  let typeName := error.typeName
  let method := error.method
  s!"`{typeName}` has no method `{method}`"

def HostError.message : HostError → String
  | .literal error => error.message
  | .arity error => error.message
  | .unknownMethod error => error.message
  | .refusal reason => reason

def Error.message : Error → String
  | .lexical token => token.message
  | .unexpected token => token.message
  | .receiverNotFound target receiver =>
    s!"no object with identifier `{receiver}` (binding `{target}`)"
  | .dispatch target method source =>
    let reason := source.message
    s!"`{target}`: dispatching `{method}` failed: {reason}"
  | .marshal target source =>
    let reason := source.message
    s!"`{target}`: marshalling failed: {reason}"
  | .transport fault => fault.message

end Fluent
