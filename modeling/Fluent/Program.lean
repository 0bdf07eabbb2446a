/-
This file holds programs, which bind names to chains of calls, and their written form.
-/

import Fluent.Error
import Fluent.Token

namespace Fluent

/-- An argument as it was written. The receiver decides what to read it as. -/
structure Argument where
  kind : Kind
  literal : String
  deriving DecidableEq, Repr

structure Call where
  name : String
  arguments : List Argument
  deriving DecidableEq, Repr

/-- A binding of `target` to the outcome of the calls on `receiver`. -/
structure Definition where
  target : String
  receiver : String
  calls : List Call
  deriving DecidableEq, Repr

structure Program where
  definitions : List Definition
  deriving DecidableEq, Repr

namespace Call

/-- The argument at a place, counted from zero. The error asks for just enough arguments. -/
def argument (call : Call) (index : Nat) : Except ArityError Argument :=
  match call.arguments[index]? with
  | some argument => .ok argument
  | none => .error ⟨call.name, index + 1, call.arguments.length⟩

def expectArity (call : Call) (expected : Nat) : Except ArityError Unit :=
  if call.arguments.length = expected then .ok ()
  else .error ⟨call.name, expected, call.arguments.length⟩

def render (call : Call) : String :=
  call.name ++ "(" ++ ", ".intercalate (call.arguments.map Argument.literal) ++ ")"

end Call

def Definition.render (definition : Definition) : String :=
  definition.target ++ " := " ++ definition.receiver
    ++ String.join (definition.calls.map fun call => "." ++ call.render) ++ ";"

def Program.render (program : Program) : String :=
  String.join (program.definitions.map Definition.render)

end Fluent
