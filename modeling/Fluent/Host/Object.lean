/-
This file holds objects that are a state and a table of methods on it.
-/

import Fluent.Host
import Fluent.Json.Value
import Fluent.Text.Utf8

namespace Fluent

/-- A method on a state, which it may change even where it refuses the call. -/
abbrev Method (State Obj : Type) :=
  Call → State → Except HostError (Next Obj) × State

structure Object (State Obj : Type) where
  typeName : String
  state : State
  /-- The methods by name, the latest first. -/
  methods : List (String × Method State Obj)

namespace Object

variable {State Obj : Type}

def new (typeName : String) (state : State) : Object State Obj :=
  ⟨typeName, state, []⟩

/-- Adds a method, which replaces one of the same name. -/
def method (name : String) (body : Method State Obj) (object : Object State Obj) :
    Object State Obj :=
  { object with methods := (name, body) :: object.methods }

/-- Performs a call with the method of its name. -/
def dispatch (call : Call) (object : Object State Obj) :
    Except HostError (Next Obj) × Object State Obj × List Record :=
  match object.methods.lookup call.name with
  | none =>
    (.error (.unknownMethod ⟨object.typeName, call.name⟩), object,
      [.noMethod object.typeName call.name])
  | some body =>
    match body call object.state with
    | (answer, state) => (answer, { object with state := state }, [])

/-- The written form of the state. -/
def marshal (encode : State → Json.Value) (object : Object State Obj) : List UInt8 :=
  Utf8.encode (encode object.state).render.toList

end Object

end Fluent
