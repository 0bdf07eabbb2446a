/-
This file holds the evaluation of definitions that have been read, one after the other.
-/

import Fluent.Answer
import Fluent.Session

namespace Fluent

variable {World Obj : Type}

/-- Performs the calls of a definition on its receiver and marshals what they end on. -/
def Definition.evaluate (host : Host World Obj) (definition : Definition)
    (session : Session World Obj) : Except Error (List UInt8) × Session World Obj :=
  match session.resolve definition.target definition.receiver with
  | .error error => (.error error, session)
  | .ok focus =>
    match focus.applyAll host definition.target definition.calls session with
    | (.error error, session) => (.error error, session)
    | (.ok focus, session) => focus.marshal host definition.target session

/-- The members of the answer to definitions in order, up to the first that fails. -/
def Definition.evaluateAll (host : Host World Obj) :
    List Definition → Session World Obj →
      Except Error (List (String × List UInt8)) × Session World Obj
  | [], session => (.ok [], session)
  | definition :: definitions, session =>
    match definition.evaluate host session with
    | (.error error, session) => (.error error, session)
    | (.ok bytes, session) =>
      match Definition.evaluateAll host definitions session with
      | (.error error, session) => (.error error, session)
      | (.ok members, session) => (.ok ((definition.target, bytes) :: members), session)

/-- The answer to a whole program. -/
def Program.evaluate (host : Host World Obj) (program : Program)
    (session : Session World Obj) : Except Error (List UInt8) × Session World Obj :=
  let session := session.record [.evaluating program.definitions.length]
  match Definition.evaluateAll host program.definitions session with
  | (.ok members, session) => (.ok (Answer.encode members), session)
  | (.error error, session) => (.error error, session)

end Fluent
