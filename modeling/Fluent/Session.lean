/-
This file holds the state of an evaluation and the single steps on it.
-/

import Fluent.Host
import Fluent.SymbolTable

namespace Fluent

/-- What an evaluation works on and leaves behind. -/
structure Session (World Obj : Type) where
  symbols : SymbolTable Obj
  world : World
  /-- The records so far, the earliest first. -/
  log : List Record

/-- The object that receives the next call of a chain. -/
structure Focus (Obj : Type) where
  object : Obj
  /-- The name of the object in the table; none once the chain has gone on to one of its own. -/
  home : Option String
  deriving DecidableEq, Repr

variable {World Obj : Type}

namespace Session

def record (session : Session World Obj) (records : List Record) : Session World Obj :=
  { session with log := session.log ++ records }

/-- Takes over what an object has left behind. A registered object goes back into the table. -/
def absorb {Answer : Type} (session : Session World Obj) (home : Option String)
    (reply : Reply World Obj Answer) : Session World Obj where
  symbols :=
    match home with
    | some name => session.symbols.replace name reply.object
    | none => session.symbols
  world := reply.world
  log := session.log ++ reply.log

/-- The object that a receiver's name stands for. -/
def resolve (session : Session World Obj) (target receiver : String) :
    Except Error (Focus Obj) :=
  match session.symbols.get? receiver with
  | some object => .ok ⟨object, some receiver⟩
  | none => .error (.receiverNotFound target receiver)

@[simp] theorem names_absorb {Answer : Type} (session : Session World Obj)
    (home : Option String) (reply : Reply World Obj Answer) :
    (session.absorb home reply).symbols.names = session.symbols.names := by
  cases home with
  | none => rfl
  | some name => exact session.symbols.names_replace name reply.object

end Session

namespace Focus

/-- Performs a call, and says which object receives the next one. -/
def apply (host : Host World Obj) (target : String) (call : Call) (focus : Focus Obj)
    (session : Session World Obj) : Except Error (Focus Obj) × Session World Obj :=
  let session := session.record [.dispatching target call]
  let reply := host.dispatch call focus.object session.world
  let session := session.absorb focus.home reply
  match reply.answer with
  | .ok .this => (.ok ⟨reply.object, focus.home⟩, session)
  | .ok (.object next) => (.ok ⟨next, none⟩, session)
  | .error source =>
    (.error (.dispatch target call.name source),
      session.record [.rejected target call.name source])

/-- Performs calls in order, up to the first that fails. -/
def applyAll (host : Host World Obj) (target : String) :
    List Call → Focus Obj → Session World Obj → Except Error (Focus Obj) × Session World Obj
  | [], focus, session => (.ok focus, session)
  | call :: calls, focus, session =>
    match apply host target call focus session with
    | (.ok focus, session) => applyAll host target calls focus session
    | (.error error, session) => (.error error, session)

/-- The written form of the object that a chain ends on. -/
def marshal (host : Host World Obj) (target : String) (focus : Focus Obj)
    (session : Session World Obj) : Except Error (List UInt8) × Session World Obj :=
  let reply := host.marshal focus.object session.world
  let session := session.absorb focus.home reply
  match reply.answer with
  | .ok bytes => (.ok bytes, session)
  | .error source =>
    (.error (.marshal target source), session.record [.marshalFailed target source])

end Focus

end Fluent
