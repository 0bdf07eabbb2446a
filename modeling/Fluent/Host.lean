/-
This file holds the protocol between an evaluation and the objects that its calls go to.
-/

import Fluent.Log

namespace Fluent

/-- Where a chain goes on after a call: on the same object or on another one. -/
inductive Next (Obj : Type) where
  | this
  | object (next : Obj)
  deriving DecidableEq, Repr

/-- A call leaves an answer, the object, what it shares with others, and what it logged. -/
structure Reply (World Obj Answer : Type) where
  answer : Except HostError Answer
  object : Obj
  world : World
  log : List Record

/-- The behaviour of objects. `World` is the state that objects share beside their own. -/
structure Host (World Obj : Type) where
  dispatch : Call → Obj → World → Reply World Obj (Next Obj)
  /-- The JSON text of the object's state, put into the answer as it is. -/
  marshal : Obj → World → Reply World Obj (List UInt8)

end Fluent
