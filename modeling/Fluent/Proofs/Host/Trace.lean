/-
This file holds the host that keeps a record of everything that it is asked.
-/

import Fluent.Session

namespace Fluent

variable {World Outer Obj Answer : Type}

/-- The same reply with its world seen through `view`. -/
def Reply.translate (view : World → Outer) (reply : Reply World Obj Answer) :
    Reply Outer Obj Answer :=
  ⟨reply.answer, reply.object, view reply.world, reply.log⟩

/-- The outer host answers as the inner one does, on the world that `view` shows of it. -/
structure Host.Shows (view : World → Outer) (inner : Host World Obj) (outer : Host Outer Obj) :
    Prop where
  dispatch : ∀ call object world,
    outer.dispatch call object (view world) = (inner.dispatch call object world).translate view
  marshal : ∀ object world,
    outer.marshal object (view world) = (inner.marshal object world).translate view

theorem Host.shows_self (host : Host World Obj) : Host.Shows id host host :=
  ⟨fun _ _ _ => rfl, fun _ _ => rfl⟩

/-- The session that an outer host sees, with earlier records before its own. -/
def Session.translate (view : World → Outer) (earlier : List Record)
    (session : Session World Obj) : Session Outer Obj :=
  ⟨session.symbols, view session.world, earlier ++ session.log⟩

section

variable (view : World → Outer) (earlier : List Record) (session : Session World Obj)

@[simp] theorem Session.symbols_translate :
    (session.translate view earlier).symbols = session.symbols := rfl

@[simp] theorem Session.world_translate :
    (session.translate view earlier).world = view session.world := rfl

@[simp] theorem Session.world_record (records : List Record) :
    (session.record records).world = session.world := rfl

theorem Session.translate_record (records : List Record) :
    (session.record records).translate view earlier =
      (session.translate view earlier).record records := by
  simp [Session.translate, Session.record, List.append_assoc]

theorem Session.translate_absorb (home : Option String) (reply : Reply World Obj Answer) :
    (session.absorb home reply).translate view earlier =
      (session.translate view earlier).absorb home (reply.translate view) := by
  simp [Session.translate, Session.absorb, Reply.translate, List.append_assoc]

theorem Session.resolve_translate (target receiver : String) :
    (session.translate view earlier).resolve target receiver = session.resolve target receiver :=
  rfl

end

section

variable {view : World → Outer} {inner : Host World Obj} {outer : Host Outer Obj}

/-- A call has the same outcome under both hosts. -/
theorem Focus.apply_translate (shows : Host.Shows view inner outer) (earlier : List Record)
    (target : String) (call : Call) (focus : Focus Obj) (session : Session World Obj) :
    focus.apply outer target call (session.translate view earlier) =
      Prod.map id (Session.translate view earlier) (focus.apply inner target call session) := by
  have replied := shows.dispatch call focus.object session.world
  unfold Focus.apply
  simp only [← Session.translate_record, Session.world_translate, Session.world_record, replied,
    ← Session.translate_absorb]
  cases answered : (inner.dispatch call focus.object session.world).answer with
  | ok next => cases next <;> simp [Reply.translate, answered]
  | error source => simp [Reply.translate, answered]

theorem Focus.applyAll_translate (shows : Host.Shows view inner outer) (earlier : List Record)
    (target : String) (calls : List Call) (focus : Focus Obj) (session : Session World Obj) :
    focus.applyAll outer target calls (session.translate view earlier) =
      Prod.map id (Session.translate view earlier)
        (focus.applyAll inner target calls session) := by
  induction calls generalizing focus session with
  | nil => rfl
  | cons call calls hypothesis =>
    simp only [Focus.applyAll, Focus.apply_translate shows]
    cases focus.apply inner target call session with
    | mk answer after =>
      cases answer with
      | ok next => exact hypothesis next after
      | error error => rfl

theorem Focus.marshal_translate (shows : Host.Shows view inner outer) (earlier : List Record)
    (target : String) (focus : Focus Obj) (session : Session World Obj) :
    focus.marshal outer target (session.translate view earlier) =
      Prod.map id (Session.translate view earlier) (focus.marshal inner target session) := by
  have replied := shows.marshal focus.object session.world
  unfold Focus.marshal
  simp only [Session.world_translate, replied, ← Session.translate_absorb]
  cases answered : (inner.marshal focus.object session.world).answer with
  | ok bytes => simp [Reply.translate, answered]
  | error source => simp [Reply.translate, answered, Session.translate_record]

end

/-- What an object was asked, in which state it and the world were, and what it answered. -/
inductive HostCall (World Obj : Type) where
  | dispatch (call : Call) (object : Obj) (world : World) (answer : Except HostError (Next Obj))
  | marshal (object : Obj) (world : World) (answer : Except HostError (List UInt8))

/-- What a call was answered is what the host answers to it. -/
def HostCall.Answered (host : Host World Obj) : HostCall World Obj → Prop
  | .dispatch call object world answer => (host.dispatch call object world).answer = answer
  | .marshal object world answer => (host.marshal object world).answer = answer

/-- The host that adds every call to a record that it keeps beside the world. -/
def Host.traced (host : Host World Obj) : Host (World × List (HostCall World Obj)) Obj where
  dispatch call object world :=
    let reply := host.dispatch call object world.1
    reply.translate fun after =>
      (after, world.2 ++ [.dispatch call object world.1 reply.answer])
  marshal object world :=
    let reply := host.marshal object world.1
    reply.translate fun after => (after, world.2 ++ [.marshal object world.1 reply.answer])

theorem Host.shows_traced (host : Host World Obj) : Host.Shows Prod.fst host.traced host :=
  ⟨fun _ _ _ => rfl, fun _ _ => rfl⟩

end Fluent
