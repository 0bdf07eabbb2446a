/-
This file holds what an evaluation makes of an outline, apart from reading and writing.
-/

import Fluent.Evaluation
import Fluent.Proofs.Host.Trace
import Fluent.Proofs.Parser.Outline
import Fluent.Proofs.Sink.TakesAll
import Fluent.Strategy

namespace Fluent

variable {World Outer Obj : Type}

/-- The error that ends an evaluation, and the binding that was being evaluated. -/
structure Failure where
  target : Option String
  error : Error
  deriving DecidableEq, Repr

/-- An evaluation comes to members, a failure if any, and what it leaves behind. -/
structure Performance (World Obj : Type) where
  members : List (String × List UInt8)
  failure : Option Failure
  session : Session World Obj

namespace Performance

def result (performance : Performance World Obj) : Except Error Unit :=
  match performance.failure with
  | none => .ok ()
  | some failure => .error failure.error

theorem result_eq_ok_iff {performance : Performance World Obj} :
    performance.result = .ok () ↔ performance.failure = none := by
  unfold result
  split
  next finished => simp [finished]
  next failed => simp [failed]

/-- What stands in the place of the binding that has failed. -/
def remains (performance : Performance World Obj) : List (String × List UInt8) :=
  match performance.failure with
  | some ⟨some target, error⟩ => [(target, Answer.failure error)]
  | _ => []

/-- A run that comes to a performance and adds the given bytes to a sink, which takes them all. -/
structure Recorded {τ : Type} [Sink τ] (contents : τ → List UInt8) (sink : τ)
    (performance : Performance World Obj) (bytes : List UInt8)
    (ran : Except Error Unit × Session World Obj × τ) : Prop where
  result : ran.1 = performance.result
  session : ran.2.1 = performance.session
  output : contents ran.2.2 = contents sink ++ bytes
  takes : Sink.TakesAll contents ran.2.2

/-- The same performance under an outer host. -/
def translate (view : World → Outer) (earlier : List Record)
    (performance : Performance World Obj) : Performance Outer Obj :=
  ⟨performance.members, performance.failure, performance.session.translate view earlier⟩

end Performance

/-- Evaluates definitions up to the first that fails. -/
def Definition.perform (host : Host World Obj) :
    List Definition → Session World Obj → Performance World Obj
  | [], session => ⟨[], none, session⟩
  | definition :: definitions, session =>
    match definition.evaluate host session with
    | (.error error, session) => ⟨[], some ⟨some definition.target, error⟩, session⟩
    | (.ok bytes, session) =>
      let later := Definition.perform host definitions session
      { later with members := (definition.target, bytes) :: later.members }

/-- The calls of the broken definition come before the error that the input ends with. -/
def Remainder.perform (host : Host World Obj) (remainder : Remainder)
    (session : Session World Obj) : Option Failure × Session World Obj :=
  match remainder with
  | .finished => (none, session)
  | .broken target error => (some ⟨target, error⟩, session)
  | .begun target receiver calls error =>
    match session.resolve target receiver with
    | .error missing => (some ⟨some target, missing⟩, session)
    | .ok focus =>
      match focus.applyAll host target calls session with
      | (.error refusal, session) => (some ⟨some target, refusal⟩, session)
      | (.ok _, session) => (some ⟨some target, error⟩, session)

/-- Evaluates the definitions of an outline and, if all succeed, goes on with what is left. -/
def Outline.perform (host : Host World Obj) (outline : Outline) (session : Session World Obj) :
    Performance World Obj :=
  let performed := Definition.perform host outline.definitions session
  match performed.failure with
  | some _ => performed
  | none =>
    let (failure, session) := outline.remainder.perform host performed.session
    ⟨performed.members, failure, session⟩

/-- The first definition of an outline is performed before the others. -/
theorem Outline.perform_cons (host : Host World Obj) (definition : Definition)
    (definitions : List Definition) (remainder : Remainder) (session : Session World Obj) :
    Outline.perform host ⟨definition :: definitions, remainder⟩ session =
      match definition.evaluate host session with
      | (.error error, session) => ⟨[], some ⟨some definition.target, error⟩, session⟩
      | (.ok bytes, session) =>
        let later := Outline.perform host ⟨definitions, remainder⟩ session
        { later with members := (definition.target, bytes) :: later.members } := by
  simp only [Outline.perform, Definition.perform]
  rcases definition.evaluate host session with ⟨error | bytes, after⟩
  · rfl
  · dsimp only
    rcases Definition.perform host definitions after with ⟨members, _ | failure, last⟩ <;> rfl

/-- Where the input does not break off, nothing comes behind the definitions. -/
theorem Outline.perform_of_finished (host : Host World Obj) (outline : Outline)
    (finished : outline.remainder.error? = none) (session : Session World Obj) :
    outline.perform host session = Definition.perform host outline.definitions session := by
  rcases outline with ⟨definitions, _ | _ | _⟩
  · simp only [Outline.perform, Remainder.perform]
    split
    · rfl
    next succeeded =>
      rw [← succeeded]
  · simp [Remainder.error?] at finished
  · simp [Remainder.error?] at finished

/-- An input that breaks off is not performed with success. -/
theorem Outline.failure_ne_none (host : Host World Obj) (outline : Outline) {error : Error}
    (broken : outline.remainder.error? = some error) (session : Session World Obj) :
    (outline.perform host session).failure ≠ none := by
  have fails (session : Session World Obj) : (outline.remainder.perform host session).1 ≠ none := by
    cases ending : outline.remainder with
    | finished => simp [ending, Remainder.error?] at broken
    | broken target error => simp [Remainder.perform]
    | begun target receiver calls error =>
      simp only [Remainder.perform]
      split
      · simp
      · split <;> simp
  simp only [Outline.perform]
  split
  next failed => simp [failed]
  · exact fails _

/-- The members of an answer come from the same evaluation. -/
theorem Definition.evaluateAll_eq_perform (host : Host World Obj)
    (definitions : List Definition) (session : Session World Obj) :
    Definition.evaluateAll host definitions session =
      let performed := Definition.perform host definitions session
      (performed.result.map fun _ => performed.members, performed.session) := by
  induction definitions generalizing session with
  | nil => rfl
  | cons definition definitions hypothesis =>
    simp only [Definition.evaluateAll, Definition.perform]
    rcases definition.evaluate host session with ⟨error | bytes, after⟩
    · rfl
    · simp only [hypothesis, Performance.result]
      cases (Definition.perform host definitions after).failure <;> rfl

section

variable {view : World → Outer} {inner : Host World Obj} {outer : Host Outer Obj}

theorem Definition.evaluate_translate (shows : Host.Shows view inner outer)
    (earlier : List Record) (definition : Definition) (session : Session World Obj) :
    definition.evaluate outer (session.translate view earlier) =
      Prod.map id (Session.translate view earlier) (definition.evaluate inner session) := by
  simp only [Definition.evaluate, Session.resolve_translate]
  cases session.resolve definition.target definition.receiver with
  | error error => rfl
  | ok focus =>
    simp only [Focus.applyAll_translate shows]
    rcases focus.applyAll inner definition.target definition.calls session with ⟨_ | last, after⟩
    · rfl
    · exact Focus.marshal_translate shows earlier definition.target last after

theorem Definition.perform_translate (shows : Host.Shows view inner outer)
    (earlier : List Record) (definitions : List Definition) (session : Session World Obj) :
    Definition.perform outer definitions (session.translate view earlier) =
      (Definition.perform inner definitions session).translate view earlier := by
  induction definitions generalizing session with
  | nil => rfl
  | cons definition definitions hypothesis =>
    simp only [Definition.perform, Definition.evaluate_translate shows]
    rcases definition.evaluate inner session with ⟨error | bytes, after⟩
    · rfl
    · simp only [Prod.map, hypothesis, id]
      rfl

theorem Definition.evaluateAll_translate (shows : Host.Shows view inner outer)
    (earlier : List Record) (definitions : List Definition) (session : Session World Obj) :
    Definition.evaluateAll outer definitions (session.translate view earlier) =
      Prod.map id (Session.translate view earlier)
        (Definition.evaluateAll inner definitions session) := by
  rw [evaluateAll_eq_perform, evaluateAll_eq_perform, perform_translate shows]
  rfl

end

end Fluent
