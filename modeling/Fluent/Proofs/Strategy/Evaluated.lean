/-
This file holds what definitions come to, read off the answers of objects alone.
-/

import Fluent.Proofs.Host.Marshalling
import Fluent.Proofs.Strategy.Calls
import Mathlib.Data.List.Forall2

namespace Fluent

variable {World Obj : Type}

deriving instance DecidableEq for HostCall

namespace Definition

/-- A definition sends its calls, and marshals what they end on if none is refused. -/
inductive Evaluated (names : List String) (definition : Definition) :
    List (HostCall World Obj) → Except Error (List UInt8) → Prop
  | missing (absent : definition.receiver ∉ names) :
      Evaluated names definition []
        (.error (.receiverNotFound definition.target definition.receiver))
  | refused {made : List (HostCall World Obj)} {error : Error}
      (known : definition.receiver ∈ names)
      (dispatched :
        HostCall.Dispatched definition.target definition.calls made (.error error)) :
      Evaluated names definition made (.error error)
  | marshalled {made : List (HostCall World Obj)} (known : definition.receiver ∈ names)
      (dispatched : HostCall.Dispatched definition.target definition.calls made (.ok ()))
      (object : Obj) (world : World) (answer : Except HostError (List UInt8)) :
      Evaluated names definition (made ++ [.marshal object world answer])
        (answer.mapError (.marshal definition.target))

/-- Each of these definitions has come to the bytes that its object was marshalled to. -/
abbrev Completed (names : List String) :
    List Definition → List (List (HostCall World Obj) × List UInt8) → Prop :=
  List.Forall₂ fun definition part => definition.Evaluated names part.1 (.ok part.2)

/-- Definitions are evaluated in order, all of them or up to the first that fails. -/
inductive EvaluatedAll (names : List String) (definitions : List Definition) :
    List (HostCall World Obj) → Except Error (List (String × List UInt8)) → Prop
  | finished {parts : List (List (HostCall World Obj) × List UInt8)}
      (completed : Completed names definitions parts) :
      EvaluatedAll names definitions (parts.flatMap Prod.fst)
        (.ok (definitions.zipWith (fun definition part => (definition.target, part.2)) parts))
  | failed {before later : List Definition} {definition : Definition}
      {parts : List (List (HostCall World Obj) × List UInt8)}
      {made : List (HostCall World Obj)} {error : Error}
      (split : definitions = before ++ definition :: later)
      (completed : Completed names before parts)
      (fails : definition.Evaluated names made (.error error)) :
      EvaluatedAll names definitions (parts.flatMap Prod.fst ++ made) (.error error)

end Definition

/-- The definitions behind a completed one are evaluated after it. -/
theorem Definition.EvaluatedAll.cons {names : List String} {definition : Definition}
    {definitions : List Definition} {calls made : List (HostCall World Obj)}
    {bytes : List UInt8} {result : Except Error (List (String × List UInt8))}
    (first : definition.Evaluated names calls (.ok bytes))
    (others : EvaluatedAll names definitions made result) :
    EvaluatedAll names (definition :: definitions) (calls ++ made)
      (result.map ((definition.target, bytes) :: ·)) := by
  cases others with
  | @finished parts completed =>
    have all : Completed names (definition :: definitions) ((calls, bytes) :: parts) :=
      .cons first completed
    exact .finished all
  | @failed before later failing parts made error split completed fails =>
    have all : Completed names (definition :: before) ((calls, bytes) :: parts) :=
      .cons first completed
    have whole : definition :: definitions = (definition :: before) ++ failing :: later := by
      rw [split, List.cons_append]
    rw [← List.append_assoc]
    exact .failed whole all fails

/-- A receiver is resolved exactly if the table has its name. -/
theorem Session.resolve_cases (session : Session World Obj) (target receiver : String) :
    (receiver ∉ session.symbols.names ∧
        session.resolve target receiver = .error (.receiverNotFound target receiver)) ∨
      receiver ∈ session.symbols.names ∧ ∃ focus, session.resolve target receiver = .ok focus := by
  have absence := session.symbols.get?_eq_none_iff receiver
  rw [resolve]
  cases found : session.symbols.get? receiver with
  | none => exact .inl ⟨absence.1 found, rfl⟩
  | some object =>
    refine .inr ⟨?_, _, rfl⟩
    by_contra absent
    rw [absence.2 absent] at found
    cases found

section

variable (host : Host World Obj)

theorem Definition.evaluate_evaluated (definition : Definition)
    (session : Session.Traced World Obj) :
    let ran := definition.evaluate host.traced session
    ∃ made, Session.Adds host made session ran.2 ∧
      definition.Evaluated session.symbols.names made ran.1 := by
  rw [evaluate]
  rcases session.resolve_cases definition.target definition.receiver with
    ⟨absent, unresolved⟩ | ⟨known, focus, resolved⟩
  · rw [unresolved]
    exact ⟨[], .nothing session, .missing absent⟩
  · rw [resolved]
    obtain ⟨made, adds, dispatched⟩ := focus.applyAll_dispatched host definition.target
      definition.calls session
    dsimp only
    rcases applied : focus.applyAll host.traced definition.target definition.calls session with
      ⟨error | final, middle⟩
    · rw [applied] at adds dispatched
      exact ⟨made, adds, .refused known dispatched⟩
    · rw [applied] at adds dispatched
      obtain ⟨last, world, answer, addsLast, result⟩ :=
        final.marshal_adds host definition.target middle
      refine ⟨_, adds.trans addsLast, ?_⟩
      dsimp only
      rw [result]
      exact .marshalled known dispatched last world answer

theorem Definition.evaluateAll_evaluated (definitions : List Definition)
    (session : Session.Traced World Obj) :
    let ran := evaluateAll host.traced definitions session
    ∃ made, Session.Adds host made session ran.2 ∧
      EvaluatedAll session.symbols.names definitions made ran.1 := by
  induction definitions generalizing session with
  | nil => exact ⟨[], .nothing session, .finished .nil⟩
  | cons definition definitions hypothesis =>
    obtain ⟨made, adds, first⟩ := definition.evaluate_evaluated host session
    rw [evaluateAll]
    rcases evaluated : definition.evaluate host.traced session with ⟨error | bytes, middle⟩
    · rw [evaluated] at adds first
      exact ⟨made, adds, .failed rfl .nil first⟩
    · rw [evaluated] at adds first
      obtain ⟨later, addsLater, others⟩ := hypothesis middle
      rw [adds.names] at others
      have both := adds.trans addsLater
      have whole := EvaluatedAll.cons first others
      dsimp only
      rcases evaluatedAll : evaluateAll host.traced definitions middle with ⟨error | members, last⟩
      · rw [evaluatedAll] at both whole
        exact ⟨made ++ later, both, whole⟩
      · rw [evaluatedAll] at both whole
        exact ⟨made ++ later, both, whole⟩

end

section

variable {names : List String}

/-- What a definition has come to is the answer that its last call got. -/
theorem Definition.Evaluated.exists_marshal {definition : Definition}
    {made : List (HostCall World Obj)} {bytes : List UInt8}
    (evaluated : definition.Evaluated names made (.ok bytes)) :
    ∃ front object world, made = front ++ [.marshal object world (.ok bytes)] := by
  generalize succeeded : Except.ok bytes = result at evaluated
  cases evaluated with
  | missing absent => cases succeeded
  | refused known dispatched => cases succeeded
  | @marshalled made known dispatched object world answer =>
    cases answer with
    | error source => cases succeeded
    | ok answered =>
      obtain rfl : bytes = answered := Except.ok.inj succeeded
      exact ⟨made, object, world, rfl⟩

variable {definitions : List Definition} {parts : List (List (HostCall World Obj) × List UInt8)}

/-- The members of definitions are named after their targets. -/
theorem Definition.Completed.targets (completed : Completed names definitions parts) :
    (definitions.zipWith (fun definition part => (definition.target, part.2)) parts).map Prod.fst =
      definitions.map Definition.target := by
  induction completed with
  | nil => rfl
  | cons first others hypothesis => rw [List.zipWith_cons_cons, List.map_cons, hypothesis]; rfl

/-- Every value that definitions have come to has been marshalled. -/
theorem Definition.Completed.encoded {host : Host World Obj} (marshals : host.MarshalsJson)
    (completed : Completed names definitions parts)
    (answered : ∀ call ∈ parts.flatMap Prod.fst, call.Answered host) :
    ∀ member ∈ definitions.zipWith (fun definition part => (definition.target, part.2)) parts,
      ∃ tree : Json.Tree, tree.Encoded member.2 := by
  induction completed with
  | nil => exact List.forall_mem_nil _
  | @cons definition part definitions parts first others hypothesis =>
    rw [List.flatMap_cons, List.forall_mem_append] at answered
    rw [List.zipWith_cons_cons, List.forall_mem_cons]
    refine ⟨?_, hypothesis answered.2⟩
    obtain ⟨front, object, world, made⟩ := first.exists_marshal
    refine marshals object world part.2 (answered.1 (.marshal object world (.ok part.2)) ?_)
    rw [made]
    exact List.mem_append_right front (List.mem_singleton_self _)

end

end Fluent
