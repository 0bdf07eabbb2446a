/-
This file holds the course that an evaluation takes through an outline, read off its calls.
-/

import Fluent.Proofs.Parser.Interruption
import Fluent.Proofs.Parser.Targets
import Fluent.Proofs.Strategy.Evaluated
import Fluent.Proofs.Strategy.Performance

namespace Fluent

variable {World Obj : Type}

/-- Of the definition that an input breaks off in, the calls are sent that can be read. -/
inductive Remainder.Evaluated (names : List String) :
    Remainder → List (HostCall World Obj) → Except Error Unit → Prop
  | finished : Evaluated names .finished [] (.ok ())
  | broken (target : Option String) (error : Error) :
      Evaluated names (.broken target error) [] (.error error)
  | missing {target receiver : String} (absent : receiver ∉ names) (calls : List Call)
      (error : Error) :
      Evaluated names (.begun target receiver calls error) []
        (.error (.receiverNotFound target receiver))
  | refused {target receiver : String} {calls : List Call} {made : List (HostCall World Obj)}
      {refusal : Error} (known : receiver ∈ names)
      (dispatched : HostCall.Dispatched target calls made (.error refusal)) (error : Error) :
      Evaluated names (.begun target receiver calls error) made (.error refusal)
  | stopped {target receiver : String} {calls : List Call} {made : List (HostCall World Obj)}
      (known : receiver ∈ names) (dispatched : HostCall.Dispatched target calls made (.ok ()))
      (error : Error) : Evaluated names (.begun target receiver calls error) made (.error error)

/-- An evaluation makes calls, completes bindings, and may fail behind the `:=` of one more. -/
inductive Outline.Course (names : List String) (outline : Outline) :
    List (HostCall World Obj) → List (String × List UInt8) → Option String →
      Except Error Unit → Prop
  | through {parts : List (List (HostCall World Obj) × List UInt8)}
      {made : List (HostCall World Obj)} {result : Except Error Unit}
      (completed : Definition.Completed names outline.definitions parts)
      (remains : outline.remainder.Evaluated names made result) :
      Course names outline (parts.flatMap Prod.fst ++ made)
        (outline.definitions.zipWith (fun definition part => (definition.target, part.2)) parts)
        outline.remainder.target? result
  | failed {before later : List Definition} {definition : Definition}
      {parts : List (List (HostCall World Obj) × List UInt8)}
      {made : List (HostCall World Obj)} {error : Error}
      (split : outline.definitions = before ++ definition :: later)
      (completed : Definition.Completed names before parts)
      (fails : definition.Evaluated names made (.error error)) :
      Course names outline (parts.flatMap Prod.fst ++ made)
        (before.zipWith (fun definition part => (definition.target, part.2)) parts)
        (some definition.target) (.error error)

section

variable {names : List String} {outline : Outline} {definitions : List Definition}
  {remainder : Remainder} {made calls : List (HostCall World Obj)}
  {members : List (String × List UInt8)} {failing : Option String} {result : Except Error Unit}

/-- A definition that is completed comes before the course of the others. -/
theorem Outline.Course.cons {definition : Definition} {bytes : List UInt8}
    (first : definition.Evaluated names calls (.ok bytes))
    (others : Outline.Course names ⟨definitions, remainder⟩ made members failing result) :
    Outline.Course names ⟨definition :: definitions, remainder⟩ (calls ++ made)
      ((definition.target, bytes) :: members) failing result := by
  cases others with
  | @through parts made result completed remains =>
    have all : Definition.Completed names (definition :: definitions) ((calls, bytes) :: parts) :=
      .cons first completed
    rw [← List.append_assoc]
    exact @Outline.Course.through _ _ names ⟨definition :: definitions, remainder⟩ _ _ _ all remains
  | @failed before later failing parts made error split completed fails =>
    have all : Definition.Completed names (definition :: before) ((calls, bytes) :: parts) :=
      .cons first completed
    rw [← List.append_assoc]
    exact .failed (congrArg (definition :: ·) split) all fails

/-- A course goes along the targets of its outline. -/
theorem Outline.Course.targets (course : outline.Course names made members failing result) :
    members.map Prod.fst ++ failing.toList <+: outline.targets := by
  cases course with
  | through completed remains => simp [completed.targets, Outline.targets]
  | failed split completed fails => simp [completed.targets, Outline.targets, split]

/-- Every value on a course has been marshalled. -/
theorem Outline.Course.encoded {host : Host World Obj} (marshals : host.MarshalsJson)
    (course : outline.Course names made members failing result)
    (answered : ∀ call ∈ made, call.Answered host) :
    ∀ member ∈ members, ∃ tree : Json.Tree, tree.Encoded member.2 := by
  cases course with
  | through completed remains | failed split completed fails =>
    exact completed.encoded marshals (List.forall_mem_append.1 answered).1

end

section

variable (host : Host World Obj)

theorem Remainder.perform_evaluated (remainder : Remainder)
    (session : Session.Traced World Obj) :
    let performed := Outline.perform host.traced ⟨[], remainder⟩ session
    ∃ made, Session.Adds host made session performed.session ∧
      remainder.Evaluated session.symbols.names made performed.result ∧
      performed.members = [] ∧ performed.failure.bind Failure.target = remainder.target? := by
  cases remainder with
  | finished => exact ⟨[], .nothing session, .finished, rfl, rfl⟩
  | broken target error => exact ⟨[], .nothing session, .broken target error, rfl, rfl⟩
  | begun target receiver calls error =>
    simp only [Outline.perform, Definition.perform, Remainder.perform]
    rcases session.resolve_cases target receiver with
      ⟨absent, unresolved⟩ | ⟨known, focus, resolved⟩
    · rw [unresolved]
      exact ⟨[], .nothing session, .missing absent calls error, trivial, rfl⟩
    · rw [resolved]
      obtain ⟨made, adds, dispatched⟩ := focus.applyAll_dispatched host target calls session
      dsimp only
      rcases applied : focus.applyAll host.traced target calls session with
        ⟨refusal | final, middle⟩
      · rw [applied] at adds dispatched
        exact ⟨made, adds, .refused known dispatched error, trivial, rfl⟩
      · rw [applied] at adds dispatched
        exact ⟨made, adds, .stopped known dispatched error, trivial, rfl⟩

/-- An outline that is performed takes its course, and its calls are recorded. -/
theorem Outline.perform_course (definitions : List Definition) (remainder : Remainder)
    (session : Session.Traced World Obj) :
    let performed := Outline.perform host.traced ⟨definitions, remainder⟩ session
    ∃ made, Session.Adds host made session performed.session ∧
      Outline.Course session.symbols.names ⟨definitions, remainder⟩ made performed.members
        (performed.failure.bind Failure.target) performed.result := by
  induction definitions generalizing session with
  | nil =>
    obtain ⟨made, adds, evaluated, members, target⟩ := remainder.perform_evaluated host session
    refine ⟨made, adds, ?_⟩
    rw [members, target]
    exact @Outline.Course.through _ _ _ ⟨[], remainder⟩ [] _ _ .nil evaluated
  | cons definition definitions hypothesis =>
    obtain ⟨made, adds, first⟩ := definition.evaluate_evaluated host session
    rw [Outline.perform_cons]
    rcases evaluated : definition.evaluate host.traced session with ⟨error | bytes, middle⟩
    · rw [evaluated] at adds first
      exact ⟨made, adds, .failed rfl .nil first⟩
    · rw [evaluated] at adds first
      obtain ⟨later, addsLater, others⟩ := hypothesis middle
      rw [adds.names] at others
      exact ⟨made ++ later, adds.trans addsLater, .cons first others⟩

end

end Fluent
