/-
This file proves that receivers do not interfere.
-/

import Fluent.Proofs.Parser.Targets
import Fluent.Proofs.Strategy.Frame

namespace Fluent

variable {World Obj : Type}

/-- Two replies say the same and leave the same object behind. What is shared may differ. -/
def Reply.Agrees {Answer : Type} (first second : Reply World Obj Answer) : Prop :=
  first.answer = second.answer ∧ first.object = second.object

/-- An object's answer, and what becomes of it, follows from its own state and the call. -/
structure Host.Isolated (host : Host World Obj) : Prop where
  dispatch : ∀ call object first second,
    (host.dispatch call object first).Agrees (host.dispatch call object second)
  marshal : ∀ object first second,
    (host.marshal object first).Agrees (host.marshal object second)

namespace Session

variable {Answer : Type} {name : String} {first second : Session World Obj}

/-- A name stands for the same object in two sessions. -/
def AgreeOn (name : String) (first second : Session World Obj) : Prop :=
  first.symbols.get? name = second.symbols.get? name

/-- Two runs come to the same and leave the object of a name in the same state. -/
def RunsAgree (name : String) (first second : Except Error Answer × Session World Obj) : Prop :=
  first.1 = second.1 ∧ AgreeOn name first.2 second.2

/-- Only the object that is taken over can tell two sessions apart. -/
theorem AgreeOn.absorb (agree : AgreeOn name first second) (home : Option String)
    {left right : Reply World Obj Answer} (replies : left.Agrees right) :
    AgreeOn name (first.absorb home left) (second.absorb home right) := by
  cases home with
  | none => exact agree
  | some known =>
    show (first.symbols.replace known left.object).get? name =
      (second.symbols.replace known right.object).get? name
    rw [SymbolTable.get?_replace, SymbolTable.get?_replace, agree, replies.2]

end Session

section

variable {host : Host World Obj} (isolated : host.Isolated) {name : String}
  {first second : Session World Obj}

include isolated

namespace Focus

/-- A chain comes to the same in two sessions, as it carries its object along. -/
theorem apply_agree (agree : Session.AgreeOn name first second) (target : String) (call : Call)
    (focus : Focus Obj) :
    Session.RunsAgree name (focus.apply host target call first)
      (focus.apply host target call second) := by
  have replies := isolated.dispatch call focus.object first.world second.world
  have recorded : Session.AgreeOn name (first.record [.dispatching target call])
      (second.record [.dispatching target call]) := agree
  have absorbed := recorded.absorb focus.home replies
  obtain ⟨sameAnswer, sameObject⟩ := replies
  simp only [apply, Session.world_record]
  rw [← sameAnswer, ← sameObject]
  rcases (host.dispatch call focus.object first.world).answer with source | _ | next <;>
    exact ⟨rfl, absorbed⟩

theorem marshal_agree (agree : Session.AgreeOn name first second) (target : String)
    (focus : Focus Obj) :
    Session.RunsAgree name (focus.marshal host target first)
      (focus.marshal host target second) := by
  have replies := isolated.marshal focus.object first.world second.world
  have absorbed := agree.absorb focus.home replies
  simp only [marshal]
  rw [← replies.1]
  rcases (host.marshal focus.object first.world).answer with source | bytes <;>
    exact ⟨rfl, absorbed⟩

theorem applyAll_agree (agree : Session.AgreeOn name first second) (target : String)
    (calls : List Call) (focus : Focus Obj) :
    Session.RunsAgree name (focus.applyAll host target calls first)
      (focus.applyAll host target calls second) := by
  induction calls generalizing focus first second with
  | nil => exact ⟨rfl, agree⟩
  | cons call calls hypothesis =>
    obtain ⟨same, later⟩ := apply_agree isolated agree target call focus
    rw [applyAll, applyAll]
    rcases applied : focus.apply host target call first with ⟨error | next, middle⟩ <;>
      rcases applied' : focus.apply host target call second with ⟨error' | next', middle'⟩ <;>
      rw [applied, applied'] at same later <;> cases same
    · exact ⟨rfl, later⟩
    · exact hypothesis later next

end Focus

/-- A definition comes to the same wherever its receiver does. -/
theorem Definition.evaluate_agree (definition : Definition)
    (agree : Session.AgreeOn definition.receiver first second) :
    Session.RunsAgree definition.receiver (definition.evaluate host first)
      (definition.evaluate host second) := by
  have resolved : first.resolve definition.target definition.receiver =
      second.resolve definition.target definition.receiver := by
    rw [Session.resolve, Session.resolve, agree]
  rw [evaluate, evaluate, resolved]
  cases second.resolve definition.target definition.receiver with
  | error missing => exact ⟨rfl, agree⟩
  | ok focus =>
    obtain ⟨same, later⟩ :=
      Focus.applyAll_agree isolated agree definition.target definition.calls focus
    dsimp only
    rcases applied : focus.applyAll host definition.target definition.calls first with
      ⟨error | last, middle⟩ <;>
      rcases applied' : focus.applyAll host definition.target definition.calls second with
        ⟨error' | last', middle'⟩ <;>
      rw [applied, applied'] at same later <;> cases same
    · exact ⟨rfl, later⟩
    · exact Focus.marshal_agree isolated later definition.target last

end

/-- The definitions of a program that have one receiver. -/
def Program.ofReceiver (program : Program) (name : String) : Program :=
  ⟨program.definitions.filter fun definition => definition.receiver = name⟩

/-- The members that come from the definitions of one receiver. -/
def Definition.membersOf (name : String) (definitions : List Definition)
    (members : List (String × List UInt8)) : List (String × List UInt8) :=
  ((definitions.zip members).filter fun paired => paired.1.receiver = name).map Prod.snd

section

variable {host : Host World Obj} (isolated : host.Isolated) {name : String}

include isolated

/-- The definitions of one receiver come to the same without the others between them. -/
theorem Definition.evaluateAll_ofReceiver {definitions : List Definition}
    {members : List (String × List UInt8)} {first second last : Session World Obj}
    (agree : Session.AgreeOn name first second)
    (evaluated : evaluateAll host definitions first = (.ok members, last)) :
    ∃ final, evaluateAll host (Program.ofReceiver ⟨definitions⟩ name).definitions second =
        (.ok (membersOf name definitions members), final) ∧
      Session.AgreeOn name last final := by
  induction definitions generalizing members first second with
  | nil =>
    cases evaluated
    exact ⟨second, rfl, agree⟩
  | cons definition definitions hypothesis =>
    rw [evaluateAll] at evaluated
    rcases one : definition.evaluate host first with ⟨error | bytes, middle⟩
    · rw [one] at evaluated
      cases evaluated
    rw [one] at evaluated
    dsimp only at evaluated
    rcases others : evaluateAll host definitions middle with ⟨error | later, final⟩
    · rw [others] at evaluated
      cases evaluated
    rw [others] at evaluated
    cases evaluated
    by_cases own : definition.receiver = name
    · subst own
      obtain ⟨same, reached⟩ := definition.evaluate_agree isolated agree
      rw [one] at same reached
      rcases again : definition.evaluate host second with ⟨error | bytes', middle'⟩ <;>
        rw [again] at same reached <;> cases same
      obtain ⟨final, evaluated, left⟩ := hypothesis reached others
      refine ⟨final, ?_, left⟩
      rw [Program.ofReceiver] at evaluated ⊢
      rw [List.filter_cons_of_pos (by simp), evaluateAll, again]
      dsimp only
      rw [evaluated]
      simp [membersOf]
    · have keeps := definition.evaluate_keeps host first
      rw [one] at keeps
      have apart : name ∉ [definition.receiver] := fun present =>
        own (List.mem_singleton.1 present).symm
      have reached : Session.AgreeOn name middle second :=
        (keeps.objects name apart).trans agree
      obtain ⟨final, evaluated, left⟩ := hypothesis reached others
      refine ⟨final, ?_, left⟩
      rw [Program.ofReceiver] at evaluated ⊢
      rw [List.filter_cons_of_neg (by simpa using own), evaluated]
      simp [membersOf, own]

end

/-- A chain that has left its receiver marshals something else and changes no registered object. -/
structure Focus.FinishesAway (host : Host World Obj) (target : String) (calls : List Call)
    (failure : Option Error) (next : Obj) (session : Session World Obj)
    (ran : Except Error (List UInt8) × Session World Obj) : Prop where
  finishes : ran = Focus.finish host target calls failure ⟨next, none⟩ session
  symbols : ran.2.symbols = session.symbols
  independent : ∀ table,
    Focus.finish host target calls failure ⟨next, none⟩ (session.withSymbols table) =
      Prod.map id (Session.withSymbols table) ran

theorem Focus.finishesAway (host : Host World Obj) (target : String) (calls : List Call)
    (failure : Option Error) (next : Obj) (session : Session World Obj) :
    Focus.FinishesAway host target calls failure next session
      (Focus.finish host target calls failure ⟨next, none⟩ session) := by
  have away : Focus.home ⟨next, none⟩ = none := rfl
  have independent (table : SymbolTable Obj) :=
    Focus.finish_withSymbols away host target session table calls failure
  refine ⟨rfl, ?_, independent⟩
  have unchanged : session.withSymbols session.symbols = session := rfl
  have own := independent session.symbols
  rw [unchanged] at own
  exact congrArg (fun ran => ran.2.symbols) own

section

variable {host : Host World Obj} {target receiver : String} {before later : List Call}
  {call : Call} {object next : Obj} {session earlier : Session World Obj}

/-- What the call that a chain leaves its receiver with leaves behind. -/
def Session.afterPivot (host : Host World Obj) (target receiver : String) (call : Call)
    (object : Obj) (session : Session World Obj) : Session World Obj :=
  (session.record [.dispatching target call]).absorb (some receiver)
    (host.dispatch call object session.world)

theorem Focus.apply_pivot
    (pivots : (host.dispatch call object session.world).answer = .ok (.object next)) :
    Focus.apply host target call ⟨object, some receiver⟩ session =
      (.ok ⟨next, none⟩, session.afterPivot host target receiver call object) := by
  simp only [Focus.apply, Session.world_record]
  rw [pivots]
  rfl

/-- Up to the first call that leaves it, only the receiver of a chain has changed. -/
theorem Session.afterPivot_get?
    (reached : Definition.dispatch host ⟨target, receiver, before⟩ session =
      (.ok ⟨object, some receiver⟩, earlier)) :
    (earlier.afterPivot host target receiver call object).symbols.get? receiver =
      some (host.dispatch call object earlier.world).object := by
  rw [Definition.dispatch] at reached
  rcases resolved : session.resolve target receiver with missing | focus
  · rw [resolved] at reached
    cases reached
  · rw [resolved] at reached
    have within := Session.within_of_resolve resolved
    obtain ⟨keeps, -⟩ := within.applyAll_keeps host target before session
    dsimp only at reached
    rw [reached] at keeps
    show (earlier.symbols.replace receiver _).get? receiver = _
    have known : earlier.symbols.get? receiver ≠ none := by
      rw [Ne, SymbolTable.get?_eq_none_iff, keeps.names, ← SymbolTable.get?_eq_none_iff]
      intro absent
      rw [Session.resolve, absent] at resolved
      cases resolved
    obtain ⟨present, known⟩ := Option.ne_none_iff_exists'.1 known
    rw [SymbolTable.get?_replace, if_pos rfl, known]
    rfl

theorem Definition.evaluate_of_pivot
    (reached : Definition.dispatch host ⟨target, receiver, before⟩ session =
      (.ok ⟨object, some receiver⟩, earlier))
    (pivots : (host.dispatch call object earlier.world).answer = .ok (.object next)) :
    Definition.evaluate host ⟨target, receiver, before ++ call :: later⟩ session =
      Focus.finish host target later none ⟨next, none⟩
        (earlier.afterPivot host target receiver call object) := by
  rw [evaluate_eq, dispatch_append, reached]
  dsimp only
  rw [Focus.applyAll, Focus.apply_pivot pivots]
  rfl

/-- A chain that is performed as it is read ends like one that has been read. -/
theorem Streaming.chain_of_pivot {named received : Parser}
    (receives : named.receiver = (.ok receiver, received))
    (reads : (received.calls true).1 = before ++ call :: later)
    (reached : Definition.dispatch host ⟨target, receiver, before⟩ session =
      (.ok ⟨object, some receiver⟩, earlier))
    (pivots : (host.dispatch call object earlier.world).answer = .ok (.object next)) :
    ∃ rest, Streaming.chain host target named session =
      let ran := Focus.finish host target later (received.calls true).2.1 ⟨next, none⟩
        (earlier.afterPivot host target receiver call object)
      (ran.1, rest, ran.2) := by
  rw [Definition.dispatch] at reached
  rcases resolved : session.resolve target receiver with missing | focus
  · rw [resolved] at reached
    cases reached
  rw [resolved] at reached
  have performed := Streaming.calls_eq host target true focus received session
  dsimp only at reached
  rw [reads, Focus.applyAll_append, reached] at performed
  dsimp only at performed
  rw [Focus.applyAll, Focus.apply_pivot pivots] at performed
  dsimp only at performed
  rw [Streaming.chain, receives]
  dsimp only
  rw [resolved]
  dsimp only
  rw [Focus.finish]
  rcases applied : Focus.applyAll host target later ⟨next, none⟩
    (earlier.afterPivot host target receiver call object) with ⟨refusal | final, last⟩
  · rw [applied] at performed
    obtain ⟨rest, streamed⟩ := performed
    rw [streamed]
    exact ⟨rest, rfl⟩
  · rw [applied] at performed
    dsimp only at performed ⊢
    rw [performed]
    cases (received.calls true).2.1 with
    | some error => exact ⟨_, rfl⟩
    | none => exact ⟨_, rfl⟩

end

/-- The definitions of one receiver come to the same without those of the others. -/
theorem receivers_do_not_interfere (host : Host World Obj) :
    (host.Isolated → ∀ (program : Program) (session last : Session World Obj)
        (answer : List UInt8), program.evaluate host session = (.ok answer, last) →
      ∃ members, Definition.evaluateAll host program.definitions
          (session.record [.evaluating program.definitions.length]) = (.ok members, last) ∧
        answer = Answer.encode members ∧
        ∀ name,
          let own := program.ofReceiver name
          let part := Definition.membersOf name program.definitions members
          ∃ final, Definition.evaluateAll host own.definitions
              (session.record [.evaluating own.definitions.length]) = (.ok part, final) ∧
            own.evaluate host session = (.ok (Answer.encode part), final) ∧
            final.symbols.get? name = last.symbols.get? name) ∧
    (∀ (program : Program) (session : Session World Obj),
      Session.Keeps (program.definitions.map Definition.receiver) session
        (program.evaluate host session).2) ∧
    (∀ (input : Input), ∃ definitions unfinished,
      Program.Reached (Lexer.tokens input.characters) definitions unfinished ∧
      ∀ (strategy : Strategy) (session : Session World Obj) (τ : Type) [Sink τ] (sink : τ),
        Session.Keeps ((definitions ++ unfinished.toList).map Definition.receiver) session
          (strategy.run host input.parser session sink).2.1) ∧
    ∀ (target receiver : String) (before later : List Call) (call : Call) (object next : Obj)
        (session earlier : Session World Obj),
      Definition.dispatch host ⟨target, receiver, before⟩ session =
        (.ok ⟨object, some receiver⟩, earlier) →
      (host.dispatch call object earlier.world).answer = .ok (.object next) →
      let left := earlier.afterPivot host target receiver call object
      left.symbols.get? receiver = some (host.dispatch call object earlier.world).object ∧
      Focus.FinishesAway host target later none next left
        (Definition.evaluate host ⟨target, receiver, before ++ call :: later⟩ session) ∧
      ∀ named received, named.receiver = (.ok receiver, received) →
        (received.calls true).1 = before ++ call :: later →
        let ran := Streaming.chain host target named session
        Focus.FinishesAway host target later (received.calls true).2.1 next left
          (ran.1, ran.2.2) := by
  refine ⟨fun isolated program session last answer evaluated => ?_,
    fun program session => program.evaluate_keeps host session, fun input => ?_,
    fun target receiver before later call object next session earlier reached pivots => ?_⟩
  · rw [Program.evaluate] at evaluated
    rcases all : Definition.evaluateAll host program.definitions
      (session.record [.evaluating program.definitions.length]) with ⟨error | members, left⟩ <;>
      rw [all] at evaluated <;> cases evaluated
    refine ⟨members, rfl, rfl, fun name => ?_⟩
    have agree : Session.AgreeOn name
        (session.record [.evaluating program.definitions.length])
        (session.record [.evaluating (program.ofReceiver name).definitions.length]) := rfl
    obtain ⟨final, own, same⟩ := Definition.evaluateAll_ofReceiver isolated agree all
    refine ⟨final, own, ?_, same.symm⟩
    rw [Program.evaluate, own]
  · have going : input.parser.done = false := by cases input <;> rfl
    refine ⟨_, _, input.tokens_ahead ▸ input.parser.reached_outline, ?_⟩
    intro strategy session τ _ sink
    exact strategy.run_keeps host going session sink
  · refine ⟨Session.afterPivot_get? reached, ?_, fun named received receives reads => ?_⟩
    · rw [Definition.evaluate_of_pivot reached pivots]
      exact Focus.finishesAway host target later none next _
    · obtain ⟨rest, streamed⟩ := Streaming.chain_of_pivot receives reads reached pivots
      rw [streamed]
      exact Focus.finishesAway host target later _ next _

theorem receivers_do_not_interfere_interleaved :
    let host : Host (List String) (List String) :=
      ⟨fun call object world =>
          ⟨.ok (if call.name = "spawn" then .object ["spawned"] else .this),
            object ++ [call.name], world ++ [call.name], []⟩,
        fun object world =>
          ⟨.ok (Utf8.encode (List.replicate (object.length + 1) '1')), object, world, []⟩⟩
    let session : Session (List String) (List String) :=
      ⟨⟨[("a", []), ("b", []), ("c", [])], by decide⟩, [], []⟩
    let program : Program :=
      ⟨[⟨"x", "a", [⟨"f", []⟩]⟩, ⟨"y", "b", [⟨"g", []⟩, ⟨"spawn", []⟩, ⟨"h", []⟩]⟩,
        ⟨"z", "a", []⟩]⟩
    host.Isolated ∧
      (∃ last, program.evaluate host session =
          (.ok (Answer.encode [("x", [49, 49]), ("y", [49, 49, 49]), ("z", [49, 49])]), last) ∧
        ∃ final, (program.ofReceiver "a").evaluate host session =
            (.ok (Answer.encode [("x", [49, 49]), ("z", [49, 49])]), final) ∧
          final.symbols.get? "a" = last.symbols.get? "a") ∧
      (program.evaluate host session).2.symbols.get? "c" = session.symbols.get? "c" ∧
      (Definition.evaluate host ⟨"y", "b", [⟨"g", []⟩, ⟨"spawn", []⟩, ⟨"h", []⟩]⟩
        session).2.symbols.get? "b" = some ["g", "spawn"] := by
  intro host session program
  have isolated : host.Isolated :=
    ⟨fun call object first second => ⟨rfl, rfl⟩, fun object first second => ⟨rfl, rfl⟩⟩
  obtain ⟨apart, keeps, -, pivoted⟩ := receivers_do_not_interfere host
  obtain ⟨members, all, -, separate⟩ := apart isolated program session _ _ rfl
  obtain rfl : [("x", [49, 49]), ("y", [49, 49, 49]), ("z", [49, 49])] = members :=
    Except.ok.inj (congrArg Prod.fst all)
  obtain ⟨final, -, own, same⟩ := separate "a"
  refine ⟨isolated, ⟨_, rfl, final, own, same⟩, (keeps program session).objects "c" (by decide), ?_⟩
  obtain ⟨receiver, ends, -⟩ := pivoted "y" "b" [⟨"g", []⟩] [⟨"h", []⟩] ⟨"spawn", []⟩ ["g"]
    ["spawned"] session _ rfl rfl
  exact (congrArg (fun table => table.get? "b") ends.symbols).trans receiver

end Fluent
