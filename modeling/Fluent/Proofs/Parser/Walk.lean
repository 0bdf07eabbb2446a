/-
This file holds the grammar of programs as a walk from place to place.
-/

import Fluent.Proofs.Parser.Derivation

namespace Fluent

namespace Grammar

/-- How far a definition has come: what has been read of it last. -/
inductive Place where
  /-- Nothing, and another definition may begin. -/
  | start
  | target
  | define
  | receiver
  | dot
  | method
  | opening
  | argument
  | comma
  | closing
  deriving DecidableEq, Repr

namespace Place

/-- Where a token leads, if it fits. -/
def next : Place → Kind → Option Place
  | .start, kind => if kind = .identifier then some .target else none
  | .target, kind => if kind = .define then some .define else none
  | .define, kind => if kind = .identifier then some .receiver else none
  | .receiver, kind => if kind = .dot then some .dot else none
  | .dot, kind => if kind = .identifier then some .method else none
  | .method, kind => if kind = .openParen then some .opening else none
  | .opening, kind =>
    if kind = .closeParen then some .closing
    else if isArgument kind then some .argument else none
  | .argument, kind =>
    if kind = .comma then some .comma
    else if kind = .closeParen then some .closing else none
  | .comma, kind => if isArgument kind then some .argument else none
  | .closing, kind =>
    if kind = .dot then some .dot
    else if kind = .semicolon then some .start else none

/-- What is wanted at a place. -/
def expectation : Place → Expectation
  | .start => .bindingName
  | .target => .define
  | .define => .receiverName
  | .receiver => .dot
  | .dot => .methodName
  | .method => .openParen
  | .opening | .comma => .argument
  | .argument => .commaOrCloseParen
  | .closing => .dotOrSemicolon

/-- The place before a call. -/
def beforeCall (first : Bool) : Place :=
  if first then .receiver else .closing

/-- Where tokens of the given kinds lead, if all of them fit. -/
def walk (place : Place) (kinds : List Kind) : Option Place :=
  kinds.foldlM next place

theorem next_illegal (place : Place) : place.next .illegal = none := by
  cases place <;> rfl

@[simp] theorem walk_nil (place : Place) : place.walk [] = some place := rfl

theorem walk_cons (place : Place) (kind : Kind) (kinds : List Kind) :
    place.walk (kind :: kinds) = (place.next kind).bind fun next => next.walk kinds := rfl

theorem walk_append (place : Place) (first rest : List Kind) :
    place.walk (first ++ rest) = (place.walk first).bind fun next => next.walk rest :=
  List.foldlM_append

theorem ne_illegal_of_walk {place last : Place} {kinds : List Kind}
    (walked : place.walk kinds = some last) : ∀ kind ∈ kinds, kind ≠ .illegal := by
  rintro kind present rfl
  obtain ⟨before, after, rfl⟩ := List.append_of_mem present
  rw [walk_append, Option.bind_eq_some_iff] at walked
  obtain ⟨middle, -, stuck⟩ := walked
  rw [walk_cons, next_illegal] at stuck
  cases stuck

end Place

/-- The walk along lexemes stops within a definition, at what it meets there. -/
def stop : Place → List Lexeme → Option Mismatch
  | place, [] => if place = .start then none else some ⟨place.expectation, none⟩
  | place, lexeme :: rest =>
    match place.next lexeme.kind with
    | some next => stop next rest
    | none => some ⟨place.expectation, some lexeme⟩

section

variable {place next : Place} {lexeme : Lexeme} {first rest : List Lexeme}

theorem stop_cons_of_next (fits : place.next lexeme.kind = some next) :
    stop place (lexeme :: rest) = stop next rest := by
  rw [stop, fits]

theorem stop_cons_of_misfit (misfit : place.next lexeme.kind = none) :
    stop place (lexeme :: rest) = some ⟨place.expectation, some lexeme⟩ := by
  rw [stop, misfit]

theorem stop_append_of_walk (walked : place.walk (first.map Lexeme.kind) = some next) :
    stop place (first ++ rest) = stop next rest := by
  induction first generalizing place with
  | nil =>
    cases walked
    rfl
  | cons lexeme first hypothesis =>
    rw [List.map_cons, Place.walk_cons, Option.bind_eq_some_iff] at walked
    obtain ⟨middle, fits, walked⟩ := walked
    rw [List.cons_append, stop_cons_of_next fits]
    exact hypothesis walked

/-- A walk that stops among lexemes stops there whatever comes behind them. -/
theorem exists_stop_of_walk_eq_none (stuck : place.walk (first.map Lexeme.kind) = none) :
    ∃ (last : Place) (lexeme : Lexeme), lexeme ∈ first ∧ last.next lexeme.kind = none ∧
      ∀ rest, stop place (first ++ rest) = some ⟨last.expectation, some lexeme⟩ := by
  induction first generalizing place with
  | nil => cases stuck
  | cons lexeme first hypothesis =>
    cases fits : place.next lexeme.kind with
    | none => exact ⟨place, lexeme, List.mem_cons_self, fits, fun rest => stop_cons_of_misfit fits⟩
    | some middle =>
      rw [List.map_cons, Place.walk_cons, fits] at stuck
      obtain ⟨last, found, present, misfit, stops⟩ := hypothesis stuck
      refine ⟨last, found, List.mem_cons_of_mem _ present, misfit, fun rest => ?_⟩
      rw [List.cons_append, stop_cons_of_next fits]
      exact stops rest

/-- Lexemes are walked through exactly if they lead back to the start. -/
theorem stop_eq_none_iff :
    stop place first = none ↔ place.walk (first.map Lexeme.kind) = some .start := by
  induction first generalizing place with
  | nil =>
    rw [stop, List.map_nil, Place.walk_nil, Option.some.injEq]
    split
    next start => simp [start]
    next going => simp [going]
  | cons lexeme first hypothesis =>
    rw [List.map_cons, Place.walk_cons]
    cases fits : place.next lexeme.kind with
    | none => simp [stop_cons_of_misfit fits]
    | some middle =>
      rw [stop_cons_of_next fits]
      exact hypothesis

/-- Where a walk stops, all before was walked through, and what is met does not fit. -/
theorem exists_of_stop {mismatch : Mismatch} (stopped : stop place first = some mismatch) :
    ∃ used left last, first = used ++ (mismatch.found.toList ++ left) ∧
      place.walk (used.map Lexeme.kind) = some last ∧ mismatch.expected = last.expectation ∧
      (∀ lexeme ∈ mismatch.found, last.next lexeme.kind = none) ∧
      (mismatch.found = none → left = [] ∧ last ≠ .start) := by
  induction first generalizing place with
  | nil =>
    rw [stop] at stopped
    split at stopped
    · cases stopped
    next going =>
      cases stopped
      exact ⟨[], [], place, rfl, rfl, rfl, nofun, fun _ => ⟨rfl, going⟩⟩
  | cons lexeme first hypothesis =>
    cases fits : place.next lexeme.kind with
    | none =>
      rw [stop_cons_of_misfit fits] at stopped
      cases stopped
      refine ⟨[], first, place, rfl, rfl, rfl, fun found same => ?_, nofun⟩
      cases same
      exact fits
    | some middle =>
      rw [stop_cons_of_next fits] at stopped
      obtain ⟨used, left, last, split, walked, wanted, misfit, ended⟩ := hypothesis stopped
      refine ⟨lexeme :: used, left, last, by rw [split, List.cons_append], ?_, wanted, misfit,
        ended⟩
      rw [List.map_cons, Place.walk_cons, fits]
      exact walked

end

/-- A phrase can be read exactly where the walk goes on, which then stands behind it. -/
def Follows {α : Type} (place : Place) (goal : α → Place) (lexemes : List Lexeme) :
    Outcome α → Prop
  | (.ok value, rest) => stop place lexemes = stop (goal value) rest
  | (.error mismatch, _) => stop place lexemes = some mismatch

section

variable (lexemes : List Lexeme)

theorem follows_expect (kind : Kind) (place goal : Place) (going : place ≠ .start)
    (only : ∀ found, place.next found = if found = kind then some goal else none) :
    Follows place (fun _ => goal) lexemes (expect kind place.expectation lexemes) := by
  cases lexemes with
  | nil =>
    show stop place [] = _
    rw [stop, if_neg going]
  | cons lexeme rest =>
    have fits := only lexeme.kind
    rw [expect]
    split
    next same =>
      rw [if_pos same] at fits
      exact stop_cons_of_next fits
    next other =>
      rw [if_neg other] at fits
      exact stop_cons_of_misfit fits

theorem follows_target :
    Follows .start (fun name => if name.isSome then .define else .start) lexemes
      (target lexemes) := by
  cases lexemes with
  | nil => exact rfl
  | cons lexeme rest =>
    have defined := follows_expect rest .define .target .define (by decide) fun _ => rfl
    rw [target]
    split
    next named =>
      have fits : Place.start.next lexeme.kind = some .target := if_pos named
      split
      next literal left read =>
        rw [Place.expectation, read] at defined
        exact (stop_cons_of_next fits).trans defined
      next mismatch left failed =>
        rw [Place.expectation, failed] at defined
        exact (stop_cons_of_next fits).trans defined
    next other => exact stop_cons_of_misfit (if_neg other)

/-- Arguments begin behind an opening parenthesis or behind a comma. -/
theorem follows_someArguments {place : Place} (wanted : place.expectation = .argument)
    (going : place ≠ .start)
    (only : ∀ lexeme ∈ lexemes.head?,
      place.next lexeme.kind = if isArgument lexeme.kind then some .argument else none) :
    Follows place (fun _ => .closing) lexemes (someArguments lexemes) := by
  fun_induction someArguments lexemes generalizing place with
  | case1 =>
    show stop place [] = _
    rw [stop, if_neg going, wanted]
  | case2 lexeme argument =>
    have fits := (only lexeme rfl).trans (if_pos argument)
    exact stop_cons_of_next fits
  | case3 lexeme argument comma rest separated others left read hypothesis =>
    have fits := (only lexeme rfl).trans (if_pos argument)
    have later := @hypothesis .comma rfl (by decide) fun _ _ => rfl
    rw [read] at later
    have separates : Place.argument.next comma.kind = some .comma := if_pos separated
    exact (stop_cons_of_next fits).trans ((stop_cons_of_next separates).trans later)
  | case4 lexeme argument comma rest separated mismatch left failed hypothesis =>
    have fits := (only lexeme rfl).trans (if_pos argument)
    have later := @hypothesis .comma rfl (by decide) fun _ _ => rfl
    rw [failed] at later
    have separates : Place.argument.next comma.kind = some .comma := if_pos separated
    exact (stop_cons_of_next fits).trans ((stop_cons_of_next separates).trans later)
  | case5 lexeme argument closing rest separated closed =>
    have fits := (only lexeme rfl).trans (if_pos argument)
    have closes : Place.argument.next closing.kind = some .closing := by
      rw [Place.next, if_neg separated, if_pos closed]
    exact (stop_cons_of_next fits).trans (stop_cons_of_next closes)
  | case6 lexeme argument separator rest separated closed =>
    have fits := (only lexeme rfl).trans (if_pos argument)
    have misfit : Place.argument.next separator.kind = none := by
      rw [Place.next, if_neg separated, if_neg closed]
    exact (stop_cons_of_next fits).trans (stop_cons_of_misfit misfit)
  | case7 lexeme rest other =>
    have misfit := (only lexeme rfl).trans (if_neg other)
    rw [Follows, stop_cons_of_misfit misfit, wanted]

theorem follows_arguments :
    Follows .opening (fun _ => .closing) lexemes (arguments lexemes) := by
  cases lexemes with
  | nil => exact follows_someArguments [] rfl (by decide) nofun
  | cons lexeme rest =>
    rw [arguments]
    split
    next closed => exact stop_cons_of_next (if_pos closed)
    next going =>
      apply follows_someArguments (lexeme :: rest) rfl (by decide)
      intro first leading
      cases leading
      rw [Place.next, if_neg going]

theorem follows_callBody : Follows .dot (fun _ => .closing) lexemes (callBody lexemes) := by
  have named := follows_expect lexemes .identifier .dot .method (by decide) fun _ => rfl
  rw [Place.expectation] at named
  rw [callBody]
  split
  next mismatch left failed =>
    rw [failed] at named
    exact named
  next name left read =>
    rw [read] at named
    have opened := follows_expect left .openParen .method .opening (by decide) fun _ => rfl
    rw [Place.expectation] at opened
    split
    next mismatch left failed =>
      rw [failed] at opened
      exact named.trans opened
    next literal left read =>
      rw [read] at opened
      have listed := follows_arguments left
      split
      next mismatch left failed =>
        rw [failed] at listed
        exact named.trans (opened.trans listed)
      next values left read =>
        rw [read] at listed
        exact named.trans (opened.trans listed)

theorem follows_call (first : Bool) :
    Follows (.beforeCall first) (fun call => if call.isSome then .closing else .start) lexemes
      (call first lexemes) := by
  have wanted : (Place.beforeCall first).expectation = callExpectation first := by
    cases first <;> rfl
  cases lexemes with
  | nil =>
    have going : Place.beforeCall first ≠ .start := by cases first <;> decide
    show stop (.beforeCall first) [] = _
    rw [stop, if_neg going, wanted]
  | cons lexeme rest =>
    have body := follows_callBody rest
    rw [call]
    split
    next dotted =>
      have fits : (Place.beforeCall first).next lexeme.kind = some .dot := by
        rw [dotted]
        cases first <;> rfl
      split
      next value left read =>
        rw [read] at body
        exact (stop_cons_of_next fits).trans body
      next mismatch left failed =>
        rw [failed] at body
        exact (stop_cons_of_next fits).trans body
    next undotted =>
      split
      next ended =>
        obtain ⟨ended, later⟩ := ended
        obtain rfl : first = false := by simpa using later
        have fits : Place.closing.next lexeme.kind = some .start := by
          rw [Place.next, if_neg undotted, if_pos ended]
        exact stop_cons_of_next fits
      next going =>
        have misfit : (Place.beforeCall first).next lexeme.kind = none := by
          cases first with
          | true => exact if_neg undotted
          | false =>
            have unended : lexeme.kind ≠ .semicolon := fun ended => going ⟨ended, rfl⟩
            show Place.closing.next lexeme.kind = none
            rw [Place.next, if_neg undotted, if_neg unended]
        rw [Follows, stop_cons_of_misfit misfit, wanted]

theorem follows_calls (first : Bool) :
    Follows (.beforeCall first) (fun _ => .start) lexemes (calls first lexemes) := by
  fun_induction calls first lexemes with
  | case1 first lexemes mismatch left failed =>
    have one := follows_call lexemes first
    rw [failed] at one
    exact one
  | case2 first lexemes left ended =>
    have one := follows_call lexemes first
    rw [ended] at one
    exact one
  | case3 first lexemes next left more mismatch last failed hypothesis =>
    have one := follows_call lexemes first
    rw [more] at one
    rw [failed] at hypothesis
    exact one.trans hypothesis
  | case4 first lexemes next left more others last chained hypothesis =>
    have one := follows_call lexemes first
    rw [more] at one
    rw [chained] at hypothesis
    exact one.trans hypothesis

theorem follows_definition : Follows .start (fun _ => .start) lexemes (definition lexemes) := by
  have named := follows_target lexemes
  rw [definition]
  split
  next mismatch left failed =>
    rw [failed] at named
    exact named
  next left ended =>
    rw [ended] at named
    exact named
  next name left read =>
    rw [read] at named
    have received := follows_expect left .identifier .define .receiver (by decide)
      fun _ => rfl
    rw [Place.expectation, ← receiver] at received
    split
    next mismatch left failed =>
      rw [failed] at received
      exact named.trans received
    next object left read =>
      rw [read] at received
      have chained := follows_calls left true
      split
      next mismatch left failed =>
        rw [failed] at chained
        exact named.trans (received.trans chained)
      next others left read =>
        rw [read] at chained
        exact named.trans (received.trans chained)

end

end Grammar

namespace Parser

section

variable {parser : Parser} {fault : Fault} {expected : Expectation} {lexeme : Lexeme}

theorem faultOr_of_fault (broken : parser.fault = some fault) (error : Error) :
    (parser.faultOr error).1 = .transport fault := by
  rw [faultOr, broken]

theorem faultOr_of_unbroken (unbroken : parser.fault = none) (error : Error) :
    (parser.faultOr error).1 = error := by
  rw [faultOr, unbroken]

theorem report_of_end :
    (parser.report ⟨expected, none⟩).1 =
      (parser.faultOr
        (.unexpected ⟨expected, .finish, "", parser.byteLength, parser.charLength⟩)).1 := rfl

theorem report_of_illegal (illegal : lexeme.kind = .illegal) :
    (parser.report ⟨expected, some lexeme⟩).1 =
      if lexeme.cut then
        (parser.faultOr (.lexical ⟨lexeme.literal, lexeme.byteOffset, lexeme.charOffset⟩)).1
      else .lexical ⟨lexeme.literal, lexeme.byteOffset, lexeme.charOffset⟩ := by
  simp only [report, if_pos illegal]
  split <;> rfl

theorem report_of_legal (legal : lexeme.kind ≠ .illegal) :
    (parser.report ⟨expected, some lexeme⟩).1 =
      .unexpected ⟨expected, lexeme.kind, lexeme.literal, lexeme.byteOffset,
        lexeme.charOffset⟩ := by
  simp only [report, if_neg legal]

end

/-- What is blamed does not depend on what is ahead. -/
theorem report_ahead (mismatch : Grammar.Mismatch) (parser : Parser) (rest : List Lexeme) :
    (report mismatch { parser with ahead := rest }).1 = (report mismatch parser).1 := by
  have same (error : Error) :
      (faultOr error { parser with ahead := rest }).1 = (faultOr error parser).1 := by
    rw [faultOr, faultOr]
    cases parser.fault <;> rfl
  obtain ⟨expected, _ | lexeme⟩ := mismatch
  · exact same _
  · by_cases illegal : lexeme.kind = .illegal
    · rw [report_of_illegal illegal, report_of_illegal illegal, same]
    · rw [report_of_legal illegal, report_of_legal illegal]

/-- The error of a parser is the one at which its walk stops, or else a fault. -/
theorem error_definitions (parser : Parser) (going : parser.done = false) :
    parser.definitions.2.1 =
      match Grammar.stop .start parser.ahead with
      | some mismatch => some (parser.report mismatch).1
      | none => parser.fault.map .transport := by
  induction size : parser.ahead.length using Nat.strongRecOn generalizing parser with
  | ind size hypothesis =>
    have follows := Grammar.follows_definition parser.ahead
    rw [definitions_eq parser going, definition]
    rcases read : Grammar.definition parser.ahead with ⟨mismatch | _ | definition, rest⟩
    · rw [read] at follows
      rw [show Grammar.stop .start parser.ahead = some mismatch from follows]
      simp only [settleOptional, settle, report_ahead]
    · obtain ⟨ended, rfl⟩ := Grammar.definition_eq_none_iff.1 read
      rw [ended]
      simp only [settleOptional, settle, Grammar.stop]
      cases parser.fault <;> rfl
    · rw [read] at follows
      have smaller := Grammar.length_definition_lt read
      have later := hypothesis _ (size ▸ smaller) { parser with ahead := rest } going rfl
      simp only [settleOptional, settle, later, report_ahead]
      rw [show Grammar.stop .start parser.ahead = Grammar.stop .start rest from follows]

/-- An input without a fault is a program exactly if its lexemes lead back to the start. -/
theorem program_ok_iff_walk (parser : Parser) (going : parser.done = false)
    (unbroken : parser.fault = none) :
    (∃ program, parser.program.1 = .ok program) ↔
      Grammar.Place.start.walk (parser.ahead.map Lexeme.kind) = some .start := by
  have failure := parser.error_definitions going
  rw [unbroken, Option.map_none] at failure
  rw [← Grammar.stop_eq_none_iff]
  constructor
  · rintro ⟨program, parsed⟩
    rw [((parser.program_eq_ok_iff program).1 parsed).2] at failure
    cases stopped : Grammar.stop .start parser.ahead with
    | none => rfl
    | some mismatch =>
      rw [stopped] at failure
      cases failure
  · intro through
    rw [through] at failure
    exact ⟨⟨parser.definitions.1⟩, (parser.program_eq_ok_iff _).2 ⟨rfl, failure⟩⟩

end Parser

end Fluent
