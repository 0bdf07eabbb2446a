/-
This file proves that the parser accepts exactly what the grammar of programs derives.
-/

import Fluent.Proofs.Parser.Outline

namespace Fluent

def Lexeme.token (lexeme : Lexeme) : Token :=
  ⟨lexeme.kind, lexeme.literal⟩

@[simp] theorem Lexeme.kind_token (lexeme : Lexeme) : lexeme.token.kind = lexeme.kind := rfl

@[simp] theorem Lexeme.literal_token (lexeme : Lexeme) :
    lexeme.token.literal = lexeme.literal := rfl

/-- The tokens of an input without its blanks, up to its end. -/
def Transcript.tokens (transcript : Transcript) : List Token :=
  transcript.lexemes.map Lexeme.token

/-- `Argument := INT | FLOAT | STRING | TRUE | FALSE | JSON_BLOB` -/
inductive Argument.Derived : Token → Argument → Prop
  | literal {token : Token}
      (kind : token.kind ∈ [.integer, .float, .text, .trueWord, .falseWord, .blob]) :
      Argument.Derived token ⟨token.kind, token.literal⟩

/-- `Argument {',' Argument}` -/
inductive Argument.SomeDerived : List Token → List Argument → Prop
  | one {token : Token} {argument : Argument} (derived : Argument.Derived token argument) :
      Argument.SomeDerived [token] [argument]
  | more {token comma : Token} {tokens : List Token} {argument : Argument}
      {arguments : List Argument} (derived : Argument.Derived token argument)
      (separated : comma.kind = .comma) (others : Argument.SomeDerived tokens arguments) :
      Argument.SomeDerived (token :: comma :: tokens) (argument :: arguments)

theorem Argument.SomeDerived.kind_head {token : Token} {tokens : List Token}
    {arguments : List Argument} (derived : Argument.SomeDerived (token :: tokens) arguments) :
    token.kind ∈ [Kind.integer, .float, .text, .trueWord, .falseWord, .blob] := by
  cases derived with
  | one derived =>
    obtain ⟨kind⟩ := derived
    exact kind
  | more derived separated others =>
    obtain ⟨kind⟩ := derived
    exact kind

/-- `ArgList := [Argument {',' Argument}]` -/
inductive Argument.ListDerived : List Token → List Argument → Prop
  | none : Argument.ListDerived [] []
  | some {tokens : List Token} {arguments : List Argument}
      (derived : Argument.SomeDerived tokens arguments) : Argument.ListDerived tokens arguments

/-- `Call := '.' IDENT '(' ArgList ')'` -/
inductive Call.Derived : List Token → Call → Prop
  | call {dot name opening closing : Token} {tokens : List Token} {arguments : List Argument}
      (dotted : dot.kind = .dot) (named : name.kind = .identifier)
      (opened : opening.kind = .openParen) (derived : Argument.ListDerived tokens arguments)
      (closed : closing.kind = .closeParen) :
      Call.Derived (dot :: name :: opening :: (tokens ++ [closing])) ⟨name.literal, arguments⟩

/-- `{Call}` -/
inductive Call.ListDerived : List Token → List Call → Prop
  | nil : Call.ListDerived [] []
  | cons {first rest : List Token} {call : Call} {calls : List Call}
      (derived : Call.Derived first call) (others : Call.ListDerived rest calls) :
      Call.ListDerived (first ++ rest) (call :: calls)

/-- `Definition := IDENT DEFINE IDENT {Call}+ ';'` -/
inductive Definition.Derived : List Token → Definition → Prop
  | definition {target define receiver semicolon : Token} {tokens : List Token}
      {calls : List Call} (targeted : target.kind = .identifier)
      (defined : define.kind = .define) (received : receiver.kind = .identifier)
      (derived : Call.ListDerived tokens calls) (called : calls ≠ [])
      (ended : semicolon.kind = .semicolon) :
      Definition.Derived (target :: define :: receiver :: (tokens ++ [semicolon]))
        ⟨target.literal, receiver.literal, calls⟩

/-- `Program := {Definition}` -/
inductive Program.Derived : List Token → Program → Prop
  | nil : Program.Derived [] ⟨[]⟩
  | cons {first rest : List Token} {definition : Definition} {definitions : List Definition}
      (derived : Definition.Derived first definition)
      (others : Program.Derived rest ⟨definitions⟩) :
      Program.Derived (first ++ rest) ⟨definition :: definitions⟩

namespace Grammar

theorem isArgument_iff (kind : Kind) :
    isArgument kind ↔ kind ∈ [Kind.integer, .float, .text, .trueWord, .falseWord, .blob] := by
  simp [isArgument]

theorem expect_eq_ok_iff {kind : Kind} {expected : Expectation} {lexemes rest : List Lexeme}
    {literal : String} :
    expect kind expected lexemes = (.ok literal, rest) ↔
      ∃ lexeme, lexemes = lexeme :: rest ∧ lexeme.kind = kind ∧ lexeme.literal = literal := by
  cases lexemes with
  | nil => simp [expect]
  | cons lexeme lexemes =>
    rw [expect]
    constructor
    · intro read
      split at read
      next same =>
        cases read
        exact ⟨lexeme, rfl, same, rfl⟩
      next => cases read
    · rintro ⟨found, sameList, same, rfl⟩
      cases sameList
      rw [if_pos same]

/-- Arguments that can be read can be derived. -/
theorem derived_of_someArguments {lexemes rest : List Lexeme} {arguments : List Argument}
    (read : someArguments lexemes = (.ok arguments, rest)) :
    ∃ used closing, lexemes = used ++ closing :: rest ∧ closing.kind = .closeParen ∧
      Argument.SomeDerived (used.map Lexeme.token) arguments := by
  fun_induction someArguments lexemes generalizing arguments with
  | case3 lexeme wanted comma after separated others left found hypothesis =>
    cases read
    obtain ⟨used, closing, rfl, closed, derived⟩ := hypothesis found
    exact ⟨lexeme :: comma :: used, closing, rfl, closed,
      .more (.literal ((isArgument_iff _).1 wanted)) separated derived⟩
  | case5 lexeme wanted closing after notSeparated closed =>
    cases read
    exact ⟨[lexeme], closing, rfl, closed, .one (.literal ((isArgument_iff _).1 wanted))⟩
  | _ => cases read

/-- Arguments that can be derived can be read. -/
theorem someArguments_of_derived {used : List Lexeme} {arguments : List Argument}
    (derived : Argument.SomeDerived (used.map Lexeme.token) arguments) {closing : Lexeme}
    (closed : closing.kind = .closeParen) (rest : List Lexeme) :
    someArguments (used ++ closing :: rest) = (.ok arguments, rest) := by
  generalize taken : used.map Lexeme.token = tokens at derived
  induction derived generalizing used with
  | one derived =>
    obtain ⟨lexeme, rfl, rfl⟩ := List.map_eq_singleton_iff.1 taken
    obtain ⟨kind⟩ := derived
    have wanted : isArgument lexeme.kind := (isArgument_iff _).2 kind
    simp [someArguments, wanted, closed]
  | more derived separated others hypothesis =>
    obtain ⟨lexeme, later, rfl, rfl, takenLater⟩ := List.map_eq_cons_iff.1 taken
    obtain ⟨comma, used, rfl, rfl, takenOthers⟩ := List.map_eq_cons_iff.1 takenLater
    obtain ⟨kind⟩ := derived
    have wanted : isArgument lexeme.kind := (isArgument_iff _).2 kind
    rw [Lexeme.kind_token] at separated
    simp [someArguments, wanted, separated, hypothesis takenOthers]

theorem arguments_eq_ok_iff {lexemes rest : List Lexeme} {read : List Argument} :
    arguments lexemes = (.ok read, rest) ↔
      ∃ used closing, lexemes = used ++ closing :: rest ∧ closing.kind = .closeParen ∧
        Argument.ListDerived (used.map Lexeme.token) read := by
  constructor
  · intro found
    unfold arguments at found
    split at found
    next =>
      obtain ⟨used, closing, same, closed, derived⟩ := derived_of_someArguments found
      exact ⟨used, closing, same, closed, .some derived⟩
    next lexeme lexemes =>
      split at found
      next closed =>
        cases found
        exact ⟨[], lexeme, rfl, closed, .none⟩
      next =>
        obtain ⟨used, closing, same, closed, derived⟩ := derived_of_someArguments found
        exact ⟨used, closing, same, closed, .some derived⟩
  · rintro ⟨used, closing, rfl, closed, derived⟩
    cases used with
    | nil =>
      cases derived with
      | none => simp [arguments, closed]
      | some derived => cases derived
    | cons lexeme used =>
      have some : Argument.SomeDerived ((lexeme :: used).map Lexeme.token) read := by
        generalize taken : (lexeme :: used).map Lexeme.token = tokens at derived
        cases derived with
        | none => simp at taken
        | some derived => exact derived
      have notClosed : lexeme.kind ≠ .closeParen := by
        rintro closing
        simpa [closing] using some.kind_head
      simpa [arguments, notClosed] using someArguments_of_derived some closed rest

theorem callBody_eq_ok_iff {lexemes rest : List Lexeme} {read : Call} :
    callBody lexemes = (.ok read, rest) ↔
      ∃ name opening used closing,
        lexemes = name :: opening :: (used ++ closing :: rest) ∧ name.kind = .identifier ∧
          opening.kind = .openParen ∧ closing.kind = .closeParen ∧ name.literal = read.name ∧
          Argument.ListDerived (used.map Lexeme.token) read.arguments := by
  constructor
  · intro found
    unfold callBody at found
    split at found
    · cases found
    next name afterName named =>
      obtain ⟨first, rfl, nameKind, rfl⟩ := expect_eq_ok_iff.1 named
      split at found
      · cases found
      next opening afterOpening opened =>
        obtain ⟨second, rfl, openingKind, rfl⟩ := expect_eq_ok_iff.1 opened
        split at found
        · cases found
        next arguments last listed =>
          cases found
          obtain ⟨used, closing, rfl, closed, derived⟩ := arguments_eq_ok_iff.1 listed
          exact ⟨first, second, used, closing, rfl, nameKind, openingKind, closed, rfl, derived⟩
  · rintro ⟨name, opening, used, closing, rfl, nameKind, openingKind, closed, named, derived⟩
    have listed : arguments (used ++ closing :: rest) = (.ok read.arguments, rest) :=
      arguments_eq_ok_iff.2 ⟨used, closing, rfl, closed, derived⟩
    simp [callBody, expect, nameKind, openingKind, listed, named]

/-- A call can be read exactly if it can be derived. -/
theorem call_eq_some_iff {first : Bool} {lexemes rest : List Lexeme} {read : Call} :
    call first lexemes = (.ok (some read), rest) ↔
      ∃ used, lexemes = used ++ rest ∧ Call.Derived (used.map Lexeme.token) read := by
  constructor
  · intro found
    cases lexemes with
    | nil => simp [call] at found
    | cons dot lexemes =>
      rw [call] at found
      split at found
      next dotted =>
        split at found
        next body last parsed =>
          cases found
          obtain ⟨name, opening, used, closing, rfl, nameKind, openingKind, closed, named,
            derived⟩ := callBody_eq_ok_iff.1 parsed
          refine ⟨dot :: name :: opening :: (used ++ [closing]), by simp, ?_⟩
          have whole : Call.Derived (dot.token :: name.token :: opening.token ::
              (used.map Lexeme.token ++ [closing.token])) ⟨name.literal, read.arguments⟩ :=
            .call dotted nameKind openingKind derived closed
          simpa [named] using whole
        next => cases found
      next => split at found <;> cases found
  · rintro ⟨used, rfl, derived⟩
    generalize taken : used.map Lexeme.token = tokens at derived
    obtain @⟨_, _, _, _, _, _, dotted, nameKind, openingKind, derived, closed⟩ := derived
    obtain ⟨dot, afterDot, rfl, rfl, takenName⟩ := List.map_eq_cons_iff.1 taken
    obtain ⟨name, afterName, rfl, rfl, takenOpening⟩ := List.map_eq_cons_iff.1 takenName
    obtain ⟨opening, inner, rfl, rfl, takenInner⟩ := List.map_eq_cons_iff.1 takenOpening
    obtain ⟨listed, last, rfl, rfl, takenLast⟩ := List.map_eq_append_iff.1 takenInner
    obtain ⟨closing, rfl, rfl⟩ := List.map_eq_singleton_iff.1 takenLast
    rw [Lexeme.kind_token] at dotted
    have body : callBody (name :: opening :: (listed ++ closing :: rest)) =
        (.ok ⟨name.literal, _⟩, rest) :=
      callBody_eq_ok_iff.2 ⟨name, opening, listed, closing, rfl, nameKind, openingKind, closed,
        rfl, derived⟩
    simp [call, dotted, body]

/-- Only a later call may be a `;` instead. -/
theorem call_eq_none_iff {first : Bool} {lexemes rest : List Lexeme} :
    call first lexemes = (.ok none, rest) ↔
      first = false ∧ ∃ semicolon, lexemes = semicolon :: rest ∧ semicolon.kind = .semicolon := by
  cases lexemes with
  | nil => simp [call]
  | cons lexeme lexemes =>
    rw [call]
    split
    next dotted =>
      rcases callBody lexemes with ⟨mismatch | body, last⟩ <;> simp [dotted]
    next =>
      split
      next ended =>
        have later : first = false := by simpa using ended.2
        constructor
        · intro found
          cases found
          exact ⟨later, lexeme, rfl, ended.1⟩
        · rintro ⟨_, semicolon, sameList, _⟩
          cases sameList
          rfl
      next notEnded =>
        constructor
        · intro found
          cases found
        · rintro ⟨later, semicolon, sameList, kind⟩
          cases sameList
          simp [later, kind] at notEnded

theorem calls_eq (first : Bool) (lexemes : List Lexeme) :
    calls first lexemes =
      match call first lexemes with
      | (.error mismatch, rest) => (.error mismatch, rest)
      | (.ok none, rest) => (.ok [], rest)
      | (.ok (some next), rest) =>
        match calls false rest with
        | (.error mismatch, rest) => (.error mismatch, rest)
        | (.ok others, rest) => (.ok (next :: others), rest) := by
  rw [calls]
  split
  next failed => rw [failed]
  next ended => rw [ended]
  next more => exact more ▸ rfl

/-- A chain can be read exactly if it can be derived. -/
theorem calls_eq_ok_iff {first : Bool} {lexemes rest : List Lexeme} {read : List Call} :
    calls first lexemes = (.ok read, rest) ↔
      ∃ used semicolon, lexemes = used ++ semicolon :: rest ∧ semicolon.kind = .semicolon ∧
        Call.ListDerived (used.map Lexeme.token) read ∧ (first = true → read ≠ []) := by
  constructor
  · intro found
    fun_induction calls first lexemes generalizing read with
    | case1 first lexemes mismatch left failed => cases found
    | case2 first lexemes left ended =>
      cases found
      obtain ⟨later, semicolon, rfl, kind⟩ := call_eq_none_iff.1 ended
      exact ⟨[], semicolon, rfl, kind, .nil, by simp [later]⟩
    | case3 first lexemes next left more mismatch last failed hypothesis => cases found
    | case4 first lexemes next left more others last chained hypothesis =>
      cases found
      obtain ⟨one, rfl, derived⟩ := call_eq_some_iff.1 more
      obtain ⟨used, semicolon, rfl, kind, listed, _⟩ := hypothesis chained
      refine ⟨one ++ used, semicolon, by simp, kind, ?_, fun _ => List.cons_ne_nil _ _⟩
      rw [List.map_append]
      exact .cons derived listed
  · rintro ⟨used, semicolon, rfl, kind, derived, nonempty⟩
    generalize taken : used.map Lexeme.token = tokens at derived
    induction derived generalizing first used with
    | nil =>
      obtain rfl := List.map_eq_nil_iff.1 taken
      have later : first = false := by simpa using nonempty
      have ended : call first (semicolon :: rest) = (.ok none, rest) :=
        call_eq_none_iff.2 ⟨later, semicolon, rfl, kind⟩
      rw [List.nil_append, calls_eq, ended]
    | cons derived others hypothesis =>
      obtain ⟨one, used, rfl, rfl, rfl⟩ := List.map_eq_append_iff.1 taken
      have more : call first (one ++ (used ++ semicolon :: rest)) = (.ok (some _), _) :=
        call_eq_some_iff.2 ⟨one, rfl, derived⟩
      rw [List.append_assoc, calls_eq, more]
      have later : calls false (used ++ semicolon :: rest) = (.ok _, rest) :=
        hypothesis used (by simp) rfl
      simp only [later]

theorem target_eq_some_iff {lexemes rest : List Lexeme} {name : String} :
    target lexemes = (.ok (some name), rest) ↔
      ∃ first define, lexemes = first :: define :: rest ∧ first.kind = .identifier ∧
        define.kind = .define ∧ first.literal = name := by
  constructor
  · intro found
    cases lexemes with
    | nil => cases found
    | cons lexeme lexemes =>
      rw [target] at found
      split at found
      next named =>
        split at found
        next literal last defined =>
          cases found
          obtain ⟨define, rfl, kind, _⟩ := expect_eq_ok_iff.1 defined
          exact ⟨lexeme, define, rfl, named, kind, rfl⟩
        next => cases found
      next => cases found
  · rintro ⟨first, define, rfl, named, kind, rfl⟩
    simp [target, expect, named, kind]

/-- Only the end of the input holds no target. -/
theorem target_eq_none_iff {lexemes rest : List Lexeme} :
    target lexemes = (.ok none, rest) ↔ lexemes = [] ∧ rest = [] := by
  cases lexemes with
  | nil => simp [target, eq_comm]
  | cons lexeme lexemes =>
    rw [target]
    split
    · split <;> simp
    · simp

/-- A definition can be read exactly if it can be derived. -/
theorem definition_eq_some_iff {lexemes rest : List Lexeme} {read : Definition} :
    definition lexemes = (.ok (some read), rest) ↔
      ∃ used, lexemes = used ++ rest ∧ Definition.Derived (used.map Lexeme.token) read := by
  constructor
  · intro found
    unfold definition at found
    split at found
    · cases found
    · cases found
    next name afterTarget named =>
      obtain ⟨first, define, rfl, firstKind, defineKind, rfl⟩ := target_eq_some_iff.1 named
      split at found
      · cases found
      next name afterReceiver received =>
        obtain ⟨receiver, rfl, receiverKind, rfl⟩ := expect_eq_ok_iff.1 received
        split at found
        · cases found
        next calls last chained =>
          cases found
          obtain ⟨used, semicolon, rfl, ended, derived, nonempty⟩ := calls_eq_ok_iff.1 chained
          refine ⟨first :: define :: receiver :: (used ++ [semicolon]), by simp, ?_⟩
          have whole : Definition.Derived (first.token :: define.token :: receiver.token ::
              (used.map Lexeme.token ++ [semicolon.token]))
              ⟨first.literal, receiver.literal, calls⟩ :=
            .definition firstKind defineKind receiverKind derived (nonempty rfl) ended
          simpa using whole
  · rintro ⟨used, rfl, derived⟩
    generalize taken : used.map Lexeme.token = tokens at derived
    obtain @⟨_, _, _, _, _, _, targetKind, defineKind, receiverKind, derived, nonempty, ended⟩ :=
      derived
    obtain ⟨target, afterTarget, rfl, rfl, takenDefine⟩ := List.map_eq_cons_iff.1 taken
    obtain ⟨define, afterDefine, rfl, rfl, takenReceiver⟩ := List.map_eq_cons_iff.1 takenDefine
    obtain ⟨receiver, chain, rfl, rfl, takenChain⟩ := List.map_eq_cons_iff.1 takenReceiver
    obtain ⟨chained, last, rfl, rfl, takenLast⟩ := List.map_eq_append_iff.1 takenChain
    obtain ⟨semicolon, rfl, rfl⟩ := List.map_eq_singleton_iff.1 takenLast
    rw [Lexeme.kind_token] at targetKind defineKind receiverKind
    have listed : calls true (chained ++ semicolon :: rest) = (.ok _, rest) :=
      calls_eq_ok_iff.2 ⟨chained, semicolon, rfl, ended, derived, fun _ => nonempty⟩
    simp [definition, Grammar.target, Grammar.receiver, expect, targetKind, defineKind,
      receiverKind, listed]

/-- Only the end of the input holds no definition. -/
theorem definition_eq_none_iff {lexemes rest : List Lexeme} :
    definition lexemes = (.ok none, rest) ↔ lexemes = [] ∧ rest = [] := by
  rw [← target_eq_none_iff]
  unfold definition
  split
  next failed => simp [failed]
  next ended => simp [ended]
  next name afterTarget named =>
    simp only [named, Prod.mk.injEq, Except.ok.injEq, reduceCtorEq, false_and, iff_false]
    intro found
    split at found
    · cases found
    · split at found <;> cases found

end Grammar

namespace Parser

/-- Without a fault, a phrase that is absent is no error. -/
theorem settleOptional_of_unbroken {α : Type} (outcome : Grammar.Outcome (Option α))
    (parser : Parser) (unbroken : parser.fault = none) :
    settleOptional outcome parser = settle outcome parser := by
  rcases outcome with ⟨mismatch | _ | value, rest⟩ <;> simp [settleOptional, settle, unbroken]

/-- What is derived from the lexemes ahead is what the parser yields. -/
theorem definitions_of_derived {program : Program} (parser : Parser)
    (going : parser.done = false) (unbroken : parser.fault = none)
    (derived : Program.Derived (parser.ahead.map Lexeme.token) program) :
    parser.definitions.1 = program.definitions ∧ parser.definitions.2.1 = none := by
  generalize taken : parser.ahead.map Lexeme.token = tokens at derived
  induction derived generalizing parser with
  | nil =>
    have ended : Grammar.definition parser.ahead = (.ok none, []) :=
      Grammar.definition_eq_none_iff.2 ⟨List.map_eq_nil_iff.1 taken, rfl⟩
    simp [definitions_eq parser going, definition, settleOptional_of_unbroken _ _ unbroken, ended,
      settle]
  | cons derived others hypothesis =>
    obtain ⟨first, rest, split, rfl, rfl⟩ := List.map_eq_append_iff.1 taken
    have read : Grammar.definition parser.ahead = (.ok (some _), rest) :=
      Grammar.definition_eq_some_iff.2 ⟨first, split, derived⟩
    have later := hypothesis { parser with ahead := rest } going unbroken rfl
    simpa [definitions_eq parser going, definition, settleOptional_of_unbroken _ _ unbroken, read,
      settle] using later

/-- What the parser yields up to the end of its input is derived from the lexemes ahead. -/
theorem derived_of_definitions (parser : Parser) (going : parser.done = false)
    (unbroken : parser.fault = none) (finished : parser.definitions.2.1 = none) :
    Program.Derived (parser.ahead.map Lexeme.token) ⟨parser.definitions.1⟩ := by
  induction size : parser.ahead.length using Nat.strongRecOn generalizing parser with
  | ind size hypothesis =>
    have read := definitions_eq parser going
    rw [definition, settleOptional_of_unbroken _ _ unbroken] at read
    rcases found : Grammar.definition parser.ahead with ⟨mismatch | _ | definition, rest⟩
    · rw [found] at read
      simp [read, settle] at finished
    · obtain ⟨empty, -⟩ := Grammar.definition_eq_none_iff.1 found
      rw [found] at read
      simp only [read, settle, empty, List.map_nil]
      exact .nil
    · obtain ⟨used, split, derived⟩ := Grammar.definition_eq_some_iff.1 found
      have smaller := Grammar.length_definition_lt found
      rw [found] at read
      simp only [settle] at read
      rw [read] at finished ⊢
      have later := hypothesis _ (size ▸ smaller) { parser with ahead := rest } going unbroken
        finished rfl
      rw [split, List.map_append]
      exact .cons derived later

end Parser

/-- A text that is in memory has no fault. -/
theorem Transcript.fault_ofSource_text (source : TextSource) :
    (Transcript.ofSource source).fault = none := by
  fun_induction Transcript.ofSource source with
  | case1 source after scanned => rfl
  | case2 source kind after scanned going lexeme later hypothesis => exact hypothesis

section

variable {tokens : List Token}

theorem Argument.Derived.kind_ne_illegal {token : Token} {argument : Argument}
    (derived : Argument.Derived token argument) : token.kind ≠ .illegal := by
  obtain ⟨kind⟩ := derived
  intro illegal
  simp [illegal] at kind

theorem Argument.SomeDerived.kind_ne_illegal {arguments : List Argument}
    (derived : Argument.SomeDerived tokens arguments) :
    ∀ token ∈ tokens, token.kind ≠ .illegal := by
  induction derived with
  | one derived => simpa using derived.kind_ne_illegal
  | more derived separated others hypothesis =>
    simpa [derived.kind_ne_illegal, separated] using hypothesis

theorem Argument.ListDerived.kind_ne_illegal {arguments : List Argument}
    (derived : Argument.ListDerived tokens arguments) :
    ∀ token ∈ tokens, token.kind ≠ .illegal := by
  cases derived with
  | none => simp
  | some derived => exact derived.kind_ne_illegal

theorem Call.Derived.kind_ne_illegal {call : Call} (derived : Call.Derived tokens call) :
    ∀ token ∈ tokens, token.kind ≠ .illegal := by
  obtain ⟨dotted, named, opened, listed, closed⟩ := derived
  have inner := listed.kind_ne_illegal
  simp only [List.mem_cons, List.mem_append, List.not_mem_nil, or_false]
  rintro token (rfl | rfl | rfl | present | rfl) <;> simp_all

theorem Call.ListDerived.kind_ne_illegal {calls : List Call}
    (derived : Call.ListDerived tokens calls) : ∀ token ∈ tokens, token.kind ≠ .illegal := by
  induction derived with
  | nil => simp
  | cons derived others hypothesis =>
    intro token present
    rcases List.mem_append.1 present with here | there
    · exact derived.kind_ne_illegal token here
    · exact hypothesis token there

theorem Definition.Derived.kind_ne_illegal {definition : Definition}
    (derived : Definition.Derived tokens definition) : ∀ token ∈ tokens, token.kind ≠ .illegal := by
  obtain ⟨targeted, defined, received, listed, called, ended⟩ := derived
  have inner := listed.kind_ne_illegal
  simp only [List.mem_cons, List.mem_append, List.not_mem_nil, or_false]
  rintro token (rfl | rfl | rfl | present | rfl) <;> simp_all

theorem Program.Derived.kind_ne_illegal {program : Program}
    (derived : Program.Derived tokens program) : ∀ token ∈ tokens, token.kind ≠ .illegal := by
  induction derived with
  | nil => simp
  | cons derived others hypothesis =>
    intro token present
    rcases List.mem_append.1 present with here | there
    · exact derived.kind_ne_illegal token here
    · exact hypothesis token there

end

theorem parse_eq_ok_iff (text : String) (program : Program) :
    parse text = .ok program ↔
      Program.Derived (Transcript.ofSource (TextSource.ofString text)).tokens program := by
  have going : (Parser.ofString text).done = false := rfl
  have unbroken : (Parser.ofString text).fault = none :=
    Transcript.fault_ofSource_text (TextSource.ofString text)
  rw [parse, Parser.program_eq_ok_iff]
  constructor
  · rintro ⟨sameDefinitions, finished⟩
    have derived := (Parser.ofString text).derived_of_definitions going unbroken finished
    rwa [sameDefinitions] at derived
  · intro derived
    exact (Parser.ofString text).definitions_of_derived going unbroken derived

/-- A text parses to a program exactly if its tokens, none of which is illegal, derive it. -/
theorem parse_eq_ok_iff_derived (text : String) (program : Program) :
    parse text = .ok program ↔
      let tokens := (Transcript.ofSource (TextSource.ofString text)).tokens
      (∀ token ∈ tokens, token.kind ≠ .illegal) ∧ Program.Derived tokens program := by
  rw [parse_eq_ok_iff]
  constructor
  · intro derived
    exact ⟨derived.kind_ne_illegal, derived⟩
  · rintro ⟨-, derived⟩
    exact derived

end Fluent
