/-
This file holds how far tokens go towards a program.
-/

import Fluent.Proofs.Parser.Derivation

namespace Fluent

/-- Tokens do not go on with another call nor, behind the first call, with the `;`. -/
structure Call.Stuck (first : Bool) (rest : List Token) : Prop where
  uncalled : ∀ used call, used <+: rest → ¬ Call.Derived used call
  unended : first = false → ∀ token ∈ rest.head?, token.kind ≠ .semicolon

/-- Tokens go through definitions, and into another one if they come as far as its receiver. -/
inductive Program.Reached : List Token → List Definition → Option Definition → Prop
  /-- Behind the definitions there is no name with `:=` and a receiver. -/
  | before {first rest : List Token} {definitions : List Definition}
      (derived : Program.Derived first ⟨definitions⟩)
      (headless : ¬ [.identifier, .define, .identifier] <+: rest.map Token.kind) :
      Program.Reached (first ++ rest) definitions none
  /-- A name, its receiver and calls follow, and then the tokens do not go on. -/
  | within {first used rest : List Token} {target define receiver : Token}
      {definitions : List Definition} {calls : List Call}
      (derived : Program.Derived first ⟨definitions⟩) (targeted : target.kind = .identifier)
      (defined : define.kind = .define) (received : receiver.kind = .identifier)
      (called : Call.ListDerived used calls) (stuck : Call.Stuck calls.isEmpty rest) :
      Program.Reached (first ++ target :: define :: receiver :: (used ++ rest)) definitions
        (some ⟨target.literal, receiver.literal, calls⟩)

/-- One more definition may come before the others. -/
theorem Program.Reached.cons {first rest : List Token} {definition : Definition}
    {definitions : List Definition} {unfinished : Option Definition}
    (derived : Definition.Derived first definition)
    (reached : Program.Reached rest definitions unfinished) :
    Program.Reached (first ++ rest) (definition :: definitions) unfinished := by
  cases reached with
  | before others headless =>
    rw [← List.append_assoc]
    exact .before (.cons derived others) headless
  | within others targeted defined received called stuck =>
    rw [← List.append_assoc]
    exact .within (.cons derived others) targeted defined received called stuck

/-- Lexemes divide as their tokens do. -/
theorem Lexeme.exists_parts {lexemes : List Lexeme} {first used rest : List Token}
    {target define receiver : Token}
    (taken : lexemes.map token = first ++ target :: define :: receiver :: (used ++ rest)) :
    ∃ before name assign object chain behind,
      lexemes = before ++ name :: assign :: object :: (chain ++ behind) ∧
        before.map token = first ∧ name.token = target ∧ assign.token = define ∧
        object.token = receiver ∧ chain.map token = used ∧ behind.map token = rest := by
  obtain ⟨before, afterFirst, rfl, sameFirst, taken⟩ := List.map_eq_append_iff.1 taken
  obtain ⟨name, afterName, rfl, sameName, taken⟩ := List.map_eq_cons_iff.1 taken
  obtain ⟨assign, afterAssign, rfl, sameAssign, taken⟩ := List.map_eq_cons_iff.1 taken
  obtain ⟨object, afterObject, rfl, sameObject, taken⟩ := List.map_eq_cons_iff.1 taken
  obtain ⟨chain, behind, rfl, sameChain, sameBehind⟩ := List.map_eq_append_iff.1 taken
  exact ⟨before, name, assign, object, chain, behind, rfl, sameFirst, sameName, sameAssign,
    sameObject, sameChain, sameBehind⟩

/-- The definition that an input breaks off in, if it comes as far as its receiver. -/
def Remainder.unfinished? : Remainder → Option Definition
  | .finished | .broken _ _ => none
  | .begun target receiver calls _ => some ⟨target, receiver, calls⟩

namespace Parser

variable {parser after : Parser}

/-- A phrase that can be read leaves the parser at what stands behind it. -/
theorem settle_eq_ok_iff_ahead {α : Type} {outcome : Grammar.Outcome α} {value : α} :
    settle outcome parser = (.ok value, after) ↔
      outcome = (.ok value, after.ahead) ∧ { parser with ahead := after.ahead } = after := by
  rw [settle_eq_ok_iff]
  constructor
  · rintro ⟨rest, read, rfl⟩
    exact ⟨read, rfl⟩
  · rintro ⟨read, same⟩
    exact ⟨after.ahead, read, same⟩

theorem target_eq_some_iff {name : String} :
    parser.target = (.ok (some name), after) ↔
      (∃ first define, parser.ahead = first :: define :: after.ahead ∧
        first.kind = .identifier ∧ define.kind = .define ∧ first.literal = name) ∧
        { parser with ahead := after.ahead } = after := by
  rw [target, settleOptional_eq_some_iff, settle_eq_ok_iff_ahead, Grammar.target_eq_some_iff]

theorem receiver_eq_ok_iff {name : String} :
    parser.receiver = (.ok name, after) ↔
      (∃ lexeme, parser.ahead = lexeme :: after.ahead ∧ lexeme.kind = .identifier ∧
        lexeme.literal = name) ∧ { parser with ahead := after.ahead } = after := by
  rw [receiver, settle_eq_ok_iff_ahead, Grammar.receiver, Grammar.expect_eq_ok_iff]

theorem call_eq_some_iff {first : Bool} {call : Call} :
    parser.call first = (.ok (some call), after) ↔
      (∃ used, parser.ahead = used ++ after.ahead ∧
        Call.Derived (used.map Lexeme.token) call) ∧
        { parser with ahead := after.ahead } = after := by
  rw [Parser.call, settle_eq_ok_iff_ahead, Grammar.call_eq_some_iff]

theorem call_eq_none_iff {first : Bool} :
    parser.call first = (.ok none, after) ↔
      (first = false ∧ ∃ semicolon, parser.ahead = semicolon :: after.ahead ∧
        semicolon.kind = .semicolon) ∧ { parser with ahead := after.ahead } = after := by
  rw [Parser.call, settle_eq_ok_iff_ahead, Grammar.call_eq_none_iff]

theorem definition_eq_some_iff {definition : Definition} :
    parser.definition = (.ok (some definition), after) ↔
      (∃ used, parser.ahead = used ++ after.ahead ∧
        Definition.Derived (used.map Lexeme.token) definition) ∧
        { parser with ahead := after.ahead } = after := by
  rw [Parser.definition, settleOptional_eq_some_iff, settle_eq_ok_iff_ahead,
    Grammar.definition_eq_some_iff]

/-- A chain does not go on exactly where the parser fails to read how it does. -/
theorem stuck_iff {first : Bool} :
    Call.Stuck first (parser.ahead.map Lexeme.token) ↔
      ∃ error after, parser.call first = (.error error, after) := by
  constructor
  · rintro ⟨uncalled, unended⟩
    rcases read : parser.call first with ⟨error | _ | call, after⟩
    · exact ⟨error, after, rfl⟩
    · obtain ⟨⟨later, semicolon, split, ended⟩, -⟩ := call_eq_none_iff.1 read
      exact absurd ended (unended later semicolon.token (by simp [split]))
    · obtain ⟨⟨used, split, derived⟩, -⟩ := call_eq_some_iff.1 read
      exact absurd derived (uncalled _ call (by simp [split]))
  · rintro ⟨error, after, failed⟩
    constructor
    · rintro tokens call ⟨later, split⟩ derived
      obtain ⟨used, rest, splitAhead, rfl, -⟩ := List.map_eq_append_iff.1 split.symm
      have read : parser.call first = (.ok (some call), { parser with ahead := rest }) :=
        call_eq_some_iff.2 ⟨⟨used, splitAhead, derived⟩, rfl⟩
      rw [failed] at read
      cases read
    · intro later token leading ended
      obtain ⟨rest, split⟩ := List.head?_eq_some_iff.1 leading
      obtain ⟨semicolon, left, splitAhead, rfl, -⟩ := List.map_eq_cons_iff.1 split
      have read : parser.call first = (.ok none, { parser with ahead := left }) :=
        call_eq_none_iff.2 ⟨⟨later, semicolon, splitAhead, ended⟩, rfl⟩
      rw [failed] at read
      cases read

/-- Calls that break off can be derived, and behind them the input does not go on. -/
theorem derived_of_calls_broken {first : Bool} {calls : List Call} {error : Error}
    (broken : parser.calls first = (calls, some error, after)) :
    ∃ used rest, parser.ahead = used ++ rest ∧ Call.ListDerived (used.map Lexeme.token) calls ∧
      Call.Stuck (first && calls.isEmpty) (rest.map Lexeme.token) := by
  fun_induction Parser.calls first parser generalizing calls with
  | case1 first parser failure rest failed =>
    cases broken
    refine ⟨[], parser.ahead, rfl, .nil, ?_⟩
    rw [List.isEmpty_nil, Bool.and_true]
    exact stuck_iff.2 ⟨error, after, failed⟩
  | case2 first parser rest ended => cases broken
  | case3 first parser call rest read others failure last found hypothesis =>
    cases broken
    obtain ⟨⟨one, split, derived⟩, -⟩ := call_eq_some_iff.1 read
    obtain ⟨used, left, splitLater, listed, stuck⟩ := hypothesis found
    refine ⟨one ++ used, left, by rw [split, splitLater, List.append_assoc], ?_, ?_⟩
    · rw [List.map_append]
      exact .cons derived listed
    · simpa using stuck

/-- Calls that can be derived are read before those that come behind them. -/
theorem calls_of_derived {first : Bool} {used rest : List Lexeme} {calls : List Call}
    (split : parser.ahead = used ++ rest)
    (derived : Call.ListDerived (used.map Lexeme.token) calls) :
    let later := Parser.calls (first && calls.isEmpty) { parser with ahead := rest }
    parser.calls first = (calls ++ later.1, later.2) := by
  generalize taken : used.map Lexeme.token = tokens at derived
  induction derived generalizing parser first used with
  | nil =>
    obtain rfl := List.map_eq_nil_iff.1 taken
    obtain rfl : parser.ahead = rest := split
    rw [List.isEmpty_nil, Bool.and_true]
    rfl
  | cons derived others hypothesis =>
    obtain ⟨one, used, rfl, rfl, takenLater⟩ := List.map_eq_append_iff.1 taken
    have read : parser.call first =
        (.ok (some _), { parser with ahead := used ++ rest }) :=
      call_eq_some_iff.2 ⟨⟨one, by rw [split, List.append_assoc], derived⟩, rfl⟩
    have later : Parser.calls false { parser with ahead := used ++ rest } = _ :=
      hypothesis rfl takenLater
    rw [calls_eq first parser, read, List.isEmpty_cons, Bool.and_false]
    simp only [later, Bool.false_and, List.cons_append]

/-- Calls behind which the input does not go on are the calls that the parser reads. -/
theorem calls_broken_of_derived {first : Bool} {used rest : List Lexeme} {calls : List Call}
    (split : parser.ahead = used ++ rest)
    (derived : Call.ListDerived (used.map Lexeme.token) calls)
    (stuck : Call.Stuck (first && calls.isEmpty) (rest.map Lexeme.token)) :
    ∃ error after, parser.calls first = (calls, some error, after) := by
  have failed : ∃ error after,
      Parser.call (first && calls.isEmpty) { parser with ahead := rest } = (.error error, after) :=
    stuck_iff.1 stuck
  obtain ⟨error, after, failed⟩ := failed
  refine ⟨error, after, ?_⟩
  rw [calls_of_derived split derived, calls_eq, failed, List.append_nil]

/-- An input starts with a name, `:=` and a receiver exactly if the parser reads them. -/
theorem headed_iff :
    [.identifier, .define, .identifier] <+: (parser.ahead.map Lexeme.token).map Token.kind ↔
      ∃ target named receiver received,
        parser.target = (.ok (some target), named) ∧
          named.receiver = (.ok receiver, received) := by
  constructor
  · rintro ⟨later, split⟩
    rw [List.map_map] at split
    obtain ⟨first, rest, splitFirst, firstKind, split⟩ := List.map_eq_cons_iff.1 split.symm
    obtain ⟨second, rest, rfl, secondKind, split⟩ := List.map_eq_cons_iff.1 split
    obtain ⟨third, rest, rfl, thirdKind, -⟩ := List.map_eq_cons_iff.1 split
    exact ⟨first.literal, { parser with ahead := third :: rest }, third.literal,
      { parser with ahead := rest },
      target_eq_some_iff.2 ⟨⟨first, second, splitFirst, firstKind, secondKind, rfl⟩, rfl⟩,
      receiver_eq_ok_iff.2 ⟨⟨third, rfl, thirdKind, rfl⟩, rfl⟩⟩
  · rintro ⟨target, named, receiver, received, read, readReceiver⟩
    obtain ⟨⟨first, second, split, firstKind, secondKind, -⟩, -⟩ := target_eq_some_iff.1 read
    obtain ⟨⟨third, splitThird, thirdKind, -⟩, -⟩ := receiver_eq_ok_iff.1 readReceiver
    rw [split, splitThird]
    simp [firstKind, secondKind, thirdKind]

/-- A definition that can be read is the first of the outline. -/
theorem outline_of_definition {definition : Definition}
    (read : parser.definition = (.ok (some definition), after)) :
    parser.outline = ⟨definition :: after.outline.definitions, after.outline.remainder⟩ := by
  rw [definition_eq] at read
  rw [outline_eq]
  split at read
  · cases read
  · cases read
  next target named readTarget =>
    split at read
    · cases read
    next receiver received readReceiver =>
      split at read
      next calls last readCalls =>
        cases read
        rw [readCalls]
      · cases read

/-- Nothing may be absent from an input that a fault cuts short. -/
theorem target_ne_none_of_fault {fault : Fault} (broken : parser.fault = some fault) :
    parser.target ≠ (.ok none, after) := by
  rw [target, settleOptional]
  rcases Grammar.target parser.ahead with ⟨mismatch | _ | name, rest⟩ <;>
    simp [settle, broken]

/-- An input that a fault cuts short ends in an error. -/
theorem error_of_fault {fault : Fault} (broken : parser.fault = some fault) :
    ∃ error, parser.outline.remainder.error? = some error := by
  fun_induction outline parser with
  | case1 parser error after named => exact ⟨error, rfl⟩
  | case2 parser after named => exact absurd named (target_ne_none_of_fault broken)
  | case3 parser target after named error rest received => exact ⟨error, rfl⟩
  | case4 parser target after named receiver rest received calls error last called =>
    exact ⟨error, rfl⟩
  | case5 parser target after named receiver rest received calls last called later hypothesis =>
    have read := definition_of_parts named received called
    apply hypothesis
    rw [← (definition_eq_some_iff.1 read).2]
    exact broken

/-- Definitions that can be derived come first in the outline. -/
theorem outline_of_derived {first rest : List Lexeme} {definitions : List Definition}
    (split : parser.ahead = first ++ rest)
    (derived : Program.Derived (first.map Lexeme.token) ⟨definitions⟩) :
    let later := { parser with ahead := rest }.outline
    parser.outline = ⟨definitions ++ later.definitions, later.remainder⟩ := by
  generalize taken : first.map Lexeme.token = tokens at derived
  generalize bound : Program.mk definitions = program at derived
  induction derived generalizing parser first definitions with
  | nil =>
    obtain rfl := List.map_eq_nil_iff.1 taken
    cases bound
    obtain rfl : parser.ahead = rest := split
    rfl
  | cons derived others hypothesis =>
    obtain ⟨one, left, rfl, rfl, takenLater⟩ := List.map_eq_append_iff.1 taken
    cases bound
    have read : parser.definition = (.ok (some _), { parser with ahead := left ++ rest }) :=
      definition_eq_some_iff.2 ⟨⟨one, by rw [split, List.append_assoc], derived⟩, rfl⟩
    have later : Parser.outline { parser with ahead := left ++ rest } = _ :=
      hypothesis rfl takenLater rfl
    rw [outline_of_definition read, later]
    rfl

/-- Where a definition comes as far as its receiver, its calls decide how the outline begins. -/
theorem outline_of_headed {target define receiver : Lexeme} {rest : List Lexeme}
    (split : parser.ahead = target :: define :: receiver :: rest)
    (targeted : target.kind = .identifier) (defined : define.kind = .define)
    (received : receiver.kind = .identifier) :
    parser.outline =
      match Parser.calls true { parser with ahead := rest } with
      | (calls, some error, _) => ⟨[], .begun target.literal receiver.literal calls error⟩
      | (calls, none, after) =>
        ⟨⟨target.literal, receiver.literal, calls⟩ :: after.outline.definitions,
          after.outline.remainder⟩ := by
  have read : parser.target =
      (.ok (some target.literal), { parser with ahead := receiver :: rest }) :=
    target_eq_some_iff.2 ⟨⟨target, define, split, targeted, defined, rfl⟩, rfl⟩
  have readReceiver : Parser.receiver { parser with ahead := receiver :: rest } =
      (.ok receiver.literal, { parser with ahead := rest }) :=
    receiver_eq_ok_iff.2 ⟨⟨receiver, rfl, received, rfl⟩, rfl⟩
  rcases called : Parser.calls true { parser with ahead := rest } with ⟨calls, _ | error, after⟩ <;>
  · rw [outline_eq, read]
    simp only [readReceiver, called]

/-- The outline of an input says how far the input goes towards a program. -/
theorem reached_outline (parser : Parser) :
    Program.Reached (parser.ahead.map Lexeme.token) parser.outline.definitions
      parser.outline.remainder.unfinished? := by
  fun_induction outline parser with
  | case1 parser error after named =>
    refine .before .nil fun headed => ?_
    obtain ⟨target, named', receiver, received, read, -⟩ := headed_iff.1 headed
    rw [named] at read
    cases read
  | case2 parser after named =>
    refine .before .nil fun headed => ?_
    obtain ⟨target, named', receiver, received, read, -⟩ := headed_iff.1 headed
    rw [named] at read
    cases read
  | case3 parser target after named error rest received =>
    refine .before .nil fun headed => ?_
    obtain ⟨target', named', receiver, received', read, readReceiver⟩ := headed_iff.1 headed
    rw [named] at read
    cases read
    rw [received] at readReceiver
    cases readReceiver
  | case4 parser target after named receiver rest received calls error last called =>
    obtain ⟨⟨first, second, split, firstKind, secondKind, rfl⟩, -⟩ := target_eq_some_iff.1 named
    obtain ⟨⟨third, splitThird, thirdKind, rfl⟩, -⟩ := receiver_eq_ok_iff.1 received
    obtain ⟨used, left, splitCalls, derived, stuck⟩ := derived_of_calls_broken called
    rw [split, splitThird, splitCalls]
    simp only [List.map_cons, List.map_append]
    exact .within .nil firstKind secondKind thirdKind derived stuck
  | case5 parser target after named receiver rest received calls last called later hypothesis =>
    have read := definition_of_parts named received called
    obtain ⟨⟨used, split, derived⟩, -⟩ := definition_eq_some_iff.1 read
    rw [split, List.map_append]
    exact .cons derived hypothesis

/-- How far an input goes towards a program is what its outline says. -/
theorem outline_of_reached {definitions : List Definition} {unfinished : Option Definition}
    (reached : Program.Reached (parser.ahead.map Lexeme.token) definitions unfinished) :
    parser.outline.definitions = definitions ∧
      parser.outline.remainder.unfinished? = unfinished := by
  generalize taken : parser.ahead.map Lexeme.token = tokens at reached
  cases reached with
  | before derived headless =>
    obtain ⟨first, rest, split, rfl, rfl⟩ := List.map_eq_append_iff.1 taken
    rw [outline_of_derived split derived]
    dsimp only
    rw [outline_eq]
    split
    · exact ⟨List.append_nil _, rfl⟩
    · exact ⟨List.append_nil _, rfl⟩
    next target named read =>
      split
      · exact ⟨List.append_nil _, rfl⟩
      next receiver received readReceiver =>
        exact absurd (headed_iff.2 ⟨target, named, receiver, received, read, readReceiver⟩)
          headless
  | within derived targeted defined received called stuck =>
    obtain ⟨first, target, define, receiver, used, rest, split, rfl, rfl, rfl, rfl, rfl, rfl⟩ :=
      Lexeme.exists_parts taken
    have broken : ∃ error after,
        Parser.calls true { parser with ahead := used ++ rest } = (_, some error, after) :=
      calls_broken_of_derived rfl called stuck
    obtain ⟨error, after, read⟩ := broken
    rw [outline_of_derived split derived]
    dsimp only
    rw [outline_of_headed rfl targeted defined received, read]
    exact ⟨List.append_nil _, rfl⟩

/-- An outline without definitions has the target that can be read first. -/
theorem target?_outline_of_nil (empty : parser.outline.definitions = []) (name : String) :
    parser.outline.remainder.target? = some name ↔
      ∃ after, parser.target = (.ok (some name), after) := by
  revert empty
  rw [outline_eq]
  rcases parser.target with ⟨error | _ | target, named⟩
  · simp [Remainder.target?]
  · simp [Remainder.target?]
  · dsimp only
    rcases named.receiver with ⟨error | receiver, last⟩
    · simp [Remainder.target?]
    · dsimp only
      rcases last.calls true with ⟨calls, _ | error, after⟩ <;> simp [Remainder.target?]

/-- Behind its definitions an input has a target exactly if it goes on with a name and `:=`. -/
theorem target?_outline_iff {first rest : List Token}
    (split : parser.ahead.map Lexeme.token = first ++ rest)
    (derived : Program.Derived first ⟨parser.outline.definitions⟩) (name : String) :
    parser.outline.remainder.target? = some name ↔
      ∃ target define later, rest = target :: define :: later ∧ target.kind = .identifier ∧
        define.kind = .define ∧ target.literal = name := by
  obtain ⟨used, left, splitAhead, rfl, rfl⟩ := List.map_eq_append_iff.1 split
  have whole := outline_of_derived splitAhead derived
  have empty : Outline.definitions (outline { parser with ahead := left }) = [] :=
    List.self_eq_append_right.1 (congrArg Outline.definitions whole)
  rw [congrArg Outline.remainder whole, target?_outline_of_nil empty]
  constructor
  · rintro ⟨after, read⟩
    obtain ⟨⟨target, define, rfl, targeted, defined, named⟩, -⟩ := target_eq_some_iff.1 read
    exact ⟨target.token, define.token, _, rfl, targeted, defined, named⟩
  · rintro ⟨target, define, later, leftTokens, targeted, defined, named⟩
    obtain ⟨one, front, rfl, rfl, more⟩ := List.map_eq_cons_iff.1 leftTokens
    obtain ⟨two, behind, rfl, rfl, -⟩ := List.map_eq_cons_iff.1 more
    exact ⟨{ parser with ahead := behind },
      target_eq_some_iff.2 ⟨⟨one, two, rfl, targeted, defined, named⟩, rfl⟩⟩

end Parser

/-- Tokens hold what an outline says: its definitions, and a name with `:=` if there is one. -/
structure Outline.Reads (outline : Outline) (tokens : List Token) : Prop where
  reached : Program.Reached tokens outline.definitions outline.remainder.unfinished?
  targeted : ∃ first rest, tokens = first ++ rest ∧
    Program.Derived first ⟨outline.definitions⟩ ∧
    ∀ name, outline.remainder.target? = some name ↔
      ∃ target define later, rest = target :: define :: later ∧ target.kind = .identifier ∧
        define.kind = .define ∧ target.literal = name

theorem Parser.outline_reads (parser : Parser) :
    parser.outline.Reads (parser.ahead.map Lexeme.token) := by
  have reached := parser.reached_outline
  refine ⟨reached, ?_⟩
  generalize taken : parser.ahead.map Lexeme.token = tokens at reached
  generalize broken : parser.outline.remainder.unfinished? = unfinished at reached
  generalize outlined : parser.outline.definitions = definitions at reached
  cases reached with
  | before derived headless =>
    subst outlined
    exact ⟨_, _, rfl, derived, target?_outline_iff taken derived⟩
  | within derived targeted defined received called stuck =>
    subst outlined
    exact ⟨_, _, rfl, derived, target?_outline_iff taken derived⟩

end Fluent
