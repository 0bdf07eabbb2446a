/-
This file proves that parsing takes back what printing makes of a program.
-/

import Fluent.Proofs.Lexer.Names
import Fluent.Proofs.Source.TextView

namespace Fluent

/-- Arguments whose literal is, scanned alone, one token of their kind. -/
structure Argument.WellFormed (argument : Argument) : Prop where
  kind : argument.kind ∈ [.integer, .float, .text, .trueWord, .falseWord, .blob]
  scanned : (Transcript.ofSource (TextSource.ofString argument.literal)).tokens =
    [⟨argument.kind, argument.literal⟩]

structure Call.WellFormed (call : Call) : Prop where
  name : Lexer.isName call.name
  arguments : ∀ argument ∈ call.arguments, argument.WellFormed

structure Definition.WellFormed (definition : Definition) : Prop where
  target : Lexer.isName definition.target
  receiver : Lexer.isName definition.receiver
  called : definition.calls ≠ []
  calls : ∀ call ∈ definition.calls, call.WellFormed

structure Program.WellFormed (program : Program) : Prop where
  definitions : ∀ definition ∈ program.definitions, definition.WellFormed

open Lexer (isName delimits tokens tokens_of_alone tokens_of_isBlank)

/-- A name is read as it was written before a character that is no part of it. -/
theorem Lexer.tokens_of_isName {name : String} (named : isName name) {character : Char}
    (delimited : delimits .identifier character) (rest : List Char) :
    tokens (name.toList ++ character :: rest) =
      ⟨.identifier, name⟩ :: tokens (character :: rest) := by
  have alone : tokens (Token.mk .identifier name).literal.toList = [⟨.identifier, name⟩] :=
    (isName_iff_tokens name).1 named
  refine tokens_literal_append alone ?_
  rintro next ⟨⟩
  exact delimited

theorem Lexer.tokens_of_define (rest : List Char) :
    tokens (':' :: '=' :: rest) = ⟨.define, ":="⟩ :: tokens rest := by
  have opened : first ':' = .opens .colon := by decide
  have closed : step .colon '=' = .close .define := by decide
  rw [tokens_cons, readToken_of_opens opened, readFrom_of_close closed]
  rfl

namespace Argument

variable {argument : Argument}

theorem WellFormed.derived (wellFormed : argument.WellFormed) :
    Derived ⟨argument.kind, argument.literal⟩ argument :=
  .literal wellFormed.kind

/-- What follows an argument in print ends its token. -/
theorem WellFormed.tokens_append (wellFormed : argument.WellFormed) {character : Char}
    (follows : character = ',' ∨ character = ')') (rest : List Char) :
    tokens (argument.literal.toList ++ character :: rest) =
      ⟨argument.kind, argument.literal⟩ :: tokens (character :: rest) := by
  have scanned := wellFormed.scanned
  rw [Transcript.tokens_ofString] at scanned
  have alone : tokens (Token.mk argument.kind argument.literal).literal.toList =
    [⟨argument.kind, argument.literal⟩] := scanned
  have delimited : delimits argument.kind character := by
    have among := wellFormed.kind
    simp only [List.mem_cons, List.not_mem_nil, or_false] at among
    rcases among with same | same | same | same | same | same <;>
      rw [same] <;> rcases follows with rfl | rfl <;> decide
  refine Lexer.tokens_literal_append alone ?_
  rintro next ⟨⟩
  exact delimited

/-- Printed arguments are read as a derivation of themselves. -/
theorem someDerived_of_print (first : Argument) (others : List Argument)
    (wellFormed : ∀ argument ∈ first :: others, argument.WellFormed) :
    ∃ used, SomeDerived used (first :: others) ∧ ∀ rest,
      tokens ((", ".intercalate ((first :: others).map literal)).toList ++ ')' :: rest) =
        used ++ tokens (')' :: rest) := by
  induction others generalizing first with
  | nil =>
    have one := wellFormed first (List.mem_singleton_self first)
    refine ⟨_, .one one.derived, fun rest => ?_⟩
    rw [List.map_singleton, String.intercalate_singleton, one.tokens_append (.inr rfl)]
    rfl
  | cons second others hypothesis =>
    have one := wellFormed first List.mem_cons_self
    obtain ⟨used, derived, read⟩ := hypothesis second fun argument present =>
      wellFormed argument (List.mem_cons_of_mem _ present)
    have more : SomeDerived (⟨first.kind, first.literal⟩ :: ⟨.comma, ","⟩ :: used)
      (first :: second :: others) := .more one.derived rfl derived
    refine ⟨_, more, fun rest => ?_⟩
    have separator : ", ".toList = [',', ' '] := by decide
    have comma : Lexer.first ',' = .alone .comma := by decide
    rw [List.map_cons, List.map_cons, String.intercalate_cons_cons, String.toList_append,
      String.toList_append, separator, List.append_assoc, List.append_assoc, List.cons_append,
      one.tokens_append (.inl rfl), tokens_of_alone comma (by decide),
      List.cons_append, tokens_of_isBlank (by decide), List.nil_append, ← List.map_cons, read]
    rfl

theorem listDerived_of_print (arguments : List Argument)
    (wellFormed : ∀ argument ∈ arguments, argument.WellFormed) :
    ∃ used, ListDerived used arguments ∧ ∀ rest,
      tokens ((", ".intercalate (arguments.map literal)).toList ++ ')' :: rest) =
        used ++ tokens (')' :: rest) := by
  cases arguments with
  | nil => exact ⟨[], .none, fun rest => rfl⟩
  | cons first others =>
    obtain ⟨used, derived, read⟩ := someDerived_of_print first others wellFormed
    exact ⟨used, .some derived, read⟩

end Argument

namespace Call

theorem derived_of_print {call : Call} (wellFormed : call.WellFormed) :
    ∃ used, Derived used call ∧ ∀ rest,
      tokens (("." ++ call.render).toList ++ rest) = used ++ tokens rest := by
  obtain ⟨used, derived, read⟩ := Argument.listDerived_of_print call.arguments wellFormed.arguments
  have whole : Derived (⟨.dot, "."⟩ :: ⟨.identifier, call.name⟩ :: ⟨.openParen, "("⟩ ::
      (used ++ [⟨.closeParen, ")"⟩])) call := .call rfl rfl rfl derived rfl
  refine ⟨_, whole, fun rest => ?_⟩
  have spelled : ("." ++ call.render).toList ++ rest = '.' :: (call.name.toList ++ '(' ::
      ((", ".intercalate (call.arguments.map Argument.literal)).toList ++ ')' :: rest)) := by
    simp [render]
  rw [spelled, tokens_of_alone (show Lexer.first '.' = .alone .dot by decide) (by decide),
    Lexer.tokens_of_isName wellFormed.name (by decide),
    tokens_of_alone (show Lexer.first '(' = .alone .openParen by decide) (by decide), read,
    tokens_of_alone (show Lexer.first ')' = .alone .closeParen by decide) (by decide)]
  simp

theorem listDerived_of_print (calls : List Call) (wellFormed : ∀ call ∈ calls, call.WellFormed) :
    ∃ used, ListDerived used calls ∧ ∀ rest,
      tokens ((String.join (calls.map fun call => "." ++ call.render)).toList ++ rest) =
        used ++ tokens rest := by
  induction calls with
  | nil => exact ⟨[], .nil, fun rest => rfl⟩
  | cons call calls hypothesis =>
    obtain ⟨first, derived, readFirst⟩ := derived_of_print (wellFormed call List.mem_cons_self)
    obtain ⟨used, others, readOthers⟩ := hypothesis fun call present =>
      wellFormed call (List.mem_cons_of_mem _ present)
    refine ⟨first ++ used, .cons derived others, fun rest => ?_⟩
    rw [List.map_cons, String.join_cons, String.toList_append, List.append_assoc, readFirst,
      readOthers, List.append_assoc]

end Call

namespace Definition

theorem derived_of_print {definition : Definition} (wellFormed : definition.WellFormed) :
    ∃ used, Derived used definition ∧ ∀ rest,
      tokens (definition.render.toList ++ rest) = used ++ tokens rest := by
  obtain ⟨used, derived, read⟩ := Call.listDerived_of_print definition.calls wellFormed.calls
  have whole : Derived (⟨.identifier, definition.target⟩ :: ⟨.define, ":="⟩ ::
      ⟨.identifier, definition.receiver⟩ :: (used ++ [⟨.semicolon, ";"⟩])) definition :=
    .definition rfl rfl rfl derived wellFormed.called rfl
  refine ⟨_, whole, fun rest => ?_⟩
  have spelled : definition.render.toList ++ rest =
      definition.target.toList ++ ' ' :: ':' :: '=' :: ' ' :: (definition.receiver.toList ++
        ((String.join (definition.calls.map fun call => "." ++ call.render)).toList ++
          ';' :: rest)) := by
    simp [render]
  have chained : ∃ later,
      (String.join (definition.calls.map fun call => "." ++ call.render)).toList ++
        ';' :: rest = '.' :: later := by
    obtain ⟨first, others, listed⟩ := List.exists_cons_of_ne_nil wellFormed.called
    simp [listed]
  have chain := read (';' :: rest)
  obtain ⟨later, started⟩ := chained
  rw [started] at spelled chain
  rw [spelled, Lexer.tokens_of_isName wellFormed.target (by decide),
    tokens_of_isBlank (by decide), Lexer.tokens_of_define, tokens_of_isBlank (by decide),
    Lexer.tokens_of_isName wellFormed.receiver (by decide), chain,
    tokens_of_alone (show Lexer.first ';' = .alone .semicolon by decide) (by decide)]
  simp

end Definition

namespace Program

/-- A printed program is read as a derivation of itself. -/
theorem derived_of_print (definitions : List Definition)
    (wellFormed : ∀ definition ∈ definitions, definition.WellFormed) :
    Derived (tokens (String.join (definitions.map Definition.render)).toList) ⟨definitions⟩ := by
  induction definitions with
  | nil =>
    rw [List.map_nil, String.join_nil, String.toList_empty, tokens]
    exact .nil
  | cons definition definitions hypothesis =>
    obtain ⟨first, derived, read⟩ :=
      Definition.derived_of_print (wellFormed definition List.mem_cons_self)
    have others := hypothesis fun definition present =>
      wellFormed definition (List.mem_cons_of_mem _ present)
    rw [List.map_cons, String.join_cons, String.toList_append, read]
    exact .cons derived others

theorem WellFormed.parse_render {program : Program} (wellFormed : program.WellFormed) :
    parse program.render = .ok program := by
  rw [parse_eq_ok_iff, Transcript.tokens_ofString]
  exact derived_of_print program.definitions wellFormed.definitions

end Program

section

variable {used : List Token}

theorem Argument.Derived.wellFormed {token : Token} {argument : Argument}
    (derived : Derived token argument) (alone : tokens token.literal.toList = [token]) :
    argument.WellFormed := by
  obtain ⟨kind⟩ := derived
  refine ⟨kind, ?_⟩
  rw [Transcript.tokens_ofString, alone]

theorem Argument.SomeDerived.wellFormed {arguments : List Argument}
    (derived : SomeDerived used arguments)
    (alone : ∀ token ∈ used, tokens token.literal.toList = [token]) :
    ∀ argument ∈ arguments, argument.WellFormed := by
  induction derived with
  | one derived =>
    intro argument present
    rw [List.mem_singleton.1 present]
    exact derived.wellFormed (alone _ List.mem_cons_self)
  | more derived separated others hypothesis =>
    intro argument present
    rcases List.mem_cons.1 present with rfl | later
    · exact derived.wellFormed (alone _ List.mem_cons_self)
    · exact hypothesis (fun token there =>
        alone token (List.mem_cons_of_mem _ (List.mem_cons_of_mem _ there))) argument later

theorem Argument.ListDerived.wellFormed {arguments : List Argument}
    (derived : ListDerived used arguments)
    (alone : ∀ token ∈ used, tokens token.literal.toList = [token]) :
    ∀ argument ∈ arguments, argument.WellFormed := by
  cases derived with
  | none => simp
  | some derived => exact derived.wellFormed alone

theorem Call.Derived.wellFormed {call : Call} (derived : Derived used call)
    (alone : ∀ token ∈ used, tokens token.literal.toList = [token]) : call.WellFormed := by
  obtain ⟨dotted, named, opened, listed, closed⟩ := derived
  simp only [List.forall_mem_cons, List.forall_mem_append] at alone
  obtain ⟨-, name, -, inner, -⟩ := alone
  exact ⟨Lexer.isName_of_tokens_literal name named, listed.wellFormed inner⟩

theorem Call.ListDerived.wellFormed {calls : List Call} (derived : ListDerived used calls)
    (alone : ∀ token ∈ used, tokens token.literal.toList = [token]) :
    ∀ call ∈ calls, call.WellFormed := by
  induction derived with
  | nil => simp
  | cons derived others hypothesis =>
    obtain ⟨first, rest⟩ := List.forall_mem_append.1 alone
    exact List.forall_mem_cons.2 ⟨derived.wellFormed first, hypothesis rest⟩

theorem Definition.Derived.wellFormed {definition : Definition} (derived : Derived used definition)
    (alone : ∀ token ∈ used, tokens token.literal.toList = [token]) :
    definition.WellFormed := by
  obtain ⟨targeted, defined, received, listed, called, ended⟩ := derived
  simp only [List.forall_mem_cons, List.forall_mem_append] at alone
  obtain ⟨target, -, receiver, inner, -⟩ := alone
  exact ⟨Lexer.isName_of_tokens_literal target targeted,
    Lexer.isName_of_tokens_literal receiver received, called, listed.wellFormed inner⟩

theorem Program.Derived.wellFormed {program : Program} (derived : Derived used program)
    (alone : ∀ token ∈ used, tokens token.literal.toList = [token]) : program.WellFormed := by
  induction derived with
  | nil => exact ⟨by simp⟩
  | cons derived others hypothesis =>
    obtain ⟨first, rest⟩ := List.forall_mem_append.1 alone
    exact ⟨List.forall_mem_cons.2 ⟨derived.wellFormed first, (hypothesis rest).definitions⟩⟩

end

/-- What the parser returns is made of lexemes. -/
theorem Program.wellFormed_of_parse {text : String} {program : Program}
    (parsed : parse text = .ok program) : program.WellFormed := by
  rw [parse_eq_ok_iff, Transcript.tokens_ofString] at parsed
  exact parsed.wellFormed fun token present => Lexer.tokens_literal present

/-- Parsing takes back what printing makes of a program, of those above all that were parsed. -/
theorem Program.parse_render_eq_ok :
    (∀ program : Program, program.WellFormed → parse program.render = .ok program) ∧
      ∀ (text : String) (program : Program), parse text = .ok program →
        parse program.render = .ok program :=
  ⟨fun _ wellFormed => wellFormed.parse_render,
    fun _ _ parsed => (wellFormed_of_parse parsed).parse_render⟩

theorem Program.parse_render_blob_in_chain :
    let program : Program := ⟨[⟨"a", "b", [⟨"c", [⟨.float, "1."⟩, ⟨.blob, "\x7b\"\x7d\"\x7d"⟩]⟩,
      ⟨"d", []⟩]⟩]⟩
    program.WellFormed ∧ parse program.render = .ok program := by
  intro program
  have float : Argument.WellFormed ⟨.float, "1."⟩ := by
    refine ⟨by decide, ?_⟩
    rw [Transcript.tokens_ofString, Lexer.tokens_eq_singleton_iff]
    decide
  have blob : Argument.WellFormed ⟨.blob, "\x7b\"\x7d\"\x7d"⟩ := by
    refine ⟨by decide, ?_⟩
    rw [Transcript.tokens_ofString, Lexer.tokens_eq_singleton_iff]
    decide
  have chain : ∀ call ∈ [Call.mk "c" [⟨.float, "1."⟩, ⟨.blob, "\x7b\"\x7d\"\x7d"⟩], ⟨"d", []⟩],
      call.WellFormed := by
    refine List.forall_mem_cons.2 ⟨⟨by decide, ?_⟩, ?_⟩
    · exact List.forall_mem_cons.2 ⟨float, List.forall_mem_singleton.2 blob⟩
    · exact List.forall_mem_singleton.2 ⟨by decide, List.forall_mem_nil _⟩
  have wellFormed : program.WellFormed :=
    ⟨List.forall_mem_singleton.2 ⟨by decide, by decide, by decide, chain⟩⟩
  have parsed := parse_render_eq_ok.1 program wellFormed
  exact ⟨wellFormed, parse_render_eq_ok.2 program.render program parsed⟩

end Fluent
