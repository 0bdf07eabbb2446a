/-
This file holds which lexeme completes what an object is asked for.
-/

import Fluent.Proofs.Parser.Interruption
import Fluent.Proofs.Source.Truncation
import Fluent.Proofs.Strategy.Calls
import Mathlib.Data.List.Forall2

namespace Fluent

section

variable {tokens : List Token}

theorem Argument.Derived.isClosing_kind {token : Token} {argument : Argument}
    (derived : Argument.Derived token argument) : token.kind.isClosing = false := by
  obtain ⟨kind⟩ := derived
  simp only [List.mem_cons, List.not_mem_nil, or_false] at kind
  rcases kind with same | same | same | same | same | same <;> rw [same] <;> rfl

theorem Argument.SomeDerived.isClosing_kind {arguments : List Argument}
    (derived : Argument.SomeDerived tokens arguments) :
    ∀ token ∈ tokens, token.kind.isClosing = false := by
  induction derived with
  | one derived => simpa using derived.isClosing_kind
  | more derived separated others hypothesis =>
    rw [List.forall_mem_cons, List.forall_mem_cons, separated]
    exact ⟨derived.isClosing_kind, rfl, hypothesis⟩

/-- A call closes with its last token and not before. -/
theorem Call.Derived.exists_closing {call : Call} (derived : Call.Derived tokens call) :
    ∃ inner closing, tokens = inner ++ [closing] ∧ closing.kind.isClosing ∧
      ∀ token ∈ inner, token.kind.isClosing = false := by
  obtain @⟨dot, name, opening, closing, listed, arguments, dotted, named, opened, derived,
    closed⟩ := derived
  refine ⟨dot :: name :: opening :: listed, closing, rfl, by rw [closed]; rfl, ?_⟩
  rw [List.forall_mem_cons, List.forall_mem_cons, List.forall_mem_cons, dotted, named, opened]
  refine ⟨rfl, rfl, rfl, ?_⟩
  cases derived with
  | none => nofun
  | some derived => exact derived.isClosing_kind

/-- Tokens that stop still do so with more behind them, if a closing one is among them. -/
theorem Call.Stuck.append {first : Bool} (stuck : Call.Stuck first tokens) {token : Token}
    (present : token ∈ tokens) (closing : token.kind.isClosing) (more : List Token) :
    Call.Stuck first (tokens ++ more) := by
  constructor
  · intro used call prefixed derived
    apply stuck.uncalled used call _ derived
    rcases List.prefix_or_prefix_of_prefix prefixed (List.prefix_append tokens more) with
      within | beyond
    · exact within
    · obtain ⟨inner, last, rfl, -, plain⟩ := derived.exists_closing
      rcases List.prefix_concat_iff.1 beyond with same | short
      · exact same ▸ List.prefix_refl _
      · exact absurd closing (by rw [plain token (short.subset present)]; exact Bool.false_ne_true)
  · intro later head leading
    apply stuck.unended later head
    rwa [List.head?_append_of_ne_nil _ (List.ne_nil_of_mem present)] at leading

end

/-- A lexeme completes a call, or the definition whose outcome is marshalled. -/
inductive Lexeme.Completes (lexemes : List Lexeme) : Option Call → Lexeme → Prop
  | call {before used after : List Lexeme} {closing : Lexeme} {call : Call}
      (split : lexemes = before ++ (used ++ [closing]) ++ after)
      (derived : Call.Derived ((used ++ [closing]).map Lexeme.token) call) :
      Lexeme.Completes lexemes (some call) closing
  | definition {before used after : List Lexeme} {semicolon : Lexeme} {definition : Definition}
      (split : lexemes = before ++ (used ++ [semicolon]) ++ after)
      (derived : Definition.Derived ((used ++ [semicolon]).map Lexeme.token) definition) :
      Lexeme.Completes lexemes none semicolon

section

variable {lexemes before used after : List Lexeme}

theorem filter_isClosing_of_plain (plain : ∀ lexeme ∈ used, lexeme.kind.isClosing = false) :
    used.filter Lexeme.isClosing = [] :=
  List.filter_eq_nil_iff.2 fun lexeme present => by
    rw [Lexeme.isClosing, plain lexeme present]
    exact Bool.false_ne_true

theorem Call.Derived.completes {call : Call} (split : lexemes = before ++ used ++ after)
    (derived : Call.Derived (used.map Lexeme.token) call) :
    List.Forall₂ (Lexeme.Completes lexemes) [some call] (used.filter Lexeme.isClosing) := by
  obtain ⟨inner, closing, taken, closed, plain⟩ := derived.exists_closing
  obtain ⟨used, last, rfl, rfl, sameLast⟩ := List.map_eq_append_iff.1 taken
  obtain ⟨closing, rfl, rfl⟩ := List.map_eq_singleton_iff.1 sameLast
  have closes : closing.isClosing = true := closed
  rw [List.filter_append, filter_isClosing_of_plain (List.forall_mem_map.1 plain),
    List.nil_append, List.filter_cons_of_pos closes]
  exact .cons (.call split derived) .nil

theorem Call.ListDerived.completes {calls : List Call} (split : lexemes = before ++ used ++ after)
    (derived : Call.ListDerived (used.map Lexeme.token) calls) :
    List.Forall₂ (Lexeme.Completes lexemes) (calls.map some) (used.filter Lexeme.isClosing) := by
  generalize taken : used.map Lexeme.token = tokens at derived
  induction derived generalizing before used with
  | nil =>
    obtain rfl := List.map_eq_nil_iff.1 taken
    exact .nil
  | cons derived others hypothesis =>
    obtain ⟨one, rest, rfl, rfl, takenRest⟩ := List.map_eq_append_iff.1 taken
    have splitFirst : lexemes = before ++ one ++ (rest ++ after) := by simp [split]
    have splitRest : lexemes = (before ++ one) ++ rest ++ after := by simp [split]
    rw [List.filter_append]
    exact List.rel_append (derived.completes splitFirst) (hypothesis splitRest takenRest)

/-- The target, the `:=` and the receiver of a definition are no closing lexemes. -/
theorem filter_isClosing_head {target define receiver : Lexeme}
    (targeted : target.kind = .identifier) (defined : define.kind = .define)
    (received : receiver.kind = .identifier) (rest : List Lexeme) :
    (target :: define :: receiver :: rest).filter Lexeme.isClosing =
      rest.filter Lexeme.isClosing := by
  simp [Lexeme.isClosing, targeted, defined, received, Kind.isClosing]

theorem Definition.Derived.completes {definition : Definition}
    (split : lexemes = before ++ used ++ after)
    (derived : Definition.Derived (used.map Lexeme.token) definition) :
    List.Forall₂ (Lexeme.Completes lexemes) definition.asks (used.filter Lexeme.isClosing) := by
  have whole := derived
  generalize taken : used.map Lexeme.token = tokens at derived
  obtain @⟨_, _, _, _, _, _, targeted, defined, received, listed, called, ended⟩ := derived
  rw [← List.nil_append (_ :: _)] at taken
  obtain ⟨none, target, define, receiver, chain, last, rfl, sameNone, rfl, rfl, rfl, rfl,
    sameLast⟩ := Lexeme.exists_parts taken
  obtain rfl := List.map_eq_nil_iff.1 sameNone
  obtain ⟨semicolon, rfl, rfl⟩ := List.map_eq_singleton_iff.1 sameLast
  have splitChain : lexemes = (before ++ [target, define, receiver]) ++ chain ++
      ([semicolon] ++ after) := by simp [split]
  have closes : semicolon.isClosing = true := by
    rw [Lexeme.isClosing, ← Lexeme.kind_token, ended]
    rfl
  rw [List.nil_append, filter_isClosing_head targeted defined received, List.filter_append,
    List.filter_cons_of_pos closes]
  have completed : Lexeme.Completes lexemes none semicolon :=
    @Lexeme.Completes.definition lexemes before (target :: define :: receiver :: chain) after
      semicolon _ split whole
  exact List.rel_append (listed.completes splitChain) (.cons completed .nil)

theorem Program.Derived.completes {definitions : List Definition}
    (split : lexemes = before ++ used ++ after)
    (derived : Program.Derived (used.map Lexeme.token) ⟨definitions⟩) :
    List.Forall₂ (Lexeme.Completes lexemes) (definitions.flatMap Definition.asks)
      (used.filter Lexeme.isClosing) := by
  generalize taken : used.map Lexeme.token = tokens at derived
  generalize bound : Program.mk definitions = program at derived
  induction derived generalizing before used definitions with
  | nil =>
    obtain rfl := List.map_eq_nil_iff.1 taken
    cases bound
    exact .nil
  | cons derived others hypothesis =>
    obtain ⟨one, rest, rfl, rfl, takenRest⟩ := List.map_eq_append_iff.1 taken
    cases bound
    have splitFirst : lexemes = before ++ one ++ (rest ++ after) := by simp [split]
    have splitRest : lexemes = (before ++ one) ++ rest ++ after := by simp [split]
    rw [List.filter_append, List.flatMap_cons]
    exact List.rel_append (derived.completes splitFirst) (hypothesis splitRest takenRest rfl)

theorem Call.ListDerived.length_filter {calls : List Call}
    (derived : Call.ListDerived (used.map Lexeme.token) calls) :
    (used.filter Lexeme.isClosing).length = calls.length := by
  have split : used = [] ++ used ++ [] := by simp
  simpa using (derived.completes split).length_eq.symm

theorem Program.Derived.length_filter {definitions : List Definition}
    (derived : Program.Derived (used.map Lexeme.token) ⟨definitions⟩) :
    (used.filter Lexeme.isClosing).length = (definitions.flatMap Definition.asks).length := by
  have split : used = [] ++ used ++ [] := by simp
  exact (derived.completes split).length_eq.symm

/-- Where only what comes behind makes a definition begin, no lexeme before is a closing one. -/
theorem isClosing_of_headless {rest more : List Lexeme}
    (headless : ¬ [.identifier, .define, .identifier] <+: (rest.map Lexeme.token).map Token.kind)
    (headed : [.identifier, .define, .identifier] <+:
      ((rest ++ more).map Lexeme.token).map Token.kind) :
    ∀ lexeme ∈ rest, lexeme.kind.isClosing = false := by
  intro lexeme present
  rw [List.map_append, List.map_append] at headed
  rcases List.prefix_or_prefix_of_prefix headed (List.prefix_append _ _) with within | short
  · exact absurd within headless
  · have kind : lexeme.kind ∈ [Kind.identifier, .define, .identifier] := by
      apply short.subset
      rw [List.map_map]
      exact List.mem_map_of_mem present
    simp only [List.mem_cons, List.not_mem_nil, or_false] at kind
    rcases kind with same | same | same <;> rw [same] <;> rfl

end

/-- What an input asks of objects. -/
def Outline.asks (outline : Outline) : List (Option Call) :=
  Definition.asksReached outline.definitions outline.remainder.unfinished?

/-- The definition that the shorter input breaks off in goes on, and others may follow. -/
inductive Definition.Extends :
    List Definition → Option Definition → List Definition → Option Definition → Prop
  | further {definitions : List Definition} (others : List Definition)
      (unfinished : Option Definition) :
      Definition.Extends definitions none (definitions ++ others) unfinished
  | begun {definitions : List Definition} {target receiver : String} {calls : List Call}
      (more : List Call) :
      Definition.Extends definitions (some ⟨target, receiver, calls⟩) definitions
        (some ⟨target, receiver, calls ++ more⟩)
  | ended {definitions : List Definition} {target receiver : String} {calls : List Call}
      (more : List Call) (others : List Definition) (unfinished : Option Definition) :
      Definition.Extends definitions (some ⟨target, receiver, calls⟩)
        (definitions ++ ⟨target, receiver, calls ++ more⟩ :: others) unfinished

namespace Parser

variable {parser other : Parser}

/-- What an input asks for is completed by the closing lexemes that it starts with. -/
theorem exists_completes (parser : Parser) :
    ∃ used rest, parser.ahead = used ++ rest ∧
      List.Forall₂ (Lexeme.Completes parser.ahead) parser.outline.asks
        (used.filter Lexeme.isClosing) := by
  have reached := parser.reached_outline
  rw [Outline.asks, Definition.asksReached]
  generalize parser.outline.definitions = definitions at reached
  generalize parser.outline.remainder.unfinished? = unfinished at reached
  generalize taken : parser.ahead.map Lexeme.token = tokens at reached
  cases reached with
  | before derived headless =>
    obtain ⟨first, rest, split, rfl, rfl⟩ := List.map_eq_append_iff.1 taken
    have splitFirst : parser.ahead = [] ++ first ++ rest := split
    refine ⟨first, rest, split, ?_⟩
    simpa using derived.completes splitFirst
  | within derived targeted defined received called stuck =>
    obtain ⟨first, target, define, receiver, used, rest, split, rfl, rfl, rfl, rfl, rfl, rfl⟩ :=
      Lexeme.exists_parts taken
    have splitFirst : parser.ahead =
        [] ++ first ++ ([target, define, receiver] ++ used ++ rest) := by simp [split]
    have splitUsed : parser.ahead =
        (first ++ [target, define, receiver]) ++ used ++ rest := by simp [split]
    refine ⟨first ++ target :: define :: receiver :: used, rest, by simp [split], ?_⟩
    rw [List.filter_append, filter_isClosing_head targeted defined received]
    exact List.rel_append (derived.completes splitFirst) (called.completes splitUsed)

/-- An input that goes on extends what its closing lexemes have completed. -/
theorem outline_append {more : List Lexeme} (split : other.ahead = parser.ahead ++ more) :
    (other.outline.definitions = parser.outline.definitions ∧
        other.outline.remainder.unfinished? = parser.outline.remainder.unfinished?) ∨
      ((parser.ahead.filter Lexeme.isClosing).length = parser.outline.asks.length ∧
        Definition.Extends parser.outline.definitions parser.outline.remainder.unfinished?
          other.outline.definitions other.outline.remainder.unfinished?) := by
  have reached := parser.reached_outline
  rw [Outline.asks, Definition.asksReached]
  generalize parser.outline.definitions = definitions at reached
  generalize parser.outline.remainder.unfinished? = unfinished at reached
  generalize taken : parser.ahead.map Lexeme.token = tokens at reached
  cases reached with
  | before derived headless =>
    obtain ⟨first, rest, parts, rfl, rfl⟩ := List.map_eq_append_iff.1 taken
    have longer : other.ahead = first ++ (rest ++ more) := by
      rw [split, parts, List.append_assoc]
    by_cases headed : [.identifier, .define, .identifier] <+:
        ((rest ++ more).map Lexeme.token).map Token.kind
    · right
      rw [outline_of_derived longer derived]
      refine ⟨?_, .further _ _⟩
      rw [parts, List.filter_append,
        filter_isClosing_of_plain (isClosing_of_headless headless headed)]
      simp [derived.length_filter]
    · left
      apply outline_of_reached
      rw [longer, List.map_append]
      exact .before derived headed
  | within derived targeted defined received called stuck =>
    obtain ⟨first, target, define, receiver, used, rest, parts, rfl, rfl, rfl, rfl, rfl, rfl⟩ :=
      Lexeme.exists_parts taken
    have longer : other.ahead =
        first ++ target :: define :: receiver :: (used ++ (rest ++ more)) := by
      simp [split, parts]
    by_cases closing : ∃ lexeme ∈ rest, lexeme.isClosing
    · left
      obtain ⟨lexeme, present, closes⟩ := closing
      apply outline_of_reached
      rw [longer]
      simp only [List.map_append, List.map_cons]
      exact .within derived targeted defined received called
        (stuck.append (List.mem_map_of_mem present) closes _)
    · right
      have plain : ∀ lexeme ∈ rest, lexeme.kind.isClosing = false := fun lexeme present =>
        Bool.eq_false_iff.2 fun closes => closing ⟨lexeme, present, closes⟩
      constructor
      · rw [parts, List.filter_append, filter_isClosing_head targeted defined received,
          List.filter_append, filter_isClosing_of_plain plain]
        simp [derived.length_filter, called.length_filter]
      · rw [outline_of_derived longer derived]
        dsimp only
        rw [outline_of_headed rfl targeted defined received, calls_of_derived rfl called]
        rcases Parser.calls _ _ with ⟨calls, _ | error, after⟩
        · exact .ended calls _ _
        · rw [List.append_nil]
          exact .begun calls

end Parser

end Fluent
