/-
This file proves that every binding that is read has a name for its target.
-/

import Fluent.Proofs.Lexer.Names
import Fluent.Proofs.Parser.Derivation
import Fluent.Proofs.Source.ByteView
import Fluent.Proofs.Source.TextView

namespace Fluent

/-- Where a program comes from. -/
inductive Input where
  | text (content : String)
  /-- Bytes, of any kind, that arrive until they end or their reader fails. -/
  | bytes (reader : Reader)
  deriving DecidableEq, Repr

namespace Input

def parser : Input → Parser
  | .text content => .ofString content
  | .bytes reader => .ofSource (ByteSource.ofReader reader)

/-- The characters that an input delivers before it ends. -/
def characters : Input → List Char
  | .text content => content.toList
  | .bytes reader => (ByteSource.upcoming 0 reader).1

theorem tokens_ahead (input : Input) :
    input.parser.ahead.map Lexeme.token = Lexer.tokens input.characters := by
  cases input with
  | text content => exact Transcript.tokens_ofString content
  | bytes reader => exact Transcript.tokens_ofReader reader

end Input

/-- The identifiers that a parser has ahead are names. -/
def Parser.Named (parser : Parser) : Prop :=
  ∀ lexeme ∈ parser.ahead, lexeme.kind = .identifier → Lexer.isName lexeme.literal

theorem Input.named (input : Input) : input.parser.Named := by
  intro lexeme ahead identified
  have present : lexeme.token ∈ Lexer.tokens input.characters := by
    rw [← input.tokens_ahead]
    exact List.mem_map_of_mem ahead
  exact Lexer.isName_of_tokens_literal (Lexer.tokens_literal present) identified

/-- The targets of the bindings in an input, in order, whether or not their chains end. -/
def Outline.targets (outline : Outline) : List String :=
  outline.definitions.map Definition.target ++ outline.remainder.target?.toList

namespace Parser

variable {parser after : Parser}

theorem Named.of_append (named : parser.Named) (used : List Lexeme)
    (split : parser.ahead = used ++ after.ahead) : after.Named := by
  intro lexeme ahead
  apply named
  rw [split]
  exact List.mem_append_right used ahead

theorem Named.target {name : String} (named : parser.Named)
    (read : parser.target = (.ok (some name), after)) : Lexer.isName name ∧ after.Named := by
  obtain ⟨first, define, split, identified, -, rfl⟩ :=
    Grammar.target_eq_some_iff.1 (settleOptional_eq_some read)
  constructor
  · apply named first _ identified
    rw [split]
    exact List.mem_cons_self
  · exact named.of_append [first, define] split

theorem Named.receiver {name : String} (named : parser.Named)
    (read : parser.receiver = (.ok name, after)) : after.Named := by
  obtain ⟨lexeme, split, -, -⟩ := Grammar.expect_eq_ok_iff.1 (settle_eq_ok read)
  exact named.of_append [lexeme] split

theorem Named.calls {first : Bool} {calls : List Call} (named : parser.Named)
    (read : parser.calls first = (calls, none, after)) : after.Named := by
  have chained := settle_calls first parser
  rw [read] at chained
  obtain ⟨used, semicolon, split, -⟩ := Grammar.calls_eq_ok_iff.1 (settle_eq_ok chained)
  apply named.of_append (used ++ [semicolon])
  rw [split, List.append_assoc, List.singleton_append]

/-- Every binding of an input has a name for its target. -/
theorem Named.isName_of_mem_targets (named : parser.Named) :
    ∀ target ∈ parser.outline.targets, Lexer.isName target := by
  fun_induction outline parser with
  | case1 parser error after read => simp [Outline.targets, Remainder.target?]
  | case2 parser after read => simp [Outline.targets, Remainder.target?]
  | case3 parser target after read error rest received =>
    simpa [Outline.targets, Remainder.target?] using (named.target read).1
  | case4 parser target after read receiver rest received calls error last called =>
    simpa [Outline.targets, Remainder.target?] using (named.target read).1
  | case5 parser target after read receiver rest received calls last called later hypothesis =>
    obtain ⟨first, afterTarget⟩ := named.target read
    have others := hypothesis ((afterTarget.receiver received).calls called)
    rw [Outline.targets, List.map_cons, List.cons_append]
    exact List.forall_mem_cons.2 ⟨first, others⟩

end Parser

end Fluent
