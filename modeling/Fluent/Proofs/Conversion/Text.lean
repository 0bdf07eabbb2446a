/-
This file proves that a text that is written as JSON is scanned and converted back.
-/

import Fluent.Conversion
import Fluent.Proofs.Json.Quoting
import Fluent.Proofs.Lexer.Blob
import Fluent.Proofs.Lexer.Quoted

namespace Fluent

open Json (Item Phrase Spaces Tree Value)

namespace Lexer

theorem exists_hexSpelled {character : Char} (digit : isHexDigit character) :
    ∃ value, Json.HexSpelled value character := by
  simp only [isHexDigit, Char.isDigit, Bool.or_eq_true, Bool.and_eq_true, decide_eq_true_eq]
    at digit
  simp only [← Json.hexValue?_eq_some_iff]
  unfold Json.hexValue?
  split_ifs with decimal lower upper
  · exact ⟨_, rfl⟩
  · exact ⟨_, rfl⟩
  · exact ⟨_, rfl⟩
  · exact absurd digit fun either => either.elim (·.elim decimal lower) upper

theorem exists_escapeSpelled {mark : Char}
    (simple : mark ∈ ['b', 'f', 'n', 'r', 't', '\\', '/', '"']) :
    ∃ character, Json.EscapeSpelled character mark := by
  simp only [← Json.escapeValue?_eq_some_iff]
  simp only [List.mem_cons, List.not_mem_nil, or_false] at simple
  rcases simple with rfl | rfl | rfl | rfl | rfl | rfl | rfl | rfl <;> exact ⟨_, rfl⟩

theorem exists_unitSpelled {first second third fourth : Char}
    (digits : ∀ digit ∈ [first, second, third, fourth], isHexDigit digit) :
    ∃ value, Json.UnitSpelled value [first, second, third, fourth] := by
  simp only [List.forall_mem_cons] at digits
  obtain ⟨first, second, third, fourth, -⟩ := digits
  obtain ⟨one, thousands⟩ := exists_hexSpelled first
  obtain ⟨two, hundreds⟩ := exists_hexSpelled second
  obtain ⟨three, tens⟩ := exists_hexSpelled third
  obtain ⟨four, ones⟩ := exists_hexSpelled fourth
  exact ⟨_, .digits thousands hundreds tens ones⟩

/-- What the scanner takes for a character between quotes is what JSON takes for one. -/
theorem isQuotedItem_iff_spelled {text : List Char} :
    IsQuotedItem text ↔ ∃ item, Item.Spelled item text := by
  constructor
  · rintro (⟨printable, unquoted, unescaped⟩ | simple | digits)
    · exact ⟨_, .plain printable unquoted unescaped⟩
    · obtain ⟨character, stands⟩ := exists_escapeSpelled simple
      exact ⟨_, .escaped stands⟩
    · obtain ⟨value, unit⟩ := exists_unitSpelled digits
      exact ⟨_, .unit unit⟩
  · rintro ⟨item, spelled⟩
    cases spelled with
    | plain printable unquoted unescaped => exact .plain ⟨printable, unquoted, unescaped⟩
    | escaped stands => exact .escape (of_decide_eq_true (isSimpleEscape_of_spelled stands))
    | unit digits =>
      obtain ⟨_, _, _, _, rfl, one, two, three, four⟩ := exists_isHexDigit_of_spelled digits
      refine .unicode ?_
      simp only [List.forall_mem_cons]
      exact ⟨one, two, three, four, List.forall_mem_nil _⟩

theorem isQuotedBody_iff_spelled {text : List Char} :
    IsQuotedBody text ↔ ∃ items, Item.AllSpelled items text := by
  constructor
  · intro body
    induction body with
    | nil => exact ⟨[], .nil⟩
    | cons spelled others hypothesis =>
      obtain ⟨item, spelled⟩ := isQuotedItem_iff_spelled.1 spelled
      obtain ⟨items, others⟩ := hypothesis
      exact ⟨item :: items, .cons spelled others⟩
  · rintro ⟨items, spelled⟩
    induction spelled with
    | nil => exact .nil
    | cons spelled others hypothesis =>
      exact .cons (isQuotedItem_iff_spelled.2 ⟨_, spelled⟩) hypothesis

/-- The quoted texts of the scanner are those of JSON. -/
theorem isQuoted_iff_spelled {text : List Char} :
    IsQuoted text ↔ ∃ items, Phrase.Spelled (.value (.text items)) text := by
  constructor
  · rintro ⟨body, rfl, plain⟩
    obtain ⟨items, spelled⟩ := isQuotedBody_iff_spelled.1 plain
    exact ⟨items, .text spelled⟩
  · rintro ⟨items, spelled⟩
    cases spelled with
    | text spelled => exact ⟨_, rfl, isQuotedBody_iff_spelled.2 ⟨items, spelled⟩⟩

end Lexer

/-- A quoted text is converted to what its items stand for. -/
theorem Argument.toText_of_spelled {items : List Item} {literal : String}
    (spelled : Phrase.Spelled (.value (.text items)) literal.toList) :
    (Argument.mk .text literal).toText =
      match Json.textOfItems items with
      | some text => .ok text
      | none => .error (.json literal) := by
  have padded := Phrase.Spelled.padded Spaces.nil spelled Spaces.nil
  rw [List.nil_append, List.append_nil] at padded
  have read : Tree.read? literal.toList = some (.text items) := Tree.read?_of_spelled padded
  rw [toText, if_neg (not_not_intro rfl), decode, read, Option.bind_some, Tree.text?]
  cases Json.textOfItems items <;> rfl

theorem Argument.toText_quote (text : String) :
    (Argument.mk .text (Json.quote text)).toText = .ok text := by
  rw [toText_of_spelled (Json.spelled_quote text), Json.textOfItems_ofCharacter]

open CharSource Viewed Lexer

/-- A text that is written as JSON is scanned as one token and converted back. -/
theorem Scanner.scan_render_text {σ : Type} [CharSource σ] [Viewed σ] {source : σ} {view : View}
    (shown : Shows source view) (text : String) {later : List Char}
    (ahead : view.ahead = (Value.text text).render.toList ++ later) (ignoreBlanks : Bool) :
    let scanned := scan ignoreBlanks source
    let argument : Argument := ⟨scanned.1, tokenText scanned.2⟩
    argument = ⟨.text, (Value.text text).render⟩ ∧
      Shows scanned.2 { view.startToken with
        token := (Value.text text).render.toList
        ahead := later } ∧
      argument.toText = .ok text := by
  intro scanned argument
  have rendered : (Value.text text).render = Json.quote text := by rw [Value.render]
  rw [rendered] at ahead ⊢
  have quoted : IsQuoted (Json.quote text).toList :=
    isQuoted_iff_spelled.2 ⟨_, Json.spelled_quote text⟩
  have read := readToken_of_isQuoted quoted later
  rw [← ahead] at read
  obtain ⟨kind, literal, after⟩ := scan_of_readToken shown read Kind.noConfusion ignoreBlanks
  rw [String.ofList_toList] at literal
  have same : argument = ⟨.text, Json.quote text⟩ := by
    show Argument.mk scanned.1 (tokenText scanned.2) = _
    rw [kind, literal]
  exact ⟨same, after, by rw [same, Argument.toText_quote]⟩

/-- A text with characters of every class in it, and another quote behind what is written. -/
theorem Scanner.scan_render_text_escaped :
    let text := "\"\\\x01\x7fé😀\n\\"
    let written := "\"\\\"\\\\\\u0001\x7fé😀\\n\\\\\""
    let source := TextSource.ofList (written.toList ++ ['"'])
    (Value.text text).render = written ∧
      Shows source (View.ofText ((Value.text text).render.toList ++ ['"'])) ∧
      (scan false source).1 = .text ∧ tokenText (scan false source).2 = written ∧
      (Argument.mk .text written).toText = .ok text := by
  intro text written source
  have rendered : (Value.text text).render = written := by decide
  have shown : Shows source (View.ofText ((Value.text text).render.toList ++ ['"'])) := by
    rw [rendered]
    exact TextSource.ofList_shows _
  obtain ⟨argument, -, converted⟩ := scan_render_text shown text rfl false
  obtain ⟨kind, literal⟩ := Argument.mk.inj argument
  rw [kind, literal, rendered] at converted
  exact ⟨rendered, shown, kind, literal.trans rendered, converted⟩

end Fluent
