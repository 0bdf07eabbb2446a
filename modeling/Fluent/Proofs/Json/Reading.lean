/-
This file proves that every text of the grammar is read as the tree that it spells.
-/

import Fluent.Proofs.Json.Symbols
import Fluent.Proofs.Text.Utf8

namespace Fluent.Json

theorem skipSpaces_append {before : List Char} (blank : Spaces before) (text : List Char) :
    skipSpaces (before ++ text) = skipSpaces text :=
  List.dropWhile_append_of_pos fun character present => isSpace_iff.2 (blank character present)

theorem skipSpaces_of_not_isSpace {character : Char} (solid : isSpace character = false)
    (rest : List Char) : skipSpaces (character :: rest) = character :: rest := by
  rw [skipSpaces, List.dropWhile_cons_of_neg]
  simp [solid]

theorem skipSpaces_append_cons {before : List Char} (blank : Spaces before) {mark : Char}
    (solid : isSpace mark = false) (rest : List Char) :
    skipSpaces (before ++ mark :: rest) = mark :: rest := by
  rw [skipSpaces_append blank, skipSpaces_of_not_isSpace solid]

theorem skipSpaces_skipSpaces (text : List Char) :
    skipSpaces (skipSpaces text) = skipSpaces text := by
  induction text with
  | nil => rfl
  | cons character rest hypothesis =>
    cases solid : isSpace character with
    | true =>
      have dropped : skipSpaces (character :: rest) = skipSpaces rest :=
        List.dropWhile_cons_of_pos solid
      rw [dropped, hypothesis]
    | false => rw [skipSpaces_of_not_isSpace solid, skipSpaces_of_not_isSpace solid]

/-- A spelled item is read off, whatever follows. -/
theorem Item.Spelled.readItems {item : Item} {text : List Char} (spelled : item.Spelled text)
    (rest : List Char) :
    Json.readItems (text ++ rest) = addItem item (Json.readItems rest) := by
  cases spelled with
  | plain printable unquoted unescaped =>
    simp [Json.readItems, unescaped, Nat.not_lt.2 printable]
  | @escaped character mark stands =>
    have simple : mark ≠ 'u' := by
      rintro rfl
      cases stands
    simp [Json.readItems, simple, escapeValue?_eq_some_iff.2 stands]
  | unit digits =>
    obtain ⟨first, second, third, fourth, rfl⟩ := digits.exists_eq
    simp [Json.readItems, unitValue?_eq_some_iff.2 digits]

theorem Item.AllSpelled.readItems {items : List Item} {text : List Char}
    (spelled : AllSpelled items text) (rest : List Char) :
    Json.readItems (text ++ '"' :: rest) = some (items, rest) := by
  induction spelled with
  | nil => simp [Json.readItems]
  | cons first others hypothesis =>
    rw [List.append_assoc, first.readItems, hypothesis]
    rfl

/-- What can follow digits that are all there are. -/
def EndsDigits (rest : List Char) : Prop :=
  ∀ character ∈ rest.head?, character.isDigit = false

theorem read_of_endsDigits {rest : List Char} (ends : EndsDigits rest) :
    rest.takeWhile Char.isDigit = [] ∧ rest.dropWhile Char.isDigit = rest := by
  cases rest with
  | nil => exact ⟨rfl, rfl⟩
  | cons character rest =>
    have solid : ¬ character.isDigit := by simp [ends character rfl]
    exact ⟨List.takeWhile_cons_of_neg solid, List.dropWhile_cons_of_neg solid⟩

theorem DigitsSpelled.exists_head {digits : List Nat} {text : List Char}
    (spelled : DigitsSpelled digits text) :
    ∃ first later, text = first :: later ∧ first.isDigit := by
  obtain ⟨some, all, rfl⟩ := digitsSpelled_iff.1 spelled
  obtain ⟨first, later, rfl⟩ := List.exists_cons_of_ne_nil some
  exact ⟨first, later, rfl, all first List.mem_cons_self⟩

/-- Digits are read up to what ends them. -/
theorem read_append {digits rest : List Char} (all : ∀ character ∈ digits, character.isDigit)
    (ends : EndsDigits rest) :
    Digits.read (digits ++ rest) = (digits.map Digits.digitValue, rest) := by
  obtain ⟨taken, left⟩ := read_of_endsDigits ends
  rw [Digits.read, List.takeWhile_append_of_pos all, List.dropWhile_append_of_pos all, taken, left,
    List.append_nil]

theorem DigitsSpelled.readSome {digits : List Nat} {text : List Char}
    (spelled : DigitsSpelled digits text) {rest : List Char} (ends : EndsDigits rest) :
    Digits.readSome (text ++ rest) = some (digits, rest) := by
  obtain ⟨some, all, rfl⟩ := digitsSpelled_iff.1 spelled
  obtain ⟨first, later, rfl⟩ := List.exists_cons_of_ne_nil some
  rw [Digits.readSome, read_append all ends]
  rfl

/-- What can follow a numeral that is all there is. -/
def EndsNumeral (rest : List Char) : Prop :=
  ∀ character ∈ rest.head?, character.isDigit = false ∧ character ∉ ['.', 'e', 'E']

theorem EndsNumeral.endsDigits {rest : List Char} (ends : EndsNumeral rest) : EndsDigits rest :=
  fun character first => (ends character first).1

/-- An exponent ends the digits before it and has no point. -/
theorem ExponentSpelled.ends {exponent : Option Int} {text : List Char}
    (spelled : ExponentSpelled exponent text) {rest : List Char} (ends : EndsNumeral rest) :
    EndsDigits (text ++ rest) ∧ (text ++ rest).head? ≠ some '.' := by
  cases spelled with
  | none =>
    refine ⟨ends.endsDigits, fun point => ?_⟩
    have other := (ends '.' point).2
    simp at other
  | unsigned marked spelled | plus marked spelled | minus marked spelled =>
    simp only [List.mem_cons, List.not_mem_nil, or_false] at marked
    rcases marked with rfl | rfl <;> simp [EndsDigits]

theorem ExponentSpelled.readExponent {exponent : Option Int} {text : List Char}
    (spelled : ExponentSpelled exponent text) {rest : List Char} (ends : EndsNumeral rest) :
    Digits.readExponent (text ++ rest) = some (exponent, rest) := by
  cases spelled with
  | none =>
    rw [List.nil_append]
    cases rest with
    | nil => rfl
    | cons character rest =>
      have unmarked := (ends character rfl).2
      simp only [List.mem_cons, List.not_mem_nil, or_false, not_or] at unmarked
      simp [Digits.readExponent, unmarked]
  | @unsigned mark digits text marked spelled =>
    have body := spelled.readSome ends.endsDigits
    obtain ⟨first, later, rfl, digit⟩ := spelled.exists_head
    have unsigned : first ≠ '-' ∧ first ≠ '+' := by
      constructor <;> rintro rfl <;> exact absurd digit (by decide)
    rw [List.cons_append] at body
    simp only [List.mem_cons, List.not_mem_nil, or_false] at marked
    rcases marked with rfl | rfl <;>
      simp [Digits.readExponent, Digits.readExponentBody, unsigned, body]
  | @plus mark digits text marked spelled =>
    have body := spelled.readSome ends.endsDigits
    simp only [List.mem_cons, List.not_mem_nil, or_false] at marked
    rcases marked with rfl | rfl <;> simp [Digits.readExponent, Digits.readExponentBody, body]
  | @minus mark digits text marked spelled =>
    have body := spelled.readSome ends.endsDigits
    simp only [List.mem_cons, List.not_mem_nil, or_false] at marked
    rcases marked with rfl | rfl <;> simp [Digits.readExponent, Digits.readExponentBody, body]

theorem FractionSpelled.endsDigits {digits : List Nat} {text : List Char}
    (spelled : FractionSpelled digits text) {rest : List Char} (ends : EndsDigits rest) :
    EndsDigits (text ++ rest) := by
  cases spelled with
  | none => exact ends
  | point spelled =>
    intro character first
    cases first
    decide

theorem FractionSpelled.readFraction {digits : List Nat} {text : List Char}
    (spelled : FractionSpelled digits text) {rest : List Char} (ends : EndsDigits rest)
    (pointless : rest.head? ≠ some '.') :
    Json.readFraction (text ++ rest) = some (digits, rest) := by
  cases spelled with
  | none =>
    rw [List.nil_append]
    cases rest with
    | nil => rfl
    | cons character rest =>
      have other : character ≠ '.' := by simpa using pointless
      simp [Json.readFraction, other]
  | point spelled =>
    rw [List.cons_append, Json.readFraction]
    exact spelled.readSome ends

theorem WholeSpelled.readWhole {digits : List Nat} {text : List Char}
    (spelled : WholeSpelled digits text) {rest : List Char} (ends : EndsDigits rest) :
    Json.readWhole (text ++ rest) = some (digits, rest) := by
  cases spelled with
  | zero => rfl
  | digits spelled leading =>
    have read := spelled.readSome ends
    obtain ⟨first, later, rfl, digit⟩ := spelled.exists_head
    have nonzero : first ≠ '0' := by simpa using leading
    rw [List.cons_append] at read ⊢
    simpa [Json.readWhole, nonzero] using read

theorem WholeSpelled.exists_head {digits : List Nat} {text : List Char}
    (spelled : WholeSpelled digits text) :
    ∃ first later, text = first :: later ∧ first.isDigit := by
  cases spelled with
  | zero => exact ⟨'0', [], rfl, by decide⟩
  | digits spelled leading => exact spelled.exists_head

/-- A numeral begins with its sign or a digit. -/
theorem Numeral.Spelled.exists_head {numeral : Numeral} {text : List Char}
    (spelled : numeral.Spelled text) :
    ∃ first later, text = first :: later ∧ (first = '-' ∨ first.isDigit) := by
  obtain @⟨negative, _, _, _, _, _, _, integral, fractional, scaled⟩ := spelled
  cases negative with
  | true => exact ⟨'-', _, rfl, .inl rfl⟩
  | false =>
    obtain ⟨first, later, rfl, digit⟩ := integral.exists_head
    exact ⟨first, _, rfl, .inr digit⟩

/-- A numeral is read up to what ends it. -/
theorem Numeral.Spelled.readNumeral {numeral : Numeral} {text : List Char}
    (spelled : numeral.Spelled text) {rest : List Char} (ends : EndsNumeral rest) :
    Json.readNumeral (text ++ rest) = some (numeral, rest) := by
  obtain @⟨negative, whole, fraction, exponent, first, second, third, integral, fractional,
    scaled⟩ := spelled
  obtain ⟨afterFraction, pointless⟩ := scaled.ends ends
  have afterWhole := fractional.endsDigits afterFraction
  have unsigned : readUnsigned negative (first ++ (second ++ (third ++ rest))) =
      some (⟨negative, whole, fraction, exponent⟩, rest) := by
    simp [readUnsigned, integral.readWhole afterWhole,
      fractional.readFraction afterFraction pointless, scaled.readExponent ends]
  cases negative with
  | true => simpa [Json.readNumeral] using unsigned
  | false =>
    obtain ⟨initial, later, rfl, digit⟩ := integral.exists_head
    have positive : initial ≠ '-' := by
      rintro rfl
      exact absurd digit (by decide)
    simpa [Json.readNumeral, positive] using unsigned

/-- What can follow a value. -/
def EndsValue (rest : List Char) : Prop :=
  ∀ character ∈ rest.head?, isSpace character ∨ character ∈ [',', ']', '\x7d']

theorem EndsValue.endsNumeral {rest : List Char} (ends : EndsValue rest) : EndsNumeral rest := by
  intro character first
  have closes := ends character first
  simp only [isSpace, Bool.or_eq_true, decide_eq_true_eq, List.mem_cons, List.not_mem_nil,
    or_false] at closes
  rcases closes with (((rfl | rfl) | rfl) | rfl) | rfl | rfl | rfl <;> decide

theorem EndsValue.append {after rest : List Char} (blank : Spaces after) (ends : EndsValue rest) :
    EndsValue (after ++ rest) := by
  cases after with
  | nil => exact ends
  | cons character after =>
    intro first same
    cases same
    exact .inl (isSpace_iff.2 (blank character List.mem_cons_self))

/-- A value begins with a character that is neither a blank nor a closing mark. -/
theorem Phrase.Spelled.exists_head {tree : Tree} {text : List Char}
    (spelled : Phrase.Spelled (.value tree) text) :
    ∃ first later, text = first :: later ∧ isSpace first = false ∧ first ≠ ']' := by
  cases spelled with
  | number spelled =>
    obtain ⟨first, later, rfl, starts⟩ := spelled.exists_head
    refine ⟨first, later, rfl, ?_, ?_⟩
    · rcases starts with rfl | digit
      · decide
      · refine Bool.eq_false_iff.2 fun blank => ?_
        simp only [isSpace, Bool.or_eq_true, decide_eq_true_eq] at blank
        rcases blank with ((rfl | rfl) | rfl) | rfl <;> exact absurd digit (by decide)
    · rintro rfl
      rcases starts with same | digit
      · exact absurd same (by decide)
      · exact absurd digit (by decide)
  | null => exact ⟨'n', _, rfl, by decide, by decide⟩
  | trueWord => exact ⟨'t', _, rfl, by decide, by decide⟩
  | falseWord => exact ⟨'f', _, rfl, by decide, by decide⟩
  | text spelled => exact ⟨'"', _, rfl, by decide, by decide⟩
  | emptyArray blank => exact ⟨'[', _, rfl, by decide, by decide⟩
  | array spelled => exact ⟨'[', _, rfl, by decide, by decide⟩
  | emptyObject blank => exact ⟨'\x7b', _, rfl, by decide, by decide⟩
  | object spelled => exact ⟨'\x7b', _, rfl, by decide, by decide⟩

theorem readValue_skipSpaces (fuel : Nat) (text : List Char) :
    readValue fuel (skipSpaces text) = readValue fuel text := by
  cases fuel with
  | zero => rfl
  | succ fuel => rw [readValue, readValue, skipSpaces_skipSpaces]

theorem readElements_skipSpaces (fuel : Nat) (text : List Char) :
    readElements fuel (skipSpaces text) = readElements fuel text := by
  cases fuel with
  | zero => rfl
  | succ fuel => rw [readElements, readElements, readValue_skipSpaces]

theorem readMembers_skipSpaces (fuel : Nat) (text : List Char) :
    readMembers fuel (skipSpaces text) = readMembers fuel text := by
  cases fuel with
  | zero => rfl
  | succ fuel => rw [readMembers, readMembers, skipSpaces_skipSpaces]

/-- What the reader makes of a phrase in its place, with enough fuel. -/
def Phrase.Read : Phrase → List Char → Prop
  | .value tree, text => ∀ fuel rest, 2 * text.length ≤ fuel + 1 → EndsValue rest →
    readValue (fuel + 1) (text ++ rest) = some (tree, rest)
  | .padded tree, text => ∀ fuel rest, 2 * text.length ≤ fuel + 1 → EndsValue rest →
    ∃ after, Spaces after ∧ readValue (fuel + 1) (text ++ rest) = some (tree, after ++ rest)
  | .elements trees, text => ∀ fuel rest, 2 * text.length ≤ fuel →
    readElements (fuel + 2) (text ++ ']' :: rest) = some (trees, rest)
  | .member key tree, text => ∀ fuel rest, 2 * text.length ≤ fuel →
    readMembers (fuel + 2) (text ++ '\x7d' :: rest) = some ([(key, tree)], rest) ∧
      readMembers (fuel + 2) (text ++ ',' :: rest) =
        (readMembers (fuel + 1) rest).map fun read => ((key, tree) :: read.1, read.2)
  | .members entries, text => ∀ fuel rest, 2 * text.length ≤ fuel →
    readMembers (fuel + 2) (text ++ '\x7d' :: rest) = some (entries, rest)

theorem Numeral.Spelled.readValue {numeral : Numeral} {text : List Char}
    (spelled : numeral.Spelled text) (fuel : Nat) {rest : List Char} (ends : EndsValue rest) :
    Json.readValue (fuel + 1) (text ++ rest) = some (.number numeral, rest) := by
  have read := spelled.readNumeral ends.endsNumeral
  obtain ⟨first, later, head, solid, -⟩ := (Phrase.Spelled.number spelled).exists_head
  obtain ⟨_, _, same, starts⟩ := spelled.exists_head
  obtain ⟨rfl, rfl⟩ := List.cons.inj (head.symm.trans same)
  rw [head, List.cons_append] at read ⊢
  rw [Json.readValue, skipSpaces_of_not_isSpace solid]
  split
  case h_7 => rw [read]; rfl
  all_goals
    next same =>
      obtain ⟨rfl, -⟩ := List.cons.inj same
      exact absurd starts (by decide)

/-- Elements do not begin with the bracket that would close them. -/
theorem Phrase.Spelled.exists_element {trees : List Tree} {text : List Char}
    (spelled : Phrase.Spelled (.elements trees) text) (rest : List Char) :
    ∃ first later, skipSpaces (text ++ rest) = first :: later ∧ first ≠ ']' := by
  have padded {tree : Tree} {text : List Char} (spelled : Phrase.Spelled (.padded tree) text)
      (rest : List Char) :
      ∃ first later, skipSpaces (text ++ rest) = first :: later ∧ first ≠ ']' := by
    cases spelled with
    | @padded _ before value after leading spelled trailing =>
      obtain ⟨first, later, rfl, solid, opens⟩ := spelled.exists_head
      refine ⟨first, later ++ (after ++ rest), ?_, opens⟩
      rw [List.append_assoc, List.append_assoc, List.cons_append,
        skipSpaces_append_cons leading solid]
  cases spelled with
  | lastElement spelled => exact padded spelled rest
  | element spelled others =>
    rw [List.append_assoc]
    exact padded spelled _

/-- Members begin with the quote of a key. -/
theorem Phrase.Spelled.exists_member {entries : List (List Item × Tree)} {text : List Char}
    (spelled : Phrase.Spelled (.members entries) text) (rest : List Char) :
    ∃ later, skipSpaces (text ++ rest) = '"' :: later := by
  have single {key : List Item} {tree : Tree} {text : List Char}
      (spelled : Phrase.Spelled (.member key tree) text) (rest : List Char) :
      ∃ later, skipSpaces (text ++ rest) = '"' :: later := by
    cases spelled with
    | member leading named trailing spelled =>
      rw [List.append_assoc, List.cons_append, skipSpaces_append_cons leading (by decide)]
      exact ⟨_, rfl⟩
  cases spelled with
  | lastMember spelled => exact single spelled rest
  | moreMembers spelled others =>
    rw [List.append_assoc]
    exact single spelled _

theorem readValue_array {fuel : Nat} {text rest : List Char} {trees : List Tree}
    (opened : ∃ first later, skipSpaces text = first :: later ∧ first ≠ ']')
    (read : readElements fuel text = some (trees, rest)) :
    readValue (fuel + 1) ('[' :: text) = some (.array trees, rest) := by
  obtain ⟨first, later, skipped, opens⟩ := opened
  rw [← readElements_skipSpaces, skipped] at read
  rw [readValue, skipSpaces_of_not_isSpace (by decide)]
  simp [skipped, opens, read]

theorem readValue_object {fuel : Nat} {text rest : List Char} {entries : List (List Item × Tree)}
    (opened : ∃ later, skipSpaces text = '"' :: later)
    (read : readMembers fuel text = some (entries, rest)) :
    readValue (fuel + 1) ('\x7b' :: text) = some (.object entries, rest) := by
  obtain ⟨later, skipped⟩ := opened
  rw [← readMembers_skipSpaces, skipped] at read
  rw [readValue, skipSpaces_of_not_isSpace (by decide)]
  simp [skipped, read]

/-- One more element is read before the others. -/
theorem Phrase.Read.element {tree : Tree} {trees : List Tree} {text others : List Char}
    (hypothesis : Phrase.Read (.padded tree) text)
    (hypothesisLater : Phrase.Read (.elements trees) others) :
    Phrase.Read (.elements (tree :: trees)) (text ++ ',' :: others) := by
  intro fuel rest enough
  simp only [List.length_append, List.length_cons] at enough
  obtain ⟨less, rfl⟩ : ∃ less, fuel = less + 1 := ⟨fuel - 1, by omega⟩
  obtain ⟨after, blank, read⟩ := hypothesis (less + 1) (',' :: (others ++ ']' :: rest)) (by omega)
    (by simp [EndsValue])
  have separated := skipSpaces_append_cons blank (show isSpace ',' = false by decide)
    (others ++ ']' :: rest)
  have readLater := hypothesisLater less rest (by omega)
  rw [List.append_assoc, List.cons_append, readElements, read]
  simp [separated, readLater]

/-- A member is read from its key to what ends its value. -/
theorem Phrase.Read.member {key : List Item} {tree : Tree}
    {before quoted between text : List Char} (leading : Spaces before)
    (named : Item.AllSpelled key quoted) (trailing : Spaces between)
    (hypothesis : Phrase.Read (.padded tree) text) :
    Phrase.Read (.member key tree)
      (before ++ '"' :: (quoted ++ '"' :: (between ++ ':' :: text))) := by
  intro fuel rest enough
  simp only [List.length_append, List.length_cons] at enough
  have opened (rest : List Char) := skipSpaces_append_cons leading
    (show isSpace '"' = false by decide) (quoted ++ '"' :: (between ++ ':' :: (text ++ rest)))
  have separated (rest : List Char) := skipSpaces_append_cons trailing
    (show isSpace ':' = false by decide) (text ++ rest)
  have items (rest : List Char) := named.readItems (between ++ ':' :: (text ++ rest))
  constructor
  · obtain ⟨after, blank, read⟩ := hypothesis fuel ('\x7d' :: rest) (by omega)
      (by simp [EndsValue])
    have closed := skipSpaces_append_cons blank (show isSpace '\x7d' = false by decide) rest
    simp [readMembers, opened, items, separated, read, closed]
  · obtain ⟨after, blank, read⟩ := hypothesis fuel (',' :: rest) (by omega) (by simp [EndsValue])
    have followed := skipSpaces_append_cons blank (show isSpace ',' = false by decide) rest
    rw [readMembers]
    simp [opened, items, separated, read, followed]

/-- Every phrase of the grammar is read in its place. -/
theorem Phrase.Spelled.read {phrase : Phrase} {text : List Char}
    (spelled : Phrase.Spelled phrase text) : phrase.Read text := by
  induction spelled with
  | null | trueWord | falseWord =>
    intro fuel rest enough ends
    simp [readValue, skipSpaces, isSpace]
  | number spelled =>
    intro fuel rest enough ends
    exact spelled.readValue fuel ends
  | text spelled =>
    intro fuel rest enough ends
    simp [readValue, skipSpaces, isSpace, spelled.readItems]
  | emptyArray blank =>
    intro fuel rest enough ends
    have closed := skipSpaces_append_cons blank (show isSpace ']' = false by decide) rest
    rw [List.cons_append, List.append_assoc, readValue, skipSpaces_of_not_isSpace (by decide)]
    simp [closed]
  | @array trees text spelled hypothesis =>
    intro fuel rest enough ends
    simp only [List.length_cons, List.length_append, List.length_nil] at enough
    obtain ⟨less, rfl⟩ : ∃ less, fuel = less + 2 := ⟨fuel - 2, by omega⟩
    rw [List.cons_append, List.append_assoc]
    exact readValue_array (spelled.exists_element _) (hypothesis less rest (by omega))
  | emptyObject blank =>
    intro fuel rest enough ends
    have closed := skipSpaces_append_cons blank (show isSpace '\x7d' = false by decide) rest
    rw [List.cons_append, List.append_assoc, readValue, skipSpaces_of_not_isSpace (by decide)]
    simp [closed]
  | @object entries text spelled hypothesis =>
    intro fuel rest enough ends
    simp only [List.length_cons, List.length_append, List.length_nil] at enough
    obtain ⟨less, rfl⟩ : ∃ less, fuel = less + 2 := ⟨fuel - 2, by omega⟩
    rw [List.cons_append, List.append_assoc]
    exact readValue_object (spelled.exists_member _) (hypothesis less rest (by omega))
  | @padded tree before text after leading spelled trailing hypothesis =>
    intro fuel rest enough ends
    simp only [List.length_append] at enough
    refine ⟨after, trailing, ?_⟩
    have read := hypothesis fuel (after ++ rest) (by omega) (ends.append trailing)
    rw [List.append_assoc, List.append_assoc, ← readValue_skipSpaces, skipSpaces_append leading,
      readValue_skipSpaces, read]
  | lastElement spelled hypothesis =>
    intro fuel rest enough
    obtain ⟨after, blank, read⟩ := hypothesis fuel (']' :: rest) (by omega) (by simp [EndsValue])
    have closed := skipSpaces_append_cons blank (show isSpace ']' = false by decide) rest
    simp [readElements, read, closed]
  | element spelled later hypothesis hypothesisLater => exact hypothesis.element hypothesisLater
  | member leading named trailing spelled hypothesis =>
    exact hypothesis.member leading named trailing
  | lastMember spelled hypothesis =>
    intro fuel rest enough
    exact (hypothesis fuel rest enough).1
  | @moreMembers key tree entries text others spelled later hypothesis hypothesisLater =>
    intro fuel rest enough
    simp only [List.length_append, List.length_cons] at enough
    obtain ⟨less, rfl⟩ : ∃ less, fuel = less + 1 := ⟨fuel - 1, by omega⟩
    have read := (hypothesis (less + 1) (others ++ '\x7d' :: rest) (by omega)).2
    have readLater := hypothesisLater less rest (by omega)
    rw [List.append_assoc, List.cons_append, read, readLater, Option.map_some]

/-- The reader reads every JSON text as the tree that it spells. -/
theorem Tree.read?_of_spelled {tree : Tree} {text : List Char} (spelled : tree.Spelled text) :
    Tree.read? text = some tree := by
  obtain ⟨after, blank, read⟩ := Phrase.Spelled.read spelled (2 * text.length + 1) [] (by omega)
    (by simp [EndsValue])
  rw [List.append_nil, List.append_nil] at read
  have nothing : skipSpaces after = [] := by
    have dropped := skipSpaces_append blank []
    rwa [List.append_nil] at dropped
  simp [Tree.read?, read, nothing]

/-- A text spells one tree at most. -/
theorem Tree.Spelled.unique {first second : Tree} {text : List Char}
    (spelled : first.Spelled text) (again : second.Spelled text) : first = second :=
  Option.some.inj ((Tree.read?_of_spelled spelled).symm.trans (Tree.read?_of_spelled again))

/-- Bytes that are a JSON text are one for the tree that is read off the text. -/
theorem Tree.Encoded.of_read? {other tree : Tree} {text : List Char}
    (encoded : other.Encoded (Utf8.encode text)) (read : Tree.read? text = some tree) :
    tree.Encoded (Utf8.encode text) := by
  obtain ⟨found, spelled, same⟩ := encoded
  obtain rfl := Utf8.encode_injective same
  obtain rfl : other = tree :=
    Option.some.inj ((Tree.read?_of_spelled spelled).symm.trans read)
  exact ⟨found, spelled, rfl⟩

theorem Tree.Encoded.unique {first second : Tree} {bytes : List UInt8}
    (encoded : first.Encoded bytes) (again : second.Encoded bytes) : first = second := by
  obtain ⟨text, spelled, rfl⟩ := encoded
  obtain ⟨other, spelledOther, same⟩ := again
  rw [Utf8.encode_injective same] at spelledOther
  exact spelled.unique spelledOther

end Fluent.Json
