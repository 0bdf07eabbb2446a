/-
This file proves that every JSON object is a blob, wherever it stands.
-/

import Fluent.Conversion
import Fluent.Proofs.Json.Reading
import Fluent.Proofs.Source.TextView

namespace Fluent

open Json (Item Phrase Tree Spaces)

namespace Lexer

/-- A text that leaves the automaton where it is. -/
def Keeps (state : State) (text : List Char) : Prop :=
  advanceAll state text = some state

theorem Keeps.append {state : State} {first second : List Char} (keeps : Keeps state first)
    (others : Keeps state second) : Keeps state (first ++ second) := by
  rw [Keeps, advanceAll_append, keeps]
  exact others

theorem Keeps.cons {state : State} {character : Char} {rest : List Char}
    (others : Keeps state rest) (moved : step state character = .advance state) :
    Keeps state (character :: rest) := by
  rw [Keeps, advanceAll_cons_of_advance moved]
  exact others

/-- The characters that mean nothing to a blob. -/
def isFiller (character : Char) : Bool :=
  character ∉ ['"', '\x7b', '\x7d']

theorem step_blob_of_isFiller {character : Char} (filler : isFiller character) (depth : Nat) :
    step (.blob depth) character = .advance (.blob depth) := by
  simp only [isFiller, List.mem_cons, List.not_mem_nil, or_false, not_or, decide_eq_true_eq]
    at filler
  simp [step, filler]

theorem keeps_blob_of_isFiller {text : List Char} (filler : ∀ character ∈ text, isFiller character)
    (depth : Nat) : Keeps (.blob depth) text := by
  induction text with
  | nil => rfl
  | cons character rest hypothesis =>
    obtain ⟨first, others⟩ := List.forall_mem_cons.1 filler
    exact (hypothesis others).cons (step_blob_of_isFiller first depth)

theorem isHexDigit_of_spelled {character : Char} {value : Nat}
    (spelled : Json.HexSpelled value character) : isHexDigit character := by
  have digit := Json.hexValue?_eq_some_iff.2 spelled
  simp only [Json.hexValue?] at digit
  simp only [isHexDigit, Char.isDigit, Bool.or_eq_true, Bool.and_eq_true, decide_eq_true_eq]
  split at digit
  next decimal => exact .inl (.inl decimal)
  next =>
    split at digit
    next lower => exact .inl (.inr lower)
    next =>
      split at digit
      next upper => exact .inr upper
      next => cases digit

theorem exists_isHexDigit_of_spelled {text : List Char} {value : Nat}
    (spelled : Json.UnitSpelled value text) :
    ∃ first second third fourth, text = [first, second, third, fourth] ∧
      isHexDigit first ∧ isHexDigit second ∧ isHexDigit third ∧ isHexDigit fourth := by
  obtain ⟨thousands, hundreds, tens, ones⟩ := spelled
  exact ⟨_, _, _, _, rfl, isHexDigit_of_spelled thousands, isHexDigit_of_spelled hundreds,
    isHexDigit_of_spelled tens, isHexDigit_of_spelled ones⟩

theorem isSimpleEscape_of_spelled {mark character : Char}
    (stands : Json.EscapeSpelled character mark) : isSimpleEscape mark := by
  cases stands <;> rfl

/-- One item of a quoted text leads back into the text. -/
theorem keeps_blobQuoted_of_item {item : Item} {text : List Char} (spelled : item.Spelled text)
    (depth : Nat) : Keeps (.blobQuoted depth .body) text := by
  cases spelled with
  | plain printable unquoted unescaped =>
    simp [Keeps, advanceAll, step, Quoted.step, unquoted, unescaped, Nat.not_lt.2 printable]
  | escaped stands =>
    simp [Keeps, advanceAll, step, Quoted.step, isSimpleEscape_of_spelled stands]
  | unit digits =>
    obtain ⟨_, _, _, _, rfl, one, two, three, four⟩ := exists_isHexDigit_of_spelled digits
    simp [Keeps, advanceAll, step, Quoted.step, one, two, three, four,
      show isSimpleEscape 'u' = false by decide]

theorem keeps_blobQuoted_of_items {items : List Item} {text : List Char}
    (spelled : Item.AllSpelled items text) (depth : Nat) :
    Keeps (.blobQuoted depth .body) text := by
  induction spelled with
  | nil => rfl
  | cons first others hypothesis => exact (keeps_blobQuoted_of_item first depth).append hypothesis

/-- A quoted text in a blob, quotes included, changes nothing. -/
theorem keeps_blob_of_quoted {items : List Item} {text rest : List Char} {depth : Nat}
    (spelled : Item.AllSpelled items text) (others : Keeps (.blob depth) rest) :
    Keeps (.blob depth) ('"' :: (text ++ '"' :: rest)) := by
  have inside := keeps_blobQuoted_of_items spelled depth
  have opened : step (.blob depth) '"' = .advance (.blobQuoted depth .body) := rfl
  have closed : step (.blobQuoted depth .body) '"' = .advance (.blob depth) := rfl
  rw [Keeps, advanceAll_cons_of_advance opened, advanceAll_append, inside, Option.bind_some,
    advanceAll_cons_of_advance closed]
  exact others

/-- Inner braces that enclose what keeps the depth keep the depth outside too. -/
theorem keeps_blob_of_braced {text : List Char} {depth : Nat}
    (inside : Keeps (.blob (depth + 1)) text) :
    Keeps (.blob depth) ('\x7b' :: (text ++ ['\x7d'])) := by
  have opened : step (.blob depth) '\x7b' = .advance (.blob (depth + 1)) := rfl
  have closed : step (.blob (depth + 1)) '\x7d' = .advance (.blob depth) := rfl
  rw [Keeps, advanceAll_cons_of_advance opened, advanceAll_append, inside, Option.bind_some,
    advanceAll_cons_of_advance closed, advanceAll]

theorem isFiller_of_spaces {text : List Char} (blank : Spaces text) :
    ∀ character ∈ text, isFiller character := by
  intro character present
  have space := blank character present
  simp only [List.mem_cons, List.not_mem_nil, or_false] at space
  rcases space with rfl | rfl | rfl | rfl <;> rfl

theorem isFiller_of_isDigit {character : Char} (digit : character.isDigit) :
    isFiller character := by
  simp only [isFiller, List.mem_cons, List.not_mem_nil, or_false, not_or, decide_eq_true_eq]
  refine ⟨?_, ?_, ?_⟩ <;> rintro rfl <;> exact absurd digit (by decide)

theorem isFiller_of_digits {digits : List Nat} {text : List Char}
    (spelled : Json.DigitsSpelled digits text) : ∀ character ∈ text, isFiller character := by
  obtain ⟨-, all, -⟩ := Json.digitsSpelled_iff.1 spelled
  exact fun character present => isFiller_of_isDigit (all character present)

theorem isFiller_of_numeral {numeral : Json.Numeral} {text : List Char}
    (spelled : numeral.Spelled text) : ∀ character ∈ text, isFiller character := by
  obtain @⟨negative, whole, fraction, exponent, first, second, third, integral, fractional,
    scaled⟩ := spelled
  have sign : ∀ character ∈ (if negative then ['-'] else []), isFiller character := by
    cases negative <;> simp [isFiller]
  have one : ∀ character ∈ first, isFiller character := by
    cases integral with
    | zero => simp [isFiller]
    | digits spelled leading => exact isFiller_of_digits spelled
  have two : ∀ character ∈ second, isFiller character := by
    cases fractional with
    | none => simp
    | point spelled => exact List.forall_mem_cons.2 ⟨rfl, isFiller_of_digits spelled⟩
  have marked {mark : Char} (marked : mark ∈ ['e', 'E']) : isFiller mark := by
    simp only [List.mem_cons, List.not_mem_nil, or_false] at marked
    rcases marked with rfl | rfl <;> rfl
  have three : ∀ character ∈ third, isFiller character := by
    cases scaled with
    | none => simp
    | unsigned mark spelled =>
      exact List.forall_mem_cons.2 ⟨marked mark, isFiller_of_digits spelled⟩
    | plus mark spelled =>
      exact List.forall_mem_cons.2
        ⟨marked mark, List.forall_mem_cons.2 ⟨rfl, isFiller_of_digits spelled⟩⟩
    | minus mark spelled =>
      exact List.forall_mem_cons.2
        ⟨marked mark, List.forall_mem_cons.2 ⟨rfl, isFiller_of_digits spelled⟩⟩
  simp only [List.forall_mem_append]
  exact ⟨sign, one, two, three⟩

/-- Every phrase of the grammar closes as many braces as it opens, outside its quoted texts. -/
theorem keeps_blob_of_phrase {phrase : Phrase} {text : List Char} (spelled : phrase.Spelled text)
    (depth : Nat) : Keeps (.blob depth) text := by
  have space {text : List Char} (blank : Spaces text) (depth : Nat) : Keeps (.blob depth) text :=
    keeps_blob_of_isFiller (isFiller_of_spaces blank) depth
  have mark {character : Char} (filler : isFiller character) {text : List Char} {depth : Nat}
      (others : Keeps (.blob depth) text) : Keeps (.blob depth) (character :: text) :=
    others.cons (step_blob_of_isFiller filler depth)
  have bracketed {text : List Char} {depth : Nat} (inside : Keeps (.blob depth) text) :
      Keeps (.blob depth) ('[' :: (text ++ [']'])) :=
    have closed : Keeps (.blob depth) [']'] := mark (by decide) rfl
    mark (by decide) (inside.append closed)
  induction spelled generalizing depth with
  | null | trueWord | falseWord => exact keeps_blob_of_isFiller (by simp [isFiller]) depth
  | number spelled => exact keeps_blob_of_isFiller (isFiller_of_numeral spelled) depth
  | text spelled => exact keeps_blob_of_quoted spelled rfl
  | emptyArray blank => exact bracketed (space blank depth)
  | array spelled hypothesis => exact bracketed (hypothesis depth)
  | emptyObject blank => exact keeps_blob_of_braced (space blank (depth + 1))
  | object spelled hypothesis => exact keeps_blob_of_braced (hypothesis (depth + 1))
  | padded leading spelled trailing hypothesis =>
    exact (space leading depth).append ((hypothesis depth).append (space trailing depth))
  | lastElement spelled hypothesis => exact hypothesis depth
  | element spelled others hypothesis hypothesisLater =>
    exact (hypothesis depth).append (mark rfl (hypothesisLater depth))
  | member leading named trailing spelled hypothesis =>
    have colon : isFiller ':' := by decide
    have value := (space trailing depth).append (mark colon (hypothesis depth))
    exact (space leading depth).append (keeps_blob_of_quoted named value)
  | lastMember spelled hypothesis => exact hypothesis depth
  | moreMembers spelled others hypothesis hypothesisLater =>
    exact (hypothesis depth).append (mark rfl (hypothesisLater depth))

/-- An object is one blob as a whole, before whatever follows it. -/
theorem readToken_of_object {entries : List (List Item × Tree)} {text : List Char}
    (spelled : Phrase.Spelled (.value (.object entries)) text) (rest : List Char) :
    readToken (text ++ rest) = ⟨.blob, text, rest, false⟩ := by
  have opened : first '\x7b' = .opens (.blob 0) := by decide
  have closed : step (.blob 0) '\x7d' = .close .blob := rfl
  have braced {inner : List Char} (inside : Keeps (.blob 0) inner) :
      readToken ('\x7b' :: (inner ++ ['\x7d']) ++ rest) =
        ⟨.blob, '\x7b' :: (inner ++ ['\x7d']), rest, false⟩ := by
    rw [List.cons_append, List.append_assoc, readToken_of_opens opened,
      readFrom_append_of_advanceAll inside, List.singleton_append, readFrom_of_close closed]
    rfl
  cases spelled with
  | emptyObject blank => exact braced (keeps_blob_of_isFiller (isFiller_of_spaces blank) 0)
  | object spelled => exact braced (keeps_blob_of_phrase spelled 0)

end Lexer

open CharSource Viewed

variable {σ : Type} [CharSource σ]

/-- The text of an argument that is an object is decoded as that object. -/
theorem Argument.toJson_of_object {entries : List (List Item × Tree)} {text : List Char}
    (spelled : Phrase.Spelled (.value (.object entries)) text) {α : Type}
    (decode? : Tree → Option α) :
    toJson ⟨.blob, String.ofList text⟩ decode? =
      match decode? (.object entries) with
      | some value => .ok value
      | none => .error (.json (String.ofList text)) := by
  have whole := Phrase.Spelled.padded Spaces.nil spelled Spaces.nil
  rw [List.nil_append, List.append_nil] at whole
  rw [toJson, if_neg (not_not_intro rfl), decode, String.toList_ofList,
    Tree.read?_of_spelled whole]
  rfl

/-- Wherever an object is ahead, the scanner reads all of it as one blob and nothing else. -/
theorem Scanner.scan_object_eq_blob [Viewed σ] {source : σ} {view : View}
    (shown : Shows source view) {entries : List (List Item × Tree)} {text rest : List Char}
    (spelled : Phrase.Spelled (.value (.object entries)) text) (ahead : view.ahead = text ++ rest)
    (ignoreBlanks : Bool) :
    let scanned := scan ignoreBlanks source
    scanned.1 = .blob ∧ tokenText scanned.2 = String.ofList text ∧
      Shows scanned.2 { view.startToken with token := text, ahead := rest } ∧
      ∀ {α : Type} (decode? : Tree → Option α),
        Argument.toJson ⟨scanned.1, tokenText scanned.2⟩ decode? =
          match decode? (.object entries) with
          | some value => .ok value
          | none => .error (.json (String.ofList text)) := by
  intro scanned
  obtain ⟨kind, after⟩ := token_shows shown
  have read := Lexer.readToken_of_object spelled rest
  rw [ahead, read] at kind
  rw [View.afterToken, ahead, read] at after
  have same : scanned = token source := scan_of_ne_blank (by simp [kind]) ignoreBlanks
  have literal := Viewed.tokenText after
  rw [same, kind, literal]
  exact ⟨rfl, rfl, after, Argument.toJson_of_object spelled⟩

/-- Braces in keys, in inner objects and behind the object do not mislead the scanner. -/
theorem Scanner.scan_object_eq_blob_nested :
    let text := "\x7b\"\x7d\": [\x7b\x7d]\x7d".toList
    let rest := "\x7d, \"\x7b".toList
    let scanned := scan true (TextSource.ofList (text ++ rest))
    Phrase.Spelled (.value (.object [([.plain '\x7d'], .array [.object []])])) text ∧
      scanned.1 = .blob ∧ tokenText scanned.2 = String.ofList text ∧
      Shows scanned.2 ⟨text, rest, 0, 0, .sound⟩ := by
  intro text rest scanned
  have space : Spaces [' '] := Spaces.singleton (by decide)
  have key : Item.AllSpelled [.plain '\x7d'] ['\x7d'] :=
    .cons (.plain (by decide) (by decide) (by decide)) .nil
  have inner : Phrase.Spelled (.padded (.object [])) (['\x7b', '\x7d'] : List Char) :=
    .padded Spaces.nil (.emptyObject Spaces.nil) Spaces.nil
  have list : Phrase.Spelled (.padded (.array [.object []])) " [\x7b\x7d]".toList :=
    .padded space (.array (.lastElement inner)) Spaces.nil
  have spelled : Phrase.Spelled (.value (.object [([.plain '\x7d'], .array [.object []])])) text :=
    .object (.lastMember (.member Spaces.nil key Spaces.nil list))
  obtain ⟨kind, literal, after, -⟩ :=
    Scanner.scan_object_eq_blob (TextSource.ofList_shows (text ++ rest)) spelled rfl true
  exact ⟨spelled, kind, literal, after⟩

end Fluent
