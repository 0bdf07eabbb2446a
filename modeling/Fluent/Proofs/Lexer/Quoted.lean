/-
This file holds the grammar of quoted texts, and proves that these are scanned.
-/

import Fluent.Proofs.Lexer.Munch
import Fluent.Proofs.Source.TextView

namespace Fluent.Lexer

/-- The characters that stand for themselves between quotes. -/
def IsPlain (character : Char) : Prop :=
  0x20 ≤ character.toNat ∧ character ≠ '"' ∧ character ≠ '\\'

/-- A character stands for itself, in an escape of two characters, or in one with four digits. -/
inductive IsQuotedItem : List Char → Prop
  | plain {character : Char} (plain : IsPlain character) : IsQuotedItem [character]
  | escape {mark : Char} (simple : mark ∈ ['b', 'f', 'n', 'r', 't', '\\', '/', '"']) :
      IsQuotedItem ['\\', mark]
  | unicode {first second third fourth : Char}
      (digits : ∀ digit ∈ [first, second, third, fourth], isHexDigit digit) :
      IsQuotedItem ['\\', 'u', first, second, third, fourth]

/-- Any number of items. -/
inductive IsQuotedBody : List Char → Prop
  | nil : IsQuotedBody []
  | cons {item rest : List Char} (spelled : IsQuotedItem item) (others : IsQuotedBody rest) :
      IsQuotedBody (item ++ rest)

/-- The items and the quote behind them. -/
def IsClosed (text : List Char) : Prop :=
  ∃ body, text = body ++ ['"'] ∧ IsQuotedBody body

/-- A quote, items, and a quote. -/
def IsQuoted (text : List Char) : Prop :=
  ∃ body, text = '"' :: (body ++ ['"']) ∧ IsQuotedBody body

/-- What has been read of a quoted text that has begun and not ended. -/
def IsQuotedFront (front : List Char) : Prop :=
  front ≠ [] ∧ ∃ more, more ≠ [] ∧ IsQuoted (front ++ more)

/-- What is left of a quoted text, by where it stands between its quotes. -/
def Quoted.Rest : Quoted → List Char → Prop
  | .body, text => IsClosed text
  | .escape, text => ∃ item rest, text = item ++ rest ∧ IsQuotedItem ('\\' :: item) ∧ IsClosed rest
  | .unicode seen, text => ∃ digits rest, text = digits ++ rest ∧ digits.length + seen = 4 ∧
      (∀ digit ∈ digits, isHexDigit digit) ∧ IsClosed rest

section

variable {character : Char} {rest : List Char}

theorem isQuoted_cons : IsQuoted ('"' :: rest) ↔ IsClosed rest := by
  constructor
  · rintro ⟨body, split, items⟩
    exact ⟨body, (List.cons.inj split).2, items⟩
  · rintro ⟨body, rfl, items⟩
    exact ⟨body, rfl, items⟩

theorem not_isClosed_nil : ¬ IsClosed [] := by
  rintro ⟨body, split, -⟩
  exact List.cons_ne_nil _ _ (List.append_eq_nil_iff.1 split.symm).2

theorem IsClosed.cons {item : List Char} (closed : IsClosed rest) (spelled : IsQuotedItem item) :
    IsClosed (item ++ rest) := by
  obtain ⟨body, rfl, items⟩ := closed
  exact ⟨item ++ body, (List.append_assoc ..).symm, .cons spelled items⟩

/-- What closes a quoted text begins with the quote, or with an item. -/
theorem isClosed_cons :
    IsClosed (character :: rest) ↔ character = '"' ∧ rest = [] ∨
      IsPlain character ∧ IsClosed rest ∨ character = '\\' ∧ Quoted.escape.Rest rest := by
  constructor
  · rintro ⟨body, split, items⟩
    cases items with
    | nil =>
      cases split
      exact .inl ⟨rfl, rfl⟩
    | @cons item others spelled items =>
      rw [List.append_assoc] at split
      cases spelled with
      | plain plain =>
        cases split
        exact .inr (.inl ⟨plain, _, rfl, items⟩)
      | @escape mark simple =>
        cases split
        exact .inr (.inr ⟨rfl, [mark], _, rfl, .escape simple, _, rfl, items⟩)
      | @unicode first second third fourth digits =>
        cases split
        exact .inr (.inr ⟨rfl, ['u', first, second, third, fourth], _, rfl, .unicode digits, _, rfl,
          items⟩)
  · rintro (⟨rfl, rfl⟩ | ⟨plain, closed⟩ | ⟨rfl, item, later, rfl, spelled, closed⟩)
    · exact ⟨[], rfl, .nil⟩
    · exact closed.cons (.plain plain)
    · exact closed.cons spelled

/-- Behind a backslash comes the mark of a simple escape, or a `u` and four digits. -/
theorem rest_escape_cons :
    Quoted.escape.Rest (character :: rest) ↔ isSimpleEscape character ∧ IsClosed rest ∨
      character = 'u' ∧ (Quoted.unicode 0).Rest rest := by
  constructor
  · rintro ⟨item, later, split, spelled, closed⟩
    generalize same : '\\' :: item = text at spelled
    cases spelled with
    | plain plain =>
      cases same
      exact absurd rfl plain.2.2
    | escape simple =>
      cases same
      cases split
      exact .inl ⟨decide_eq_true simple, closed⟩
    | @unicode first second third fourth digits =>
      cases same
      cases split
      exact .inr ⟨rfl, [first, second, third, fourth], _, rfl, rfl, digits, closed⟩
  · rintro (⟨simple, closed⟩ | ⟨rfl, digits, later, rfl, four, hexadecimal, closed⟩)
    · exact ⟨[character], rest, rfl, .escape (of_decide_eq_true simple), closed⟩
    · match digits, four with
      | [first, second, third, fourth], _ =>
        exact ⟨['u', first, second, third, fourth], later, rfl, .unicode hexadecimal, closed⟩

theorem rest_unicode_cons {seen : Nat} (live : seen < 4) :
    (Quoted.unicode seen).Rest (character :: rest) ↔
      isHexDigit character ∧
        if seen = 3 then IsClosed rest else (Quoted.unicode (seen + 1)).Rest rest := by
  constructor
  · rintro ⟨digits, later, split, four, hexadecimal, closed⟩
    cases digits with
    | nil =>
      rw [List.length_nil] at four
      omega
    | cons digit digits =>
      cases split
      obtain ⟨one, others⟩ := List.forall_mem_cons.1 hexadecimal
      rw [List.length_cons] at four
      refine ⟨one, ?_⟩
      split_ifs with last
      · obtain rfl : digits = [] := List.length_eq_zero_iff.1 (by omega)
        exact closed
      · exact ⟨digits, later, rfl, by omega, others, closed⟩
  · rintro ⟨one, others⟩
    split_ifs at others with last
    · subst last
      exact ⟨[character], rest, rfl, rfl, List.forall_mem_singleton.2 one, others⟩
    · obtain ⟨digits, later, rfl, four, hexadecimal, closed⟩ := others
      refine ⟨character :: digits, later, rfl, ?_, List.forall_mem_cons.2 ⟨one, hexadecimal⟩,
        closed⟩
      rw [List.length_cons]
      omega

end

namespace Quoted

theorem not_rest_nil {part : Quoted} (live : part.Live) : ¬ part.Rest [] := by
  cases part with
  | body => exact not_isClosed_nil
  | escape =>
    rintro ⟨item, later, split, -, closed⟩
    rw [(List.append_eq_nil_iff.1 split.symm).2] at closed
    exact not_isClosed_nil closed
  | unicode seen =>
    rintro ⟨digits, later, split, -, -, closed⟩
    rw [(List.append_eq_nil_iff.1 split.symm).2] at closed
    exact not_isClosed_nil closed

/-- A quoted text goes on with a character exactly if the automaton does. -/
theorem rest_cons {part : Quoted} (live : part.Live) (character : Char) (rest : List Char) :
    part.Rest (character :: rest) ↔
      match part.step character with
      | .inside next => next.Rest rest
      | .closed => rest = []
      | .broken => False := by
  cases part with
  | body =>
    rw [Rest, isClosed_cons]
    by_cases quote : character = '"'
    · simp [step, IsPlain, quote]
    · by_cases backslash : character = '\\'
      · simp [step, IsPlain, backslash]
      · by_cases control : character.toNat < 0x20
        · simp [step, IsPlain, quote, backslash, control, Nat.not_le.2 control]
        · simp [step, IsPlain, quote, backslash, control, Nat.le_of_not_lt control, Rest]
  | escape =>
    rw [rest_escape_cons]
    by_cases long : character = 'u'
    · subst long
      simp [step, show isSimpleEscape 'u' = false by decide]
    · by_cases simple : isSimpleEscape character <;> simp [step, simple, long, Rest]
  | unicode seen =>
    rw [rest_unicode_cons live]
    by_cases digit : isHexDigit character
    · by_cases last : seen = 3 <;> simp [step, digit, last, Rest]
    · simp [step, digit]

end Quoted

/-- What completes a quoted text is what the grammar leaves of it. -/
theorem completes_quoted_iff {part : Quoted} (live : part.Live) (text : List Char) :
    (State.quoted part).Completes text ↔ part.Rest text := by
  induction text generalizing part with
  | nil => exact iff_of_false (fun legal => legal rfl) (Quoted.not_rest_nil live)
  | cons character rest hypothesis =>
    rw [Quoted.rest_cons live]
    cases moved : part.step character with
    | inside next =>
      rw [completes_of_advance (step_quoted_of_inside moved)]
      exact hypothesis (live.step moved)
    | closed =>
      rw [completes_of_close (step_quoted_of_closed moved)]
      exact and_iff_right Kind.noConfusion
    | broken =>
      rw [completes_of_close (step_quoted_of_broken moved)]
      exact iff_of_false (fun legal => legal.1 rfl) id

theorem isQuoted_iff_completes {rest : List Char} :
    IsQuoted ('"' :: rest) ↔ (State.quoted .body).Completes rest := by
  have live : Quoted.body.Live := trivial
  rw [isQuoted_cons, completes_quoted_iff live]
  rfl

theorem IsQuoted.exists_completes {quoted : List Char} (whole : IsQuoted quoted) :
    ∃ text, quoted = '"' :: text ∧ (State.quoted .body).Completes text := by
  obtain ⟨body, rfl, items⟩ := whole
  exact ⟨_, rfl, isQuoted_iff_completes.1 ⟨body, rfl, items⟩⟩

/-- As long as something is missing to a quoted text, the automaton stands in it. -/
theorem advanceAll_quoted_of_completes {part : Quoted} {text more : List Char}
    (completes : (State.quoted part).Completes (text ++ more)) (going : more ≠ []) :
    ∃ next, advanceAll (.quoted part) text = some (.quoted next) := by
  obtain ⟨front, character, last, split, before, -⟩ := exists_closing_of_completes completes
  have within : text <+: front ++ [character] := ⟨more, split⟩
  rcases List.prefix_concat_iff.1 within with rfl | earlier
  · exact absurd (List.append_right_eq_self.1 split) going
  · obtain ⟨state, advanced⟩ := advanceAll_of_isPrefix before earlier
    obtain ⟨next, rfl, -⟩ := exists_place_of_advanceAll advanced
    exact ⟨next, advanced⟩

/-- A quoted text has begun and not ended as long as the automaton stands in it. -/
theorem isQuotedFront_iff {front : List Char} :
    IsQuotedFront front ↔
      ∃ text part, front = '"' :: text ∧ advanceAll (.quoted .body) text = some (.quoted part) := by
  constructor
  · rintro ⟨begun, more, going, whole⟩
    obtain ⟨behind, split, completes⟩ := whole.exists_completes
    cases front with
    | nil => exact absurd rfl begun
    | cons character text =>
      cases split
      obtain ⟨part, advanced⟩ := advanceAll_quoted_of_completes completes going
      exact ⟨text, part, rfl, advanced⟩
  · rintro ⟨text, part, rfl, advanced⟩
    have opened : (State.quoted .body).Live := trivial
    have live : (State.quoted part).Live := opened.advanceAll advanced
    obtain ⟨more, completes⟩ := live.exists_completes
    refine ⟨List.cons_ne_nil _ _, more, ?_,
      isQuoted_iff_completes.2 ((completes_append advanced).2 completes)⟩
    rintro rfl
    exact completes rfl

/-- One more character is no quoted text's exactly if the automaton breaks off there. -/
theorem not_begins_isQuoted_iff {text : List Char} {part : Quoted} {character : Char}
    (advanced : advanceAll (.quoted .body) text = some (.quoted part)) :
    ¬ Begins IsQuoted ('"' :: text ++ [character]) ↔ part.step character = .broken := by
  have opened : (State.quoted .body).Live := trivial
  have live : (State.quoted part).Live := opened.advanceAll advanced
  have same (rest : List Char) : IsQuoted ('"' :: text ++ [character] ++ rest) ↔
      (State.quoted part).Completes (character :: rest) := by
    rw [List.append_assoc]
    exact isQuoted_iff_completes.trans (completes_append advanced)
  cases moved : part.step character with
  | inside next =>
    have onward := step_quoted_of_inside moved
    obtain ⟨rest, completes⟩ := (live.step onward).exists_completes
    refine iff_of_false (not_not_intro ⟨rest, ?_⟩) QuotedMove.noConfusion
    exact (same rest).2 ((completes_of_advance onward).2 completes)
  | closed =>
    refine iff_of_false (not_not_intro ⟨[], ?_⟩) QuotedMove.noConfusion
    exact (same []).2 ((completes_of_close (step_quoted_of_closed moved)).2
      ⟨Kind.noConfusion, rfl⟩)
  | broken =>
    refine iff_of_true ?_ rfl
    rintro ⟨rest, whole⟩
    exact ((completes_of_close (step_quoted_of_broken moved)).1 ((same rest).1 whole)).1 rfl

/-- What completes a quoted text ends the token, whatever comes behind it. -/
theorem readFrom_quoted_append {part : Quoted} {text : List Char}
    (completes : (State.quoted part).Completes text) (later : List Char) :
    readFrom (.quoted part) (text ++ later) = ⟨.text, text, later, false⟩ := by
  obtain ⟨front, character, last, rfl, before, closed⟩ := exists_closing_of_completes completes
  rw [List.append_assoc, readFrom_append_of_advanceAll before, List.singleton_append,
    readFrom_of_close (step_quoted_of_closed closed)]
  rfl

theorem readToken_of_isQuoted {quoted : List Char} (whole : IsQuoted quoted) (later : List Char) :
    readToken (quoted ++ later) = ⟨.text, quoted, later, false⟩ := by
  obtain ⟨text, rfl, completes⟩ := whole.exists_completes
  have opened : first '"' = .opens (.quoted .body) := by decide
  rw [List.cons_append, readToken_of_opens opened, readFrom_quoted_append completes]
  rfl

/-- No quoted text goes on behind another. -/
theorem IsQuoted.eq_of_isPrefix {one other text : List Char} (first : IsQuoted one)
    (second : IsQuoted other) (before : one <+: text) (behind : other <+: text) : one = other := by
  obtain ⟨later, split⟩ := before
  obtain ⟨rest, rfl⟩ := behind
  have same := readToken_of_isQuoted first later
  rw [split, readToken_of_isQuoted second rest] at same
  exact (congrArg Reading.literal same).symm

/-- An illegal quoted text goes up to the first character that no quoted text goes on with. -/
theorem readToken_of_not_isQuoted {rest : List Char}
    (none : ∀ front, front <+: '"' :: rest → ¬ IsQuoted front) :
    (∃ broken later, '"' :: rest = broken ++ later ∧
      ShortestPrefix (fun front => ¬ Begins IsQuoted front) ('"' :: rest) broken ∧
      readToken ('"' :: rest) = ⟨.illegal, broken, later, false⟩) ∨
    Begins IsQuoted ('"' :: rest) ∧
      readToken ('"' :: rest) = ⟨.illegal, '"' :: rest, [], true⟩ := by
  have opened : first '"' = .opens (.quoted .body) := by decide
  have live : (State.quoted .body).Live := trivial
  obtain ⟨front, later, rfl, longest, -, illegal⟩ := readFrom_longest live rest
  have unfinished : ¬ (State.quoted .body).Completes front := fun completes =>
    none _ ⟨later, rfl⟩ (isQuoted_iff_completes.2 completes)
  have opening : LongestPrefix (Begins IsQuoted) ('"' :: (front ++ later)) ('"' :: front) :=
    longest.cons fun other => exists_congr fun _ => isQuoted_iff_completes
  rw [readToken_of_opens opened, illegal unfinished]
  cases later with
  | nil =>
    rw [List.append_nil]
    exact .inr ⟨opening.holds, by rw [List.take_nil, List.append_nil]; rfl⟩
  | cons character behind =>
    refine .inl ⟨'"' :: front ++ [character], behind, ?_, opening.shortest_not_begins rfl, rfl⟩
    rw [List.append_assoc]
    rfl

end Fluent.Lexer

namespace Fluent

open CharSource Viewed Lexer

variable {σ : Type} [CharSource σ]

/-- A quoted text is scanned as a whole, or up to the first character that spoils it. -/
theorem Scanner.scan_quoted [Viewed σ] {source : σ} {view : View} (shown : Shows source view)
    {rest : List Char} (ahead : view.ahead = '"' :: rest) (ignoreBlanks : Bool) :
    let scanned := scan ignoreBlanks source
    (∀ one other, one <+: view.ahead → other <+: view.ahead →
      IsQuoted one → IsQuoted other → one = other) ∧
    (∀ quoted later, view.ahead = quoted ++ later → IsQuoted quoted →
      scanned.1 = .text ∧ tokenText scanned.2 = String.ofList quoted ∧
        Shows scanned.2 { view.startToken with token := quoted, ahead := later }) ∧
    ((∀ front, front <+: view.ahead → ¬ IsQuoted front) →
      scanned.1 = .illegal ∧
      ((∃ broken later, view.ahead = broken ++ later ∧
          ShortestPrefix (fun front => ¬ Begins IsQuoted front) view.ahead broken ∧
          tokenText scanned.2 = String.ofList broken ∧
          Shows scanned.2 { view.startToken with token := broken, ahead := later }) ∨
        (∀ front, front <+: view.ahead → Begins IsQuoted front) ∧
          tokenText scanned.2 = String.ofList view.ahead ∧
          Shows scanned.2 { view.startToken with
            token := view.ahead
            ahead := []
            tail := view.tail.reach })) := by
  intro scanned
  refine ⟨fun one other before behind first second => first.eq_of_isPrefix second before behind,
    fun quoted later split whole => ?_, fun none => ?_⟩
  · have read := readToken_of_isQuoted whole later
    rw [← split] at read
    exact scan_of_readToken shown read Kind.noConfusion ignoreBlanks
  · rw [ahead] at none
    rcases readToken_of_not_isQuoted none with ⟨broken, later, split, shortest, read⟩ |
      ⟨begins, read⟩
    · rw [← ahead] at split shortest read
      obtain ⟨kind, literal, after⟩ := scan_of_readToken shown read Kind.noConfusion ignoreBlanks
      exact ⟨kind, .inl ⟨broken, later, split, shortest, literal, after⟩⟩
    · rw [← ahead] at begins read
      obtain ⟨kind, literal, after⟩ := scan_of_readToken shown read Kind.noConfusion ignoreBlanks
      exact ⟨kind, .inr ⟨fun _ before => begins.of_isPrefix before, literal, after⟩⟩

/-- An escape that is none spoils the text around it, although a quote comes later. -/
theorem Scanner.scan_quoted_broken :
    let text := ['"', 'a', '\\', 'x', '"', ';']
    let scanned := scan true (TextSource.ofList text)
    (∀ front, front <+: text → ¬ IsQuoted front) ∧
      ShortestPrefix (fun front => ¬ Begins IsQuoted front) text ['"', 'a', '\\', 'x'] ∧
      scanned.1 = .illegal ∧ tokenText scanned.2 = "\"a\\x" := by
  intro text scanned
  have read : readToken text = ⟨.illegal, ['"', 'a', '\\', 'x'], ['"', ';'], false⟩ := by decide
  obtain ⟨kind, literal, -⟩ :=
    scan_of_readToken (TextSource.ofList_shows text) read Kind.noConfusion true
  have ahead : (View.ofText text).ahead = '"' :: ['a', '\\', 'x', '"', ';'] := rfl
  obtain ⟨-, legal, illegal⟩ := scan_quoted (TextSource.ofList_shows text) ahead true
  have none : ∀ front, front <+: text → ¬ IsQuoted front := by
    rintro front ⟨later, split⟩ whole
    cases kind.symm.trans (legal front later split.symm whole).1
  obtain ⟨-, ⟨broken, later, -, shortest, same, -⟩ | ⟨-, same, -⟩⟩ := illegal none
  · have spelled : broken = ['"', 'a', '\\', 'x'] :=
      String.ofList_injective (same.symm.trans literal)
    exact ⟨none, spelled ▸ shortest, kind, literal⟩
  · have spelled : text = ['"', 'a', '\\', 'x'] :=
      String.ofList_injective (same.symm.trans literal)
    exact absurd spelled (by decide)

end Fluent
