/-
This file holds the grammar of numerals, and proves that the longest one is scanned.
-/

import Fluent.Proofs.Lexer.Munch
import Fluent.Proofs.Lexer.Names
import Fluent.Proofs.Source.TextView

namespace Fluent.Lexer

/-- `[0-9]*` -/
def AllDigits (text : List Char) : Prop :=
  ∀ character ∈ text, character.isDigit

/-- `[0-9]+` -/
def SomeDigits (text : List Char) : Prop :=
  text ≠ [] ∧ AllDigits text

/-- `(\.[0-9]*)?` -/
inductive IsFraction : List Char → Prop
  | none : IsFraction []
  | point {digits : List Char} (all : AllDigits digits) : IsFraction ('.' :: digits)

/-- `([eE][+-]?[0-9]+)?` -/
inductive IsExponent : List Char → Prop
  | none : IsExponent []
  | unsigned {mark : Char} {digits : List Char} (marked : mark ∈ ['e', 'E'])
      (some : SomeDigits digits) : IsExponent (mark :: digits)
  | signed {mark sign : Char} {digits : List Char} (marked : mark ∈ ['e', 'E'])
      (signed : sign ∈ ['+', '-']) (some : SomeDigits digits) : IsExponent (mark :: sign :: digits)

/-- `-?[0-9]+(\.[0-9]*)?([eE][+-]?[0-9]+)?` -/
inductive IsNumeral : List Char → Prop
  | unsigned {whole fraction exponent : List Char} (some : SomeDigits whole)
      (fractional : IsFraction fraction) (scaled : IsExponent exponent) :
      IsNumeral (whole ++ (fraction ++ exponent))
  | negative {whole fraction exponent : List Char} (some : SomeDigits whole)
      (fractional : IsFraction fraction) (scaled : IsExponent exponent) :
      IsNumeral ('-' :: (whole ++ (fraction ++ exponent)))

namespace Numeral

/-- What is left of a numeral, by how far it has come. -/
def Rest : Numeral → List Char → Prop
  | .sign, text => ∃ whole fraction exponent, text = whole ++ (fraction ++ exponent) ∧
      SomeDigits whole ∧ IsFraction fraction ∧ IsExponent exponent
  | .whole, text => ∃ whole fraction exponent, text = whole ++ (fraction ++ exponent) ∧
      AllDigits whole ∧ IsFraction fraction ∧ IsExponent exponent
  | .fraction, text => ∃ digits exponent, text = digits ++ exponent ∧ AllDigits digits ∧
      IsExponent exponent
  | .exponent, text => SomeDigits text ∨
      ∃ sign digits, text = sign :: digits ∧ sign ∈ ['+', '-'] ∧ SomeDigits digits
  | .exponentSign, text => SomeDigits text
  | .exponentDigits, text => AllDigits text

end Numeral

section

variable {character : Char} {rest : List Char}

theorem allDigits_nil : AllDigits [] :=
  nofun

theorem allDigits_cons : AllDigits (character :: rest) ↔ character.isDigit ∧ AllDigits rest :=
  List.forall_mem_cons

theorem someDigits_cons : SomeDigits (character :: rest) ↔ character.isDigit ∧ AllDigits rest := by
  rw [SomeDigits, allDigits_cons]
  exact and_iff_right (List.cons_ne_nil character rest)

theorem isExponentMark_iff_mem : isExponentMark character ↔ character ∈ ['e', 'E'] := by
  simp [isExponentMark]

theorem isExponent_cons :
    IsExponent (character :: rest) ↔ isExponentMark character ∧ Numeral.Rest .exponent rest := by
  rw [isExponentMark_iff_mem]
  constructor
  · intro scaled
    cases scaled with
    | unsigned marked some => exact ⟨marked, .inl some⟩
    | signed marked signed some => exact ⟨marked, .inr ⟨_, _, rfl, signed, some⟩⟩
  · rintro ⟨marked, some | ⟨sign, digits, rfl, signed, some⟩⟩
    · exact .unsigned marked some
    · exact .signed marked signed some

theorem rest_exponentSign : Numeral.Rest .exponentSign rest ↔ SomeDigits rest :=
  Iff.rfl

theorem rest_exponentDigits : Numeral.Rest .exponentDigits rest ↔ AllDigits rest :=
  Iff.rfl

theorem rest_exponent_cons :
    Numeral.Rest .exponent (character :: rest) ↔
      (character.isDigit ∧ AllDigits rest) ∨ (character ∈ ['+', '-'] ∧ SomeDigits rest) := by
  rw [Numeral.Rest, someDigits_cons]
  apply or_congr_right
  constructor
  · rintro ⟨sign, digits, same, signed, some⟩
    cases same
    exact ⟨signed, some⟩
  · rintro ⟨signed, some⟩
    exact ⟨character, rest, rfl, signed, some⟩

theorem rest_fraction_cons :
    Numeral.Rest .fraction (character :: rest) ↔
      (character.isDigit ∧ Numeral.Rest .fraction rest) ∨ IsExponent (character :: rest) := by
  constructor
  · rintro ⟨_ | ⟨digit, digits⟩, exponent, split, all, scaled⟩
    · exact .inr (split ▸ scaled)
    · cases split
      obtain ⟨decimal, others⟩ := allDigits_cons.1 all
      exact .inl ⟨decimal, digits, exponent, rfl, others, scaled⟩
  · rintro (⟨decimal, digits, exponent, rfl, all, scaled⟩ | scaled)
    · exact ⟨character :: digits, exponent, rfl, allDigits_cons.2 ⟨decimal, all⟩, scaled⟩
    · exact ⟨[], character :: rest, rfl, allDigits_nil, scaled⟩

theorem rest_whole_cons :
    Numeral.Rest .whole (character :: rest) ↔
      (character.isDigit ∧ Numeral.Rest .whole rest) ∨
        (character = '.' ∧ Numeral.Rest .fraction rest) ∨ IsExponent (character :: rest) := by
  constructor
  · rintro ⟨_ | ⟨digit, whole⟩, fraction, exponent, split, all, fractional, scaled⟩
    · cases fractional with
      | none => exact .inr (.inr (split ▸ scaled))
      | point digits =>
        cases split
        exact .inr (.inl ⟨rfl, _, exponent, rfl, digits, scaled⟩)
    · cases split
      obtain ⟨decimal, others⟩ := allDigits_cons.1 all
      exact .inl ⟨decimal, whole, fraction, exponent, rfl, others, fractional, scaled⟩
  · rintro (⟨decimal, whole, fraction, exponent, rfl, all, fractional, scaled⟩ |
      ⟨rfl, digits, exponent, rfl, all, scaled⟩ | scaled)
    · exact ⟨character :: whole, fraction, exponent, rfl, allDigits_cons.2 ⟨decimal, all⟩,
        fractional, scaled⟩
    · exact ⟨[], '.' :: digits, exponent, rfl, allDigits_nil, .point all, scaled⟩
    · exact ⟨[], [], character :: rest, rfl, allDigits_nil, .none, scaled⟩

theorem rest_sign_cons :
    Numeral.Rest .sign (character :: rest) ↔ character.isDigit ∧ Numeral.Rest .whole rest := by
  constructor
  · rintro ⟨_ | ⟨digit, whole⟩, fraction, exponent, split, some, fractional, scaled⟩
    · exact absurd rfl some.1
    · cases split
      obtain ⟨decimal, others⟩ := someDigits_cons.1 some
      exact ⟨decimal, whole, fraction, exponent, rfl, others, fractional, scaled⟩
  · rintro ⟨decimal, whole, fraction, exponent, rfl, all, fractional, scaled⟩
    exact ⟨character :: whole, fraction, exponent, rfl, someDigits_cons.2 ⟨decimal, all⟩,
      fractional, scaled⟩

theorem isNumeral_cons_of_isDigit (decimal : character.isDigit) :
    IsNumeral (character :: rest) ↔ Numeral.Rest .whole rest := by
  have signless : character ≠ '-' := by
    rintro rfl
    exact absurd decimal (by decide)
  constructor
  · intro numeral
    generalize spelled : character :: rest = text at numeral
    cases numeral with
    | unsigned some fractional scaled =>
      exact (rest_sign_cons.1 ⟨_, _, _, spelled, some, fractional, scaled⟩).2
    | negative => exact absurd (List.cons.inj spelled).1 signless
  · intro left
    obtain ⟨whole, fraction, exponent, split, some, fractional, scaled⟩ :=
      rest_sign_cons.2 ⟨decimal, left⟩
    rw [split]
    exact .unsigned some fractional scaled

theorem isNumeral_cons_minus : IsNumeral ('-' :: rest) ↔ Numeral.Rest .sign rest := by
  constructor
  · intro numeral
    generalize spelled : '-' :: rest = text at numeral
    cases numeral with
    | unsigned some fractional scaled =>
      have decimal := (rest_sign_cons.1 ⟨_, _, _, spelled, some, fractional, scaled⟩).1
      exact absurd decimal (by decide)
    | negative some fractional scaled =>
      cases spelled
      exact ⟨_, _, _, rfl, some, fractional, scaled⟩
  · rintro ⟨whole, fraction, exponent, rfl, some, fractional, scaled⟩
    exact .negative some fractional scaled

end

/-- A digit is none of the other characters of a numeral. -/
theorem of_isDigit {character : Char} (decimal : character.isDigit) :
    character ≠ '.' ∧ ¬ isExponentMark character ∧ character ∉ ['+', '-'] := by
  refine ⟨?_, fun marked => ?_, fun signed => ?_⟩
  · rintro rfl
    exact absurd decimal (by decide)
  · rw [isExponentMark_iff_mem] at marked
    simp only [List.mem_cons, List.not_mem_nil, or_false] at marked
    rcases marked with rfl | rfl <;> exact absurd decimal (by decide)
  · simp only [List.mem_cons, List.not_mem_nil, or_false] at signed
    rcases signed with rfl | rfl <;> exact absurd decimal (by decide)

namespace Numeral

theorem rest_nil (part : Numeral) : part.Rest [] ↔ part.atEnd ≠ .illegal := by
  have empty : ¬ SomeDigits [] := fun some => some.1 rfl
  cases part with
  | sign =>
    refine iff_of_false ?_ (by decide)
    rintro ⟨whole, fraction, exponent, split, some, -, -⟩
    exact some.1 (List.append_eq_nil_iff.1 split.symm).1
  | whole => exact iff_of_true ⟨[], [], [], rfl, allDigits_nil, .none, .none⟩ (by decide)
  | fraction => exact iff_of_true ⟨[], [], rfl, allDigits_nil, .none⟩ (by decide)
  | exponent =>
    refine iff_of_false ?_ (by decide)
    rintro (some | ⟨sign, digits, split, -, -⟩)
    · exact empty some
    · cases split
  | exponentSign => exact iff_of_false empty (by decide)
  | exponentDigits => exact iff_of_true allDigits_nil (by decide)

/-- A numeral goes on with a character exactly if the automaton does. -/
theorem rest_cons (part : Numeral) (character : Char) (rest : List Char) :
    part.Rest (character :: rest) ↔
      ∃ next, part.step character = .advance (.number next) ∧ next.Rest rest := by
  by_cases decimal : character.isDigit
  · obtain ⟨pointless, unmarked, unsigned⟩ := of_isDigit decimal
    cases part with
    | sign => simp [rest_sign_cons, step, decimal]
    | whole => simp [rest_whole_cons, isExponent_cons, step, decimal, pointless, unmarked]
    | fraction => simp [rest_fraction_cons, isExponent_cons, step, decimal, unmarked]
    | exponent =>
      rw [rest_exponent_cons]
      simp [step, decimal, unsigned, rest_exponentDigits]
    | exponentSign => simp [rest_exponentSign, rest_exponentDigits, someDigits_cons, step, decimal]
    | exponentDigits => simp [rest_exponentDigits, allDigits_cons, step, decimal]
  · cases part with
    | sign => simp [rest_sign_cons, step, decimal]
    | whole =>
      by_cases point : character = '.'
      · subst point
        simp [rest_whole_cons, isExponent_cons, step, isExponentMark]
      · by_cases marked : isExponentMark character <;>
          simp [rest_whole_cons, isExponent_cons, step, decimal, point, marked]
    | fraction =>
      by_cases marked : isExponentMark character <;>
        simp [rest_fraction_cons, isExponent_cons, step, decimal, marked]
    | exponent =>
      rw [rest_exponent_cons]
      by_cases plus : character = '+'
      · simp [step, plus, rest_exponentSign]
      · by_cases minus : character = '-' <;>
          simp [step, decimal, plus, minus, rest_exponentSign]
    | exponentSign => simp [rest_exponentSign, someDigits_cons, step, decimal]
    | exponentDigits => simp [rest_exponentDigits, allDigits_cons, step, decimal]

/-- Whether a numeral has had no point and no mark of an exponent. -/
def integral : Numeral → Bool
  | .sign | .whole => true
  | .fraction | .exponent | .exponentSign | .exponentDigits => false

end Numeral

/-- What a character does to a numeral. -/
theorem step_number_cases (part : Numeral) (character : Char) :
    (∃ next, step (.number part) character = .advance (.number next)) ∨
      step (.number part) character = .close .illegal ∨
      step (.number part) character = .stop part.atEnd := by
  cases part <;> simp only [step, Numeral.step] <;> split_ifs <;> simp [Numeral.atEnd]

/-- What completes a numeral is what the grammar leaves of it. -/
theorem completes_number_iff (part : Numeral) (text : List Char) :
    (State.number part).Completes text ↔ part.Rest text := by
  induction text generalizing part with
  | nil => exact part.rest_nil.symm
  | cons character rest hypothesis =>
    rw [part.rest_cons]
    rcases step_number_cases part character with ⟨next, moved⟩ | closed | stopped
    · rw [completes_of_advance moved, hypothesis next]
      constructor
      · exact fun left => ⟨next, moved, left⟩
      · rintro ⟨later, same, left⟩
        cases moved.symm.trans same
        exact left
    · rw [completes_of_close closed]
      refine iff_of_false (fun legal => legal.1 rfl) ?_
      rintro ⟨next, moved, -⟩
      cases closed.symm.trans moved
    · refine iff_of_false (not_completes_of_stop stopped) ?_
      rintro ⟨next, moved, -⟩
      cases stopped.symm.trans moved

/-- The characters that make a numeral a float. -/
def isFloatMark (character : Char) : Bool :=
  character ∈ ['.', 'e', 'E']

theorem isFloatMark_of_isDigit {character : Char} (decimal : character.isDigit) :
    isFloatMark character = false := by
  obtain ⟨pointless, unmarked, -⟩ := of_isDigit decimal
  rw [isExponentMark_iff_mem] at unmarked
  rw [isFloatMark, decide_eq_false_iff_not, List.mem_cons]
  exact not_or_intro pointless unmarked

/-- A numeral stays integral as long as no point and no mark of an exponent comes. -/
theorem integral_of_advance {part next : Numeral} {character : Char}
    (moved : step (.number part) character = .advance (.number next)) :
    next.integral = (part.integral && !isFloatMark character) := by
  cases part with
  | sign =>
    simp only [step, Numeral.step] at moved
    split_ifs at moved with decimal
    cases moved
    simp [Numeral.integral, isFloatMark_of_isDigit decimal]
  | whole =>
    simp only [step, Numeral.step] at moved
    split_ifs at moved with decimal point marked <;> cases moved
    · simp [Numeral.integral, isFloatMark_of_isDigit decimal]
    · subst point
      rfl
    · rw [isExponentMark_iff_mem] at marked
      simp [Numeral.integral, isFloatMark, List.mem_cons_of_mem _ marked]
  | fraction | exponent | exponentSign | exponentDigits =>
    simp only [step, Numeral.step] at moved
    split_ifs at moved <;> cases moved <;> rfl

theorem any_isFloatMark {text : List Char} :
    text.any isFloatMark ↔ '.' ∈ text ∨ 'e' ∈ text ∨ 'E' ∈ text := by
  simp [isFloatMark, and_or_left, exists_or]

/-- A legal number is a float with a point or a mark of an exponent, and ends with its text. -/
theorem readFrom_number (part : Numeral) (text : List Char)
    (legal : (readFrom (.number part) text).kind ≠ .illegal) :
    (readFrom (.number part) text).kind =
        (if part.integral && !(readFrom (.number part) text).literal.any isFloatMark then .integer
          else .float) ∧
      (readFrom (.number part) text).ended = (readFrom (.number part) text).rest.isEmpty := by
  induction text generalizing part with
  | nil =>
    change part.atEnd ≠ .illegal at legal
    cases part <;> first | exact absurd rfl legal | exact ⟨rfl, rfl⟩
  | cons character rest hypothesis =>
    rcases step_number_cases part character with ⟨next, moved⟩ | closed | stopped
    · rw [readFrom_of_advance moved] at legal ⊢
      obtain ⟨kind, ended⟩ := hypothesis next legal
      refine ⟨?_, ended⟩
      simp only [Reading.prepend, List.singleton_append, List.any_cons, kind,
        integral_of_advance moved, Bool.not_or, Bool.and_assoc]
    · rw [readFrom_of_close closed] at legal
      exact absurd rfl legal
    · rw [readFrom_of_stop stopped] at legal ⊢
      cases part <;> first | exact absurd rfl legal | exact ⟨rfl, rfl⟩

theorem first_of_isDigit {character : Char} (decimal : character.isDigit) :
    first character = .opens (.number .whole) := by
  obtain ⟨least, most⟩ := Bool.and_eq_true_iff.1 decimal
  have lower : 48 ≤ character.toNat := of_decide_eq_true least
  have upper : character.toNat ≤ 57 := of_decide_eq_true most
  have solid : isBlank character = false := by
    simp [isBlank, blankRanges]
    omega
  have wordless : isWordStart character = false := by
    rw [Bool.eq_false_iff]
    intro starts
    simp only [isWordStart, Bool.or_eq_true, decide_eq_true_eq] at starts
    rcases starts with alpha | rfl
    · have bounds := bounds_of_isAlpha alpha
      omega
    · exact absurd decimal (by decide)
  simp [first, solid, wordless, decimal]

/-- Where a numeral may begin, the automaton for numerals is opened. -/
theorem exists_part {character : Char} (opening : character.isDigit ∨ character = '-') :
    ∃ part : Numeral, first character = .opens (.number part) ∧ part.integral ∧
      isFloatMark character = false ∧
      ∀ rest, IsNumeral (character :: rest) ↔ (State.number part).Completes rest := by
  rcases opening with decimal | rfl
  · refine ⟨.whole, first_of_isDigit decimal, rfl, isFloatMark_of_isDigit decimal, fun rest => ?_⟩
    rw [isNumeral_cons_of_isDigit decimal, completes_number_iff]
  · refine ⟨.sign, by decide, rfl, by decide, fun rest => ?_⟩
    rw [isNumeral_cons_minus, completes_number_iff]

/-- The longest text that begins a numeral is a number, or is illegal with the next character. -/
theorem readToken_longest_numeral {character : Char} (opening : character.isDigit ∨ character = '-')
    (rest : List Char) :
    ∃ front later, character :: rest = front ++ later ∧
      LongestPrefix (Begins IsNumeral) (character :: rest) front ∧
      (IsNumeral front → readToken (character :: rest) =
        ⟨if '.' ∈ front ∨ 'e' ∈ front ∨ 'E' ∈ front then .float else .integer, front, later,
          later.isEmpty⟩) ∧
      (¬ IsNumeral front → readToken (character :: rest) =
        ⟨.illegal, front ++ later.take 1, later.drop 1, later.isEmpty⟩) := by
  obtain ⟨part, opened, integral, unmarked, numeral⟩ := exists_part opening
  have live : (State.number part).Live := trivial
  obtain ⟨front, later, split, longest, legal, illegal⟩ := readFrom_longest live rest
  refine ⟨character :: front, later, congrArg (character :: ·) split,
    longest.cons fun other => exists_congr fun more => numeral (other ++ more), ?_⟩
  rw [numeral, readToken_of_opens opened]
  refine ⟨fun completes => ?_, fun broken => ?_⟩
  · obtain ⟨proper, literal, left⟩ := legal completes
    obtain ⟨kind, ended⟩ := readFrom_number part rest proper
    rw [integral, literal] at kind
    rw [left] at ended
    generalize readFrom (.number part) rest = reading at literal left kind ended
    obtain ⟨found, characters, others, met⟩ := reading
    obtain rfl : characters = front := literal
    obtain rfl : others = later := left
    obtain rfl : met = others.isEmpty := ended
    obtain rfl : found = _ := kind
    have marked : ('.' ∈ character :: characters ∨ 'e' ∈ character :: characters ∨
        'E' ∈ character :: characters) ↔ characters.any isFloatMark := by
      rw [← any_isFloatMark, List.any_cons, unmarked, Bool.false_or]
    simp only [Reading.classified, Reading.prepend, List.singleton_append, marked]
    cases characters.any isFloatMark <;> rfl
  · rw [illegal broken]
    rfl

end Fluent.Lexer

namespace Fluent

open CharSource Viewed Lexer

variable {σ : Type} [CharSource σ]

/-- The longest text that begins a numeral is scanned, wherever a digit or a minus is ahead. -/
theorem Scanner.scan_longest_numeral [Viewed σ] {source : σ} {view : View}
    (shown : Shows source view) {character : Char} {rest : List Char}
    (ahead : view.ahead = character :: rest) (opening : character.isDigit ∨ character = '-')
    (ignoreBlanks : Bool) :
    let scanned := scan ignoreBlanks source
    ∃ front later, view.ahead = front ++ later ∧
      LongestPrefix (Begins IsNumeral) view.ahead front ∧
      (IsNumeral front →
        scanned.1 = (if '.' ∈ front ∨ 'e' ∈ front ∨ 'E' ∈ front then .float else .integer) ∧
        tokenText scanned.2 = String.ofList front ∧
        Shows scanned.2 { view.startToken with
          token := front
          ahead := later
          tail := if later.isEmpty then view.tail.reach else view.tail }) ∧
      (¬ IsNumeral front →
        scanned.1 = .illegal ∧
        tokenText scanned.2 = String.ofList (front ++ later.take 1) ∧
        Shows scanned.2 { view.startToken with
          token := front ++ later.take 1
          ahead := later.drop 1
          tail := if later.isEmpty then view.tail.reach else view.tail }) := by
  intro scanned
  obtain ⟨front, later, split, longest, legal, illegal⟩ := readToken_longest_numeral opening rest
  rw [← ahead] at split longest legal illegal
  refine ⟨front, later, split, longest, fun numeral => ?_, fun broken => ?_⟩
  · refine scan_of_readToken shown (legal numeral) ?_ ignoreBlanks
    split_ifs <;> exact Kind.noConfusion
  · exact scan_of_readToken shown (illegal broken) Kind.noConfusion ignoreBlanks

/-- An exponent that has a sign and no digits spoils the numeral before it. -/
theorem Scanner.scan_longest_numeral_broken :
    let text := ['-', '1', '.', 'e', '+', 'x', ')']
    let scanned := scan true (TextSource.ofList text)
    text = '-' :: ['1', '.', 'e', '+', 'x', ')'] ∧ ('-'.isDigit ∨ '-' = '-') ∧
      LongestPrefix (Begins IsNumeral) text ['-', '1', '.', 'e', '+'] ∧
      ¬ IsNumeral ['-', '1', '.', 'e', '+'] ∧
      scanned.1 = .illegal ∧ tokenText scanned.2 = "-1.e+x" := by
  intro text scanned
  have read : readToken text = ⟨.illegal, ['-', '1', '.', 'e', '+', 'x'], [')'], false⟩ := by decide
  obtain ⟨kind, literal, -⟩ :=
    scan_of_readToken (TextSource.ofList_shows text) read Kind.noConfusion true
  have ahead : (View.ofText text).ahead = '-' :: ['1', '.', 'e', '+', 'x', ')'] := rfl
  obtain ⟨front, later, split, longest, legal, illegal⟩ :=
    scan_longest_numeral (TextSource.ofList_shows text) ahead (.inr rfl) true
  have broken : ¬ IsNumeral front := by
    intro numeral
    have proper := kind.symm.trans (legal numeral).1
    split_ifs at proper
  have spelled : front ++ later.take 1 = ['-', '1', '.', 'e', '+', 'x'] :=
    String.ofList_injective ((illegal broken).2.1.symm.trans literal)
  have same : front = ['-', '1', '.', 'e', '+'] := by
    cases later with
    | nil =>
      rw [List.append_nil] at split
      rw [← split] at spelled
      exact absurd spelled (by decide)
    | cons next behind =>
      change front ++ [next] = ['-', '1', '.', 'e', '+'] ++ ['x'] at spelled
      exact (List.append_inj' spelled rfl).1
  rw [same] at longest broken
  exact ⟨rfl, .inr rfl, longest, broken, kind, literal⟩

end Fluent
