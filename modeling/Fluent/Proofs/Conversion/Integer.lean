/-
This file proves that an integer is converted to what it denotes, within 64 bits.
-/

import Fluent.Conversion
import Fluent.Proofs.Lexer.Literals
import Fluent.Proofs.Scanner.Respelling

namespace Fluent

open Lexer
open Viewed (Shows)

namespace Integer

/-- The integer that an optional minus and digits denote. -/
inductive Denotes : List Char → Int → Prop
  | unsigned {digits : List Char} (some : SomeDigits digits) :
      Denotes digits (Nat.ofDigitChars 10 digits 0)
  | negative {digits : List Char} (some : SomeDigits digits) :
      Denotes ('-' :: digits) (-Nat.ofDigitChars 10 digits 0)

/-- A number with its sign. -/
def signed (negative : Bool) (total : Nat) : Int :=
  if negative then -(total : Int) else total

/-- The fault of a number with this sign that is out of range. -/
def excess : Bool → IntegerFault
  | true => .tooSmall
  | false => .tooLarge

theorem append_signed (negative : Bool) (total digit : Nat) :
    append negative (signed negative total) digit = signed negative (10 * total + digit) := by
  rw [Nat.mul_comm]
  exact append_natCast negative total digit

/-- Digits behind others make no number smaller. -/
theorem le_ofDigitChars (digits : List Char) (total : Nat) :
    total ≤ Nat.ofDigitChars 10 digits total := by
  induction digits generalizing total with
  | nil => exact Nat.le_refl total
  | cons digit digits hypothesis =>
    rw [Nat.ofDigitChars_cons]
    have := hypothesis (10 * total + (digit.toNat - '0'.toNat))
    omega

theorem inRange_iff {value : Int} : inRange value ↔ least ≤ value ∧ value ≤ greatest := by
  simp [inRange]

/-- What is no further from zero than a number in range is in range too. -/
theorem inRange_signed_of_le {negative : Bool} {total other : Nat} (less : total ≤ other)
    (within : inRange (signed negative other)) : inRange (signed negative total) := by
  rw [inRange_iff] at within ⊢
  unfold signed least greatest at *
  cases negative <;> simp at * <;> omega

/-- One more digit is refused exactly where it leaves the range, on the side of the sign. -/
theorem readDigits_cons_signed {digit : Char} (decimal : digit.isDigit) (negative : Bool)
    (total : Nat) (digits : List Char) :
    let next := signed negative (10 * total + (digit.toNat - '0'.toNat))
    readDigits negative (signed negative total) (digit :: digits) =
      if inRange next then readDigits negative next digits else .error (excess negative) := by
  intro next
  have appended : append negative (signed negative total) (Digits.digitValue digit) = next :=
    append_signed negative total _
  rw [readDigits, decimal, Bool.not_true, if_neg Bool.false_ne_true, appended]
  dsimp only
  by_cases within : inRange next
  · obtain ⟨lower, upper⟩ := inRange_iff.1 within
    rw [if_pos within, if_neg (Int.not_lt.2 lower), if_neg (Int.not_lt.2 upper)]
  · rw [if_neg within]
    rw [inRange_iff] at within
    cases negative with
    | true =>
      have below : next < least := by
        have nonpositive : next ≤ 0 := Int.neg_nonpos_of_nonneg (Int.natCast_nonneg _)
        unfold greatest at within
        omega
      exact if_pos below
    | false =>
      have nonnegative : 0 ≤ next := Int.natCast_nonneg _
      have above : greatest < next := by
        unfold least at within
        omega
      have notBelow : ¬ next < least := by
        unfold least
        omega
      rw [if_neg notBelow]
      exact if_pos above

/-- Digits are read as the number that they make with those before, if this is in range. -/
theorem readDigits_signed {digits : List Char} (all : AllDigits digits) {negative : Bool}
    {total : Nat} (within : inRange (signed negative total)) :
    let result := signed negative (Nat.ofDigitChars 10 digits total)
    readDigits negative (signed negative total) digits =
      if inRange result then .ok result else .error (excess negative) := by
  intro result
  induction digits generalizing total with
  | nil => exact (if_pos within).symm
  | cons digit digits hypothesis =>
    obtain ⟨decimal, others⟩ := allDigits_cons.1 all
    have more : result = signed negative
        (Nat.ofDigitChars 10 digits (10 * total + (digit.toNat - '0'.toNat))) := by
      rw [← Nat.ofDigitChars_cons]
    rw [readDigits_cons_signed decimal, more]
    split_ifs with next last last
    · exact (hypothesis others next).trans (if_pos last)
    · exact (hypothesis others next).trans (if_neg last)
    · exact absurd (inRange_signed_of_le (le_ofDigitChars digits _) last) next
    · rfl

theorem parse_minus {digits : List Char} (some : digits ≠ []) :
    parse ('-' :: digits) = readDigits true 0 digits := by
  cases digits with
  | nil => exact absurd rfl some
  | cons digit digits => rfl

theorem parse_of_someDigits {digits : List Char} (some : SomeDigits digits) :
    parse digits = readDigits false 0 digits := by
  obtain ⟨digit, others, rfl⟩ := List.exists_cons_of_ne_nil some.1
  have unsigned := (of_isDigit (some.2 digit List.mem_cons_self)).2.2
  simp only [List.mem_cons, List.not_mem_nil, or_false, not_or] at unsigned
  unfold parse
  split <;> simp_all

theorem Denotes.exists_signed {text : List Char} {value : Int} (denotes : Denotes text value) :
    ∃ negative digits, SomeDigits digits ∧ parse text = readDigits negative 0 digits ∧
      value = signed negative (Nat.ofDigitChars 10 digits 0) := by
  cases denotes with
  | unsigned some => exact ⟨false, _, some, parse_of_someDigits some, rfl⟩
  | negative some => exact ⟨true, _, some, parse_minus some.1, rfl⟩

/-- A number that is out of range is not zero, so it shows its sign. -/
theorem signed_lt_zero_iff {negative : Bool} {total : Nat}
    (outside : ¬ inRange (signed negative total)) : signed negative total < 0 ↔ negative := by
  rw [inRange_iff] at outside
  unfold signed least greatest at *
  cases negative <;> simp at *
  omega

/-- An integer is read as what it denotes, if this is in range. -/
theorem parse_of_denotes {text : List Char} {value : Int} (denotes : Denotes text value) :
    parse text = if inRange value then .ok value else .error (excess (value < 0)) := by
  obtain ⟨negative, digits, some, parsed, rfl⟩ := denotes.exists_signed
  have start : signed negative 0 = 0 := by cases negative <;> rfl
  have within : inRange (signed negative 0) := by rw [start]; decide
  have read := readDigits_signed some.2 within
  rw [start] at read
  rw [parsed, read]
  split_ifs with last
  · rfl
  · rw [decide_eq_decide.2 (signed_lt_zero_iff last), Bool.decide_coe]

/-- Behind the digits of a numeral without a point and a mark of an exponent there is nothing. -/
theorem eq_nil_of_integral {fraction exponent : List Char} (fractional : IsFraction fraction)
    (scaled : IsExponent exponent) (integral : ¬ (fraction ++ exponent).any isFloatMark) :
    fraction ++ exponent = [] := by
  have unmarked (mark : Char) (rest : List Char) (among : mark ∈ ['e', 'E']) :
      exponent ≠ mark :: rest := by
    rintro rfl
    exact integral (List.any_eq_true.2
      ⟨mark, by simp, decide_eq_true (List.mem_cons_of_mem _ among)⟩)
  cases fractional with
  | point => exact absurd rfl integral
  | none =>
    cases scaled with
    | none => rfl
    | unsigned marked | signed marked => exact absurd rfl (unmarked _ _ marked)

/-- A numeral with neither a point nor an exponent denotes an integer. -/
theorem exists_denotes {text : List Char} (numeral : IsNumeral text)
    (integral : ¬ text.any isFloatMark) : ∃ value, Denotes text value := by
  cases numeral with
  | unsigned some fractional scaled =>
    rw [List.any_append, Bool.or_eq_true, not_or] at integral
    rw [eq_nil_of_integral fractional scaled integral.2, List.append_nil]
    exact ⟨_, .unsigned some⟩
  | negative some fractional scaled =>
    rw [List.any_cons, List.any_append, Bool.or_eq_true, Bool.or_eq_true, not_or,
      not_or] at integral
    rw [eq_nil_of_integral fractional scaled integral.2.2, List.append_nil]
    exact ⟨_, .negative some⟩

theorem Denotes.isNumeral {text : List Char} {value : Int} (denotes : Denotes text value) :
    IsNumeral text ∧ ¬ text.any isFloatMark := by
  have integral {digits : List Char} (all : AllDigits digits) : ¬ digits.any isFloatMark := by
    rw [List.any_eq_true]
    rintro ⟨digit, present, marked⟩
    rw [isFloatMark_of_isDigit (all digit present)] at marked
    cases marked
  cases denotes with
  | unsigned some =>
    have numeral := IsNumeral.unsigned some .none .none
    rw [List.append_nil, List.append_nil] at numeral
    exact ⟨numeral, integral some.2⟩
  | negative some =>
    have numeral := IsNumeral.negative some .none .none
    rw [List.append_nil, List.append_nil] at numeral
    have unmarked := integral some.2
    exact ⟨numeral, unmarked⟩

theorem someDigits_toDigits (number : Nat) : SomeDigits (Nat.toDigits 10 number) :=
  ⟨Nat.toDigits_ne_nil, fun _ present =>
    Nat.isDigit_of_mem_toDigits (by decide : 0 < 10) (by decide) present⟩

/-- The decimal form of an integer denotes it. -/
theorem denotes_toString (value : Int) : Denotes (toString value).toList value := by
  have same (number : Nat) : Nat.ofDigitChars 10 (Nat.toDigits 10 number) 0 = number :=
    Nat.ofDigitChars_toDigits (by decide) (by decide)
  cases value with
  | ofNat number =>
    have denotes := Denotes.unsigned (someDigits_toDigits number)
    rw [same, ← Nat.toList_repr] at denotes
    exact denotes
  | negSucc number =>
    have denotes := Denotes.negative (someDigits_toDigits (number + 1))
    rw [same, ← Nat.toList_repr] at denotes
    show Denotes ("-" ++ Nat.repr (number + 1)).toList _
    rw [String.toList_append]
    exact denotes

/-- A token of an integer denotes one. -/
theorem exists_denotes_of_readToken {text : List Char}
    (found : (readToken text).kind = .integer) (whole : (readToken text).rest = []) :
    ∃ value, Denotes text value := by
  obtain ⟨numeral, kind⟩ := isNumeral_of_readToken found (by decide) whole
  refine exists_denotes numeral fun marked => ?_
  rw [if_pos (any_isFloatMark.1 marked)] at kind
  cases kind

theorem Denotes.readToken_eq {text : List Char} {value : Int} (denotes : Denotes text value) :
    readToken text = ⟨.integer, text, [], true⟩ := by
  obtain ⟨numeral, integral⟩ := denotes.isNumeral
  rw [readToken_of_isNumeral numeral, if_neg (mt any_isFloatMark.2 integral)]

end Integer

theorem Argument.toInteger_of_denotes {literal : String} {value : Int}
    (denotes : Integer.Denotes literal.toList value) :
    (mk .integer literal).toInteger =
      if Integer.inRange value then .ok value
      else .error (.integer literal (Integer.excess (value < 0))) := by
  rw [toInteger, if_neg (not_not_intro rfl), Integer.parse_of_denotes denotes]
  split_ifs <;> rfl

open CharSource

/-- An integer is converted to the number it denotes, or refused beyond 64 bits. -/
theorem Scanner.toInteger_of_scans :
    (∀ {σ : Type} [CharSource σ] [Viewed σ] {source : σ} {view : View}, Shows source view →
      ∀ {flags : List Bool} {token : Scanned}, token ∈ scans flags source → token.kind = .integer →
        let argument : Argument := ⟨token.kind, token.literal⟩
        (∃ value, Integer.Denotes token.literal.toList value) ∧
          ∀ value, Integer.Denotes token.literal.toList value →
            (-2 ^ 63 ≤ value → value ≤ 2 ^ 63 - 1 → argument.toInteger = .ok value) ∧
            (2 ^ 63 - 1 < value → ∃ fault,
              argument.toInteger = .error (.integer token.literal fault) ∧
                fault.message = "number too large to fit in target type") ∧
            (value < -2 ^ 63 → ∃ fault,
              argument.toInteger = .error (.integer token.literal fault) ∧
                fault.message = "number too small to fit in target type")) ∧
      ∀ (number : Int64) {σ : Type} [CharSource σ] [Viewed σ] {source : σ} {view : View},
        Shows source view → view.ahead = (toString number).toList → ∀ ignoreBlanks,
          let scanned := scan ignoreBlanks source
          let argument : Argument := ⟨scanned.1, tokenText scanned.2⟩
          argument = ⟨.integer, toString number⟩ ∧
            Shows scanned.2 { view.startToken with
              token := (toString number).toList
              ahead := []
              tail := view.tail.reach } ∧
            argument.toInteger = .ok number.toInt := by
  have range (value : Int) : Integer.inRange value ↔ -2 ^ 63 ≤ value ∧ value ≤ 2 ^ 63 - 1 :=
    Integer.inRange_iff
  constructor
  · intro σ _ _ source view shown flags token present integer argument
    have same : argument = ⟨.integer, token.literal⟩ :=
      congrArg (Argument.mk · token.literal) integer
    rw [scans_eq shown] at present
    obtain ⟨found, whole⟩ := View.readToken_of_mem_scans present
    refine ⟨Integer.exists_denotes_of_readToken (found.trans integer) whole,
      fun value denotes => ?_⟩
    rw [same, Argument.toInteger_of_denotes denotes]
    refine ⟨fun lower upper => if_pos ((range value).2 ⟨lower, upper⟩), fun above => ?_,
      fun below => ?_⟩
    · rw [if_neg (mt (range value).1 (by omega)), decide_eq_false (by omega)]
      exact ⟨.tooLarge, rfl, rfl⟩
    · rw [if_neg (mt (range value).1 (by omega)), decide_eq_true (by omega)]
      exact ⟨.tooSmall, rfl, rfl⟩
  · intro number σ _ _ source view shown ahead ignoreBlanks scanned argument
    have denotes : Integer.Denotes (toString number).toList number.toInt :=
      Integer.denotes_toString number.toInt
    have read := denotes.readToken_eq
    rw [← ahead] at read
    obtain ⟨kind, literal, after⟩ := scan_of_readToken shown read Kind.noConfusion ignoreBlanks
    rw [ahead, String.ofList_toList] at literal
    rw [ahead] at after
    have same : argument = ⟨.integer, toString number⟩ := by
      show Argument.mk scanned.1 (tokenText scanned.2) = _
      rw [kind, literal]
    refine ⟨same, after, ?_⟩
    rw [same, Argument.toInteger_of_denotes denotes]
    have lower := number.le_toInt
    have upper := number.toInt_lt
    exact if_pos ((range number.toInt).2 (by omega))

/-- The limits of 64 bits behind zeros, a zero with a minus, and the least integer as written. -/
theorem Scanner.toInteger_of_scans_bounds :
    let padded : Scanned := ⟨.integer, "-0009223372036854775808", 0, 0⟩
    let large : Scanned := ⟨.integer, "9223372036854775808", 0, 0⟩
    let zero : Scanned := ⟨.integer, "-0", 0, 0⟩
    padded ∈ scans [false] (TextSource.ofString padded.literal) ∧
      (Argument.mk .integer padded.literal).toInteger = .ok (-9223372036854775808) ∧
      large ∈ scans [false] (TextSource.ofString large.literal) ∧
      (Argument.mk .integer large.literal).toInteger = .error (.integer large.literal .tooLarge) ∧
      zero ∈ scans [false] (TextSource.ofString zero.literal) ∧
      (Argument.mk .integer zero.literal).toInteger = .ok 0 ∧
      (scan false (TextSource.ofString (toString Int64.minValue))).1 = .integer := by
  intro padded large zero
  have shown (text : String) : Shows (TextSource.ofString text) (View.ofText text.toList) :=
    TextSource.ofList_shows text.toList
  have single (token : Scanned)
      (read : scans [false] (TextSource.ofString token.literal) = [token]) :
      token ∈ scans [false] (TextSource.ofString token.literal) := by
    rw [read]
    exact List.mem_cons_self
  have first := single padded (by cbv)
  have second := single large (by cbv)
  have third := single zero (by cbv)
  have digits (text : String) (some : text.toList ≠ []) (all : text.toList.all Char.isDigit) :
      SomeDigits text.toList := ⟨some, List.all_eq_true.1 all⟩
  have negative (text : String) (some : text.toList ≠ []) (all : text.toList.all Char.isDigit) :
      Integer.Denotes ("-" ++ text).toList (-Nat.ofDigitChars 10 text.toList 0) := by
    rw [String.toList_append]
    exact .negative (digits text some all)
  have denotesPadded : Integer.Denotes padded.literal.toList (-9223372036854775808) := by
    have denotes := negative "0009223372036854775808" (by decide) rfl
    have value : Nat.ofDigitChars 10 "0009223372036854775808".toList 0 = 9223372036854775808 := rfl
    rw [value] at denotes
    exact denotes
  have denotesLarge : Integer.Denotes large.literal.toList 9223372036854775808 :=
    .unsigned (digits "9223372036854775808" (by decide) rfl)
  have denotesZero : Integer.Denotes zero.literal.toList 0 :=
    negative "0" (by decide) rfl
  obtain ⟨converts, -⟩ := toInteger_of_scans.1 (shown _) first rfl |>.2 _ denotesPadded
  obtain ⟨-, refuses, -⟩ := toInteger_of_scans.1 (shown _) second rfl |>.2 _ denotesLarge
  obtain ⟨vanishes, -⟩ := toInteger_of_scans.1 (shown _) third rfl |>.2 _ denotesZero
  obtain ⟨same, -⟩ :=
    toInteger_of_scans.2 Int64.minValue (shown (toString Int64.minValue)) rfl false
  refine ⟨first, converts (by decide) (by decide), second, ?_, third,
    vanishes (by decide) (by decide), (Argument.mk.inj same).1⟩
  obtain ⟨fault, refused, message⟩ := refuses (by decide)
  rw [refused]
  cases fault <;> first | rfl | exact absurd message (by decide)

end Fluent
