/-
This file proves that every float is converted to a number.
-/

import Fluent.Conversion
import Fluent.Proofs.Json.Reading
import Fluent.Proofs.Lexer.Literals
import Fluent.Proofs.Parser.Arguments
import Fluent.Proofs.Scanner.Respelling

namespace Fluent

open Json (ExponentSpelled EndsDigits EndsNumeral)
open Lexer
open Viewed (Shows)

namespace Double

/-- The exponents of the scanner are those of JSON. -/
theorem exists_exponentSpelled {exponent : List Char} (scaled : IsExponent exponent) :
    ∃ scale, ExponentSpelled scale exponent := by
  cases scaled with
  | none => exact ⟨_, .none⟩
  | unsigned marked some =>
    exact ⟨_, .unsigned marked (Json.digitsSpelled_iff.2 ⟨some.1, some.2, rfl⟩)⟩
  | signed marked signed some =>
    simp only [List.mem_cons, List.not_mem_nil, or_false] at signed
    rcases signed with rfl | rfl
    · exact ⟨_, .plus marked (Json.digitsSpelled_iff.2 ⟨some.1, some.2, rfl⟩)⟩
    · exact ⟨_, .minus marked (Json.digitsSpelled_iff.2 ⟨some.1, some.2, rfl⟩)⟩

/-- The digits, with those behind the point, and the exponent are read as a decimal number. -/
theorem ofDigits?_of_spelled {whole fraction exponent : List Char} {scale : Option Int}
    (integral : SomeDigits whole) (fractional : IsFraction fraction)
    (scaled : ExponentSpelled scale exponent) (negative : Bool) :
    let places := fraction.drop 1
    ofDigits? negative (whole ++ (fraction ++ exponent)) =
      some (ofDecimal negative (Digits.value ((whole ++ places).map Digits.digitValue))
        (scale.getD 0 - places.length)) := by
  intro places
  have last : EndsNumeral [] := nofun
  obtain ⟨ends, pointless⟩ := scaled.ends last
  have read := scaled.readExponent last
  rw [List.append_nil] at ends pointless read
  have full : (whole.map Digits.digitValue).isEmpty = false := by
    simpa using integral.1
  cases fractional with
  | none =>
    rw [List.nil_append]
    cases exponent with
    | nil =>
      simp only [ofDigits?, Json.read_append integral.2 ends, full, read]
      simp [places]
    | cons mark rest =>
      have unpointed : mark ≠ '.' := fun same => pointless (congrArg some same)
      simp only [ofDigits?, Json.read_append integral.2 ends, full]
      simp [places, unpointed, read]
  | @point digits all =>
    have opened : EndsDigits ('.' :: (digits ++ exponent)) := by
      rintro character ⟨⟩
      decide
    rw [List.cons_append]
    simp only [ofDigits?, Json.read_append integral.2 opened, Json.read_append all ends, full, read]
    simp [places]

theorem toLower_of_isDigit {character : Char} (decimal : character.isDigit) :
    character.toLower = character := by
  have upper : character.toNat ≤ 57 := of_decide_eq_true (Bool.and_eq_true_iff.1 decimal).2
  rw [Char.toLower, dif_neg]
  rintro ⟨least, -⟩
  have lower : 65 ≤ character.toNat := least
  omega

/-- What begins with a digit is none of the words for what is no finite number. -/
theorem ofUnsigned?_of_isDigit {character : Char} (decimal : character.isDigit) (negative : Bool)
    (rest : List Char) :
    ofUnsigned? negative (character :: rest) = ofDigits? negative (character :: rest) := by
  have wordless {initial : Char} {word : String} {others : List Char}
      (spelled : word.toList = initial :: others) (letter : initial.isDigit = false) :
      String.ofList ((character :: rest).map Char.toLower) ≠ word := by
    rintro rfl
    rw [String.toList_ofList, List.map_cons, toLower_of_isDigit decimal] at spelled
    rw [← (List.cons.inj spelled).1, decimal] at letter
    cases letter
  have inf : "inf".toList = ['i', 'n', 'f'] := by decide
  have infinity : "infinity".toList = 'i' :: ['n', 'f', 'i', 'n', 'i', 't', 'y'] := by decide
  have nan : "nan".toList = ['n', 'a', 'n'] := by decide
  rw [ofUnsigned?, if_neg (not_or_intro (wordless inf rfl) (wordless infinity rfl)),
    if_neg (wordless nan rfl)]

/-- What begins with a digit has no sign. -/
theorem parse_of_isDigit {character : Char} (decimal : character.isDigit) (rest : List Char) :
    parse (character :: rest) =
      (ofUnsigned? false (character :: rest)).elim (.error .invalid) .ok := by
  have unsigned := (of_isDigit decimal).2.2
  simp only [List.mem_cons, List.not_mem_nil, or_false, not_or] at unsigned
  unfold parse
  split <;> simp_all

/-- Behind its sign, a numeral is read as a decimal number. -/
theorem exists_ofUnsigned? {whole fraction exponent : List Char} (integral : SomeDigits whole)
    (fractional : IsFraction fraction) (scaled : IsExponent exponent) (negative : Bool) :
    ∃ digits scale, ofUnsigned? negative (whole ++ (fraction ++ exponent)) =
      some (ofDecimal negative digits scale) := by
  obtain ⟨scale, spelled⟩ := exists_exponentSpelled scaled
  have read := ofDigits?_of_spelled integral fractional spelled negative
  obtain ⟨digit, others, rfl⟩ := List.exists_cons_of_ne_nil integral.1
  rw [List.cons_append] at read ⊢
  rw [ofUnsigned?_of_isDigit (integral.2 digit List.mem_cons_self), read]
  exact ⟨_, _, rfl⟩

/-- Every numeral is read as a decimal number. -/
theorem exists_parse_of_isNumeral {text : List Char} (numeral : IsNumeral text) :
    ∃ negative digits scale, parse text = .ok (ofDecimal negative digits scale) := by
  cases numeral with
  | unsigned integral fractional scaled =>
    obtain ⟨digits, scale, read⟩ := exists_ofUnsigned? integral fractional scaled false
    obtain ⟨digit, others, rfl⟩ := List.exists_cons_of_ne_nil integral.1
    refine ⟨false, digits, scale, ?_⟩
    rw [List.cons_append] at read ⊢
    rw [parse_of_isDigit (integral.2 digit List.mem_cons_self), read]
    rfl
  | negative integral fractional scaled =>
    obtain ⟨digits, scale, read⟩ := exists_ofUnsigned? integral fractional scaled true
    refine ⟨true, digits, scale, ?_⟩
    rw [parse, read]
    rfl

theorem ofDecimal_ne_nan (negative : Bool) (digits : Nat) (exponent : Int) :
    ofDecimal negative digits exponent ≠ .nan := by
  unfold ofDecimal
  split <;> exact nofun

end Double

/-- A token of a float is converted to a number. -/
theorem Argument.exists_toFloat {literal : String}
    (found : (readToken literal.toList).kind = .float)
    (whole : (readToken literal.toList).rest = []) :
    ∃ value, (mk .float literal).toFloat = .ok value ∧ value ≠ .nan := by
  obtain ⟨numeral, -⟩ := isNumeral_of_readToken found (by decide) whole
  obtain ⟨negative, digits, exponent, parsed⟩ := Double.exists_parse_of_isNumeral numeral
  refine ⟨_, ?_, Double.ofDecimal_ne_nan negative digits exponent⟩
  rw [toFloat, if_neg (not_not_intro rfl), parsed]
  rfl

/-- No argument that is a token fails to be converted for its text. -/
theorem Argument.WellFormed.toFloat_ne {argument : Argument} (wellFormed : argument.WellFormed)
    (literal : String) (fault : FloatFault) : argument.toFloat ≠ .error (.float literal fault) := by
  obtain ⟨kind, text⟩ := argument
  have scanned := wellFormed.scanned
  rw [Transcript.tokens_ofString, tokens_eq_singleton_iff] at scanned
  obtain ⟨-, -, found, whole⟩ := scanned
  by_cases float : kind = .float
  · subst float
    obtain ⟨value, converted, -⟩ := exists_toFloat found whole
    rw [converted]
    exact nofun
  · rw [toFloat, if_pos float]
    exact nofun

/-- A float is converted to a number, and no argument of a parser is refused as a float. -/
theorem Scanner.toFloat_of_scans :
    (∀ {σ : Type} [CharSource σ] [Viewed σ] {source : σ} {view : View}, Shows source view →
      ∀ {flags : List Bool} {token : Scanned}, token ∈ scans flags source → token.kind = .float →
        ∃ value, (Argument.mk token.kind token.literal).toFloat = .ok value ∧ value ≠ .nan) ∧
      ∀ (input : Input) (argument : Argument), input.parser.Yields argument →
        ∀ literal fault, argument.toFloat ≠ .error (.float literal fault) := by
  constructor
  · intro σ _ _ source view shown flags token present float
    rw [scans_eq shown] at present
    obtain ⟨found, whole⟩ := View.readToken_of_mem_scans present
    rw [float]
    exact Argument.exists_toFloat (found.trans float) whole
  · intro input argument yields
    exact (yields.wellFormed input.lexed).toFloat_ne

/-- A point may be followed by an exponent at once, and a refused token changes nothing. -/
theorem Scanner.toFloat_of_scans_pointed :
    let token : Scanned := ⟨.float, "-0.e+00", 0, 0⟩
    let input : Input := .text ";001.)"
    let argument : Argument := ⟨.float, "001."⟩
    token ∈ scans [false] (TextSource.ofString token.literal) ∧
      (Argument.mk .float token.literal).toFloat = .ok (.finite true ⟨0, -1074⟩) ∧
      (∃ value, (Argument.mk .float token.literal).toFloat = .ok value ∧ value ≠ .nan) ∧
      input.parser.Yields argument ∧
      argument.toFloat = .ok (.finite false ⟨leadingBit, -52⟩) ∧
      ∀ literal fault, argument.toFloat ≠ .error (.float literal fault) := by
  intro token input argument
  have present : token ∈ scans [false] (TextSource.ofString token.literal) := by
    have read : scans [false] (TextSource.ofString token.literal) = [token] := by cbv
    rw [read]
    exact List.mem_cons_self
  have listed : (Parser.Step.definition.perform input.parser).2.arguments.1 = .ok [argument] := by
    cbv
  have yields : input.parser.Yields argument :=
    .later .definition (.arguments (Prod.ext listed rfl) List.mem_cons_self)
  exact ⟨present, by decide +kernel,
    toFloat_of_scans.1 (TextSource.ofList_shows _) present rfl, yields, by decide +kernel,
    toFloat_of_scans.2 input argument yields⟩

end Fluent
