/-
This file holds the grammar of JSON texts: which characters spell which tree.
-/

import Fluent.Json.Tree
import Fluent.Text.Utf8

namespace Fluent.Json

/-- `ws` -/
def Spaces (text : List Char) : Prop :=
  ∀ character ∈ text, character ∈ [' ', '\t', '\n', '\r']

theorem Spaces.nil : Spaces [] := by
  simp [Spaces]

theorem Spaces.singleton {character : Char} (blank : character ∈ [' ', '\t', '\n', '\r']) :
    Spaces [character] :=
  List.forall_mem_singleton.2 blank

/-- `DIGIT`, in the order of their values -/
def decimalDigits : List Char :=
  ['0', '1', '2', '3', '4', '5', '6', '7', '8', '9']

/-- `HEXDIG`, in either case -/
inductive HexSpelled (value : Nat) (digit : Char) : Prop
  | lower (place : (decimalDigits ++ ['a', 'b', 'c', 'd', 'e', 'f'])[value]? = some digit)
  | upper (place : (decimalDigits ++ ['A', 'B', 'C', 'D', 'E', 'F'])[value]? = some digit)

/-- `4HEXDIG` -/
inductive UnitSpelled : Nat → List Char → Prop
  | digits {one two three four : Nat} {first second third fourth : Char}
      (thousands : HexSpelled one first) (hundreds : HexSpelled two second)
      (tens : HexSpelled three third) (ones : HexSpelled four fourth) :
      UnitSpelled (one * 0x1000 + two * 0x100 + three * 0x10 + four) [first, second, third, fourth]

/-- The character that a backslash and the sign or letter behind it stand for. -/
inductive EscapeSpelled : Char → Char → Prop
  | quotationMark : EscapeSpelled '"' '"'
  | reverseSolidus : EscapeSpelled '\\' '\\'
  | solidus : EscapeSpelled '/' '/'
  | backspace : EscapeSpelled '\x08' 'b'
  | formFeed : EscapeSpelled '\x0c' 'f'
  | lineFeed : EscapeSpelled '\n' 'n'
  | carriageReturn : EscapeSpelled '\r' 'r'
  | tab : EscapeSpelled '\t' 't'

/-- One character of a quoted text, as itself or escaped. -/
inductive Item.Spelled : Item → List Char → Prop
  | plain {character : Char} (printable : 0x20 ≤ character.toNat) (unquoted : character ≠ '"')
      (unescaped : character ≠ '\\') : Item.Spelled (.plain character) [character]
  | escaped {character mark : Char} (stands : EscapeSpelled character mark) :
      Item.Spelled (.escaped character) ['\\', mark]
  | unit {value : Nat} {text : List Char} (digits : UnitSpelled value text) :
      Item.Spelled (.unit value) ('\\' :: 'u' :: text)

/-- What stands between the quotes of a text. -/
inductive Item.AllSpelled : List Item → List Char → Prop
  | nil : Item.AllSpelled [] []
  | cons {item : Item} {items : List Item} {first rest : List Char}
      (spelled : Item.Spelled item first) (others : Item.AllSpelled items rest) :
      Item.AllSpelled (item :: items) (first ++ rest)

/-- `1*DIGIT` -/
inductive DigitsSpelled : List Nat → List Char → Prop
  | last {digit : Nat} {character : Char} (place : decimalDigits[digit]? = some character) :
      DigitsSpelled [digit] [character]
  | more {digit : Nat} {character : Char} {digits : List Nat} {text : List Char}
      (place : decimalDigits[digit]? = some character) (others : DigitsSpelled digits text) :
      DigitsSpelled (digit :: digits) (character :: text)

/-- `int = zero / ( digit1-9 *DIGIT )` -/
inductive WholeSpelled : List Nat → List Char → Prop
  | zero : WholeSpelled [0] ['0']
  | digits {digits : List Nat} {text : List Char} (spelled : DigitsSpelled digits text)
      (leading : text.head? ≠ some '0') : WholeSpelled digits text

/-- `[ frac ]` -/
inductive FractionSpelled : List Nat → List Char → Prop
  | none : FractionSpelled [] []
  | point {digits : List Nat} {text : List Char} (spelled : DigitsSpelled digits text) :
      FractionSpelled digits ('.' :: text)

/-- `[ exp ]` -/
inductive ExponentSpelled : Option Int → List Char → Prop
  | none : ExponentSpelled none []
  | unsigned {mark : Char} {digits : List Nat} {text : List Char} (marked : mark ∈ ['e', 'E'])
      (spelled : DigitsSpelled digits text) :
      ExponentSpelled (some (Digits.value digits : Int)) (mark :: text)
  | plus {mark : Char} {digits : List Nat} {text : List Char} (marked : mark ∈ ['e', 'E'])
      (spelled : DigitsSpelled digits text) :
      ExponentSpelled (some (Digits.value digits : Int)) (mark :: '+' :: text)
  | minus {mark : Char} {digits : List Nat} {text : List Char} (marked : mark ∈ ['e', 'E'])
      (spelled : DigitsSpelled digits text) :
      ExponentSpelled (some (-(Digits.value digits : Int))) (mark :: '-' :: text)

/-- `number = [ minus ] int [ frac ] [ exp ]` -/
inductive Numeral.Spelled : Numeral → List Char → Prop
  | numeral {negative : Bool} {whole fraction : List Nat} {exponent : Option Int}
      {first second third : List Char} (integral : WholeSpelled whole first)
      (fractional : FractionSpelled fraction second)
      (scaled : ExponentSpelled exponent third) :
      Numeral.Spelled ⟨negative, whole, fraction, exponent⟩
        ((if negative then ['-'] else []) ++ (first ++ (second ++ third)))

/-- The phrases of a text. -/
inductive Phrase where
  | value (tree : Tree)
  /-- A value and the blanks around it, which is what a whole text is. -/
  | padded (tree : Tree)
  /-- The elements of an array, at least one. -/
  | elements (trees : List Tree)
  | member (key : List Item) (tree : Tree)
  /-- The members of an object, at least one. -/
  | members (entries : List (List Item × Tree))

/-- The characters that spell a phrase. -/
inductive Phrase.Spelled : Phrase → List Char → Prop
  | null : Phrase.Spelled (.value .null) ['n', 'u', 'l', 'l']
  | trueWord : Phrase.Spelled (.value (.boolean true)) ['t', 'r', 'u', 'e']
  | falseWord : Phrase.Spelled (.value (.boolean false)) ['f', 'a', 'l', 's', 'e']
  | number {numeral : Numeral} {text : List Char} (spelled : numeral.Spelled text) :
      Phrase.Spelled (.value (.number numeral)) text
  | text {items : List Item} {text : List Char} (spelled : Item.AllSpelled items text) :
      Phrase.Spelled (.value (.text items)) ('"' :: (text ++ ['"']))
  | emptyArray {text : List Char} (blank : Spaces text) :
      Phrase.Spelled (.value (.array [])) ('[' :: (text ++ [']']))
  | array {trees : List Tree} {text : List Char} (spelled : Phrase.Spelled (.elements trees) text) :
      Phrase.Spelled (.value (.array trees)) ('[' :: (text ++ [']']))
  | emptyObject {text : List Char} (blank : Spaces text) :
      Phrase.Spelled (.value (.object [])) ('\x7b' :: (text ++ ['\x7d']))
  | object {entries : List (List Item × Tree)} {text : List Char}
      (spelled : Phrase.Spelled (.members entries) text) :
      Phrase.Spelled (.value (.object entries)) ('\x7b' :: (text ++ ['\x7d']))
  | padded {tree : Tree} {before text after : List Char} (leading : Spaces before)
      (spelled : Phrase.Spelled (.value tree) text) (trailing : Spaces after) :
      Phrase.Spelled (.padded tree) (before ++ (text ++ after))
  | lastElement {tree : Tree} {text : List Char} (spelled : Phrase.Spelled (.padded tree) text) :
      Phrase.Spelled (.elements [tree]) text
  | element {tree : Tree} {trees : List Tree} {text rest : List Char}
      (spelled : Phrase.Spelled (.padded tree) text)
      (others : Phrase.Spelled (.elements trees) rest) :
      Phrase.Spelled (.elements (tree :: trees)) (text ++ ',' :: rest)
  | member {key : List Item} {tree : Tree} {before quoted between text : List Char}
      (leading : Spaces before) (named : Item.AllSpelled key quoted) (trailing : Spaces between)
      (spelled : Phrase.Spelled (.padded tree) text) :
      Phrase.Spelled (.member key tree)
        (before ++ '"' :: (quoted ++ '"' :: (between ++ ':' :: text)))
  | lastMember {key : List Item} {tree : Tree} {text : List Char}
      (spelled : Phrase.Spelled (.member key tree) text) :
      Phrase.Spelled (.members [(key, tree)]) text
  | moreMembers {key : List Item} {tree : Tree} {entries : List (List Item × Tree)}
      {text rest : List Char} (spelled : Phrase.Spelled (.member key tree) text)
      (others : Phrase.Spelled (.members entries) rest) :
      Phrase.Spelled (.members ((key, tree) :: entries)) (text ++ ',' :: rest)

/-- `JSON-text = ws value ws` -/
def Tree.Spelled (tree : Tree) (text : List Char) : Prop :=
  Phrase.Spelled (.padded tree) text

/-- Bytes that are a JSON text for the given tree. -/
def Tree.Encoded (tree : Tree) (bytes : List UInt8) : Prop :=
  ∃ text, tree.Spelled text ∧ Utf8.encode text = bytes

end Fluent.Json
