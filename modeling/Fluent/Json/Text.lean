/-
This file holds the quoted texts of JSON, their items and their escapes.
-/

namespace Fluent.Json

/-- One item between the quotes of a text. -/
inductive Item where
  | plain (character : Char)
  /-- A backslash and a letter or sign, as the character that they stand for. -/
  | escaped (character : Char)
  /-- A `\u` escape, as the 16-bit unit that it holds. -/
  | unit (value : Nat)
  deriving DecidableEq, Repr

/-- The character that a letter or sign stands for after a backslash. -/
def escapeValue? : Char → Option Char
  | '"' => some '"'
  | '\\' => some '\\'
  | '/' => some '/'
  | 'b' => some '\x08'
  | 'f' => some '\x0c'
  | 'n' => some '\n'
  | 'r' => some '\r'
  | 't' => some '\t'
  | _ => none

def hexValue? (character : Char) : Option Nat :=
  if '0' ≤ character ∧ character ≤ '9' then some (character.toNat - '0'.toNat)
  else if 'a' ≤ character ∧ character ≤ 'f' then some (character.toNat - 'a'.toNat + 10)
  else if 'A' ≤ character ∧ character ≤ 'F' then some (character.toNat - 'A'.toNat + 10)
  else none

/-- The unit that four hexadecimal digits spell. -/
def unitValue? (first second third fourth : Char) : Option Nat :=
  match hexValue? first, hexValue? second, hexValue? third, hexValue? fourth with
  | some first, some second, some third, some fourth =>
    some (((first * 16 + second) * 16 + third) * 16 + fourth)
  | _, _, _, _ => none

/-- Puts an item before what was read behind it. -/
def addItem (item : Item) : Option (List Item × List Char) → Option (List Item × List Char)
  | some (items, rest) => some (item :: items, rest)
  | none => none

/-- The items up to and with the closing quote, and what follows it. -/
def readItems : List Char → Option (List Item × List Char)
  | [] => none
  | '"' :: rest => some ([], rest)
  | '\\' :: 'u' :: first :: second :: third :: fourth :: rest =>
    match unitValue? first second third fourth with
    | some value => addItem (.unit value) (readItems rest)
    | none => none
  | '\\' :: mark :: rest =>
    match escapeValue? mark with
    | some character => addItem (.escaped character) (readItems rest)
    | none => none
  | character :: rest =>
    if character = '\\' ∨ character.toNat < 0x20 then none
    else addItem (.plain character) (readItems rest)

def isHighSurrogate (unit : Nat) : Bool :=
  0xD800 ≤ unit && unit ≤ 0xDBFF

def isLowSurrogate (unit : Nat) : Bool :=
  0xDC00 ≤ unit && unit ≤ 0xDFFF

/-- The character beyond the 16-bit units that a pair of surrogates stands for. -/
def combine (high low : Nat) : Char :=
  Char.ofNat (0x10000 + (high - 0xD800) * 0x400 + (low - 0xDC00))

/-- The characters that items stand for. Surrogates that are no pair stand for nothing. -/
def decodeItems : List Item → Option (List Char)
  | [] => some []
  | .plain character :: rest => (decodeItems rest).map (character :: ·)
  | .escaped character :: rest => (decodeItems rest).map (character :: ·)
  | .unit high :: .unit low :: rest =>
    if isHighSurrogate high then
      if isLowSurrogate low then (decodeItems rest).map (combine high low :: ·) else none
    else if isLowSurrogate high then none
    else (decodeItems (.unit low :: rest)).map (Char.ofNat high :: ·)
  | .unit value :: rest =>
    if isHighSurrogate value || isLowSurrogate value then none
    else (decodeItems rest).map (Char.ofNat value :: ·)

/-- A text from its items. -/
def textOfItems (items : List Item) : Option String :=
  (decodeItems items).map String.ofList

/-- The quote, the backslash and the control characters are escaped between quotes. -/
def escape (character : Char) : List Char :=
  match character with
  | '"' => ['\\', '"']
  | '\\' => ['\\', '\\']
  | '\x08' => ['\\', 'b']
  | '\x0c' => ['\\', 'f']
  | '\n' => ['\\', 'n']
  | '\r' => ['\\', 'r']
  | '\t' => ['\\', 't']
  | _ =>
    if character.toNat < 0x20 then
      ['\\', 'u', '0', '0', Nat.digitChar (character.toNat / 16),
        Nat.digitChar (character.toNat % 16)]
    else [character]

def quote (text : String) : String :=
  String.ofList ('"' :: text.toList.flatMap escape ++ ['"'])

end Fluent.Json
