/-
This file holds the byte form of text: the encoding of a text and the decoding of one character.
-/

namespace Fluent.Utf8

/-- The number of bytes that a text takes. -/
def size : List Char → Nat
  | [] => 0
  | character :: text => character.utf8Size + size text

def encode (text : List Char) : List UInt8 :=
  text.flatMap String.utf8EncodeChar

@[simp] theorem size_nil : size [] = 0 := rfl

@[simp] theorem size_cons (character : Char) (text : List Char) :
    size (character :: text) = character.utf8Size + size text := rfl

@[simp] theorem size_append (first second : List Char) :
    size (first ++ second) = size first + size second := by
  induction first with
  | nil => simp
  | cons character text hypothesis => simp [hypothesis, Nat.add_assoc]

@[simp] theorem encode_nil : encode [] = [] := rfl

@[simp] theorem encode_cons (character : Char) (text : List Char) :
    encode (character :: text) = String.utf8EncodeChar character ++ encode text := rfl

@[simp] theorem encode_append (first second : List Char) :
    encode (first ++ second) = encode first ++ encode second := by
  simp [encode]

@[simp] theorem length_encode (text : List Char) : (encode text).length = size text := by
  induction text with
  | nil => rfl
  | cons character text hypothesis => simp [hypothesis]

/-- How many bytes a character takes, told by its first byte; `none` if no character starts so. -/
def leadWidth (lead : UInt8) : Option Nat :=
  if lead ≤ 0x7F then some 1
  else if 0xC2 ≤ lead ∧ lead ≤ 0xDF then some 2
  else if 0xE0 ≤ lead ∧ lead ≤ 0xEF then some 3
  else if 0xF0 ≤ lead ∧ lead ≤ 0xF4 then some 4
  else none

theorem leadWidth_ne_zero (lead : UInt8) : leadWidth lead ≠ some 0 := by
  unfold leadWidth
  grind

def isTail (byte : UInt8) : Bool :=
  0x80 ≤ byte && byte ≤ 0xBF

/-- Overlong forms, surrogates and what lies past the last code point end at the second byte. -/
def isSecond (lead byte : UInt8) : Bool :=
  if lead = 0xE0 then 0xA0 ≤ byte && byte ≤ 0xBF
  else if lead = 0xED then 0x80 ≤ byte && byte ≤ 0x9F
  else if lead = 0xF0 then 0x90 ≤ byte && byte ≤ 0xBF
  else if lead = 0xF4 then 0x80 ≤ byte && byte ≤ 0x8F
  else isTail byte

/-- The six bits that a continuation byte carries. -/
def tailBits (byte : UInt8) : Nat :=
  byte.toNat % 64

/-- One character is decoded, or the length before the first wrong byte is the error. -/
def decodeOne : List UInt8 → Except Nat Char
  | [lead] => .ok (Char.ofNat lead.toNat)
  | [lead, second] =>
    if !isSecond lead second then .error 1
    else .ok (Char.ofNat (lead.toNat % 32 * 64 + tailBits second))
  | [lead, second, third] =>
    if !isSecond lead second then .error 1
    else if !isTail third then .error 2
    else .ok (Char.ofNat (lead.toNat % 16 * 4096 + tailBits second * 64 + tailBits third))
  | [lead, second, third, fourth] =>
    if !isSecond lead second then .error 1
    else if !isTail third then .error 2
    else if !isTail fourth then .error 3
    else .ok (Char.ofNat (lead.toNat % 8 * 262144 + tailBits second * 4096 + tailBits third * 64
      + tailBits fourth))
  | _ => .error 0

end Fluent.Utf8
