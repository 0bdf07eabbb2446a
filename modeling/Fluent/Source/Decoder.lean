/-
This file holds the source that decodes UTF-8 from a reader, with only the token in memory.
-/

import Fluent.Source
import Fluent.Source.Reader
import Fluent.Text.Utf8

namespace Fluent

structure ByteSource where
  reader : Reader
  /-- The characters of the token, the latest first. -/
  token : List Char
  /-- A character that was taken back and comes again before the reader's next one. -/
  pushedBack : Option Char
  /-- The character that can be taken back. -/
  last : Option Char
  /-- The start of the token, in bytes and in characters. -/
  start : Nat
  startCount : Nat
  /-- The bytes and the characters read so far. -/
  offset : Nat
  count : Nat
  /-- Whether a fault has ended the input. -/
  failed : Bool
  /-- The fault, until it is reported. -/
  fault : Option Fault
  deriving DecidableEq, Repr

namespace ByteSource

def ofReader (reader : Reader) : ByteSource :=
  ⟨reader, [], none, none, 0, 0, 0, 0, false, none⟩

/-- The next character is decoded; `position` is reported for a byte that starts none. -/
def decode (position : Nat) (reader : Reader) : Except Fault (Option Char) × Reader :=
  match reader.peek with
  | (.error fault, after) => (.error fault, after)
  | (.ok none, after) => (.ok none, after)
  | (.ok (some lead), after) =>
    match Utf8.leadWidth lead with
    | none => (.error (.invalidLead lead position), after)
    | some width =>
      match after.take width with
      | (.error fault, after) => (.error fault, after)
      | (.ok bytes, after) =>
        match Utf8.decodeOne bytes with
        | .error length => (.error (.invalidTail length), after)
        | .ok character => (.ok (some character), after)

/-- Records the character that a read delivers. -/
def deliver (character : Char) (source : ByteSource) : ByteSource :=
  { source with
    token := character :: source.token
    last := some character
    offset := source.offset + character.utf8Size
    count := source.count + 1 }

def read (source : ByteSource) : Option Char × ByteSource :=
  match source.pushedBack with
  | some character =>
    (some character, deliver character { source with pushedBack := none })
  | none =>
    if source.failed then (none, { source with last := none })
    else match decode source.offset source.reader with
      | (.ok (some character), reader) =>
        (some character, deliver character { source with reader := reader })
      | (.ok none, reader) => (none, { source with reader := reader, last := none })
      | (.error fault, reader) =>
        (none, { source with reader := reader, last := none, failed := true, fault := some fault })

def unread (source : ByteSource) : ByteSource :=
  match source.last with
  | none => source
  | some character =>
    { source with
      token := source.token.tail
      pushedBack := some character
      last := none
      offset := source.offset - character.utf8Size
      count := source.count - 1 }

def startToken (source : ByteSource) : ByteSource :=
  { source with token := [], start := source.offset, startCount := source.count }

def tokenText (source : ByteSource) : String :=
  String.ofList source.token.reverse

def takeFault (source : ByteSource) : Option Fault × ByteSource :=
  (source.fault, { source with fault := none })

/-- Counts bytes to decode, a character taken back, and a fault that may still come. -/
def remaining (source : ByteSource) : Nat :=
  source.reader.remaining + (if source.pushedBack.isSome then 1 else 0)
    + (if source.failed then 0 else 1) + (if source.fault.isSome then 1 else 0)

/-- Every decoded character takes at least one byte from the reader. -/
theorem remaining_decode_lt {position : Nat} {reader after : Reader} {character : Char}
    (decoded : decode position reader = (.ok (some character), after)) :
    after.remaining < reader.remaining := by
  have peeked := Reader.remaining_peek reader
  unfold decode at decoded
  grind [Reader.remaining_take_add, Utf8.leadWidth_ne_zero]

theorem remaining_decode_le (position : Nat) (reader : Reader) :
    (decode position reader).2.remaining ≤ reader.remaining := by
  have peeked := Reader.remaining_peek reader
  unfold decode
  grind [Reader.remaining_take_le]

@[simp] theorem remaining_deliver (character : Char) (source : ByteSource) :
    (deliver character source).remaining = source.remaining := rfl

theorem remaining_read_le (source : ByteSource) :
    source.read.2.remaining ≤ source.remaining := by
  have decoded := remaining_decode_le source.offset source.reader
  unfold read
  grind [remaining, deliver]

theorem remaining_unread_deliver (character : Char) (source : ByteSource) :
    (deliver character source).unread.remaining ≤ source.remaining + 1 := by
  simp only [deliver, unread, remaining, Option.isSome_some, if_true]
  grind

/-- A read that finds a character delivers it on top of a source that has less left. -/
theorem read_eq_deliver (source : ByteSource) (found : source.read.1 ≠ none) :
    ∃ character before, source.read = (some character, deliver character before) ∧
      before.remaining < source.remaining := by
  unfold read at *
  split at found
  next character pushed =>
    exact ⟨character, _, rfl, by simp [remaining, pushed]⟩
  next nothing =>
    split at found
    · exact absurd rfl found
    · next failed =>
      split at found
      · next character reader decoded =>
        refine ⟨character, _, if_neg failed, ?_⟩
        have smaller := remaining_decode_lt decoded
        simp only [remaining]
        omega
      · exact absurd rfl found
      · exact absurd rfl found

theorem remaining_read_lt (source : ByteSource) (found : source.read.1 ≠ none) :
    source.read.2.remaining < source.remaining := by
  obtain ⟨character, before, delivered, smaller⟩ := source.read_eq_deliver found
  simpa [delivered] using smaller

theorem remaining_unread_read_le (source : ByteSource) (found : source.read.1 ≠ none) :
    source.read.2.unread.remaining ≤ source.remaining := by
  obtain ⟨character, before, delivered, smaller⟩ := source.read_eq_deliver found
  have undone := remaining_unread_deliver character before
  rw [delivered]
  exact Nat.le_trans undone smaller

theorem remaining_takeFault_lt (source : ByteSource) (found : source.takeFault.1 ≠ none) :
    source.takeFault.2.remaining < source.remaining := by
  obtain ⟨fault, pending⟩ := Option.ne_none_iff_exists'.1 found
  simp only [takeFault] at pending
  simp [takeFault, remaining, pending]

end ByteSource

instance : CharSource ByteSource where
  read := ByteSource.read
  unread := ByteSource.unread
  startToken := ByteSource.startToken
  tokenText := ByteSource.tokenText
  byteOffset source := source.start
  charOffset source := source.startCount
  takeFault := ByteSource.takeFault
  remaining := ByteSource.remaining
  remaining_read_lt source found := source.remaining_read_lt found
  remaining_read_le := ByteSource.remaining_read_le
  remaining_unread_le source found := source.remaining_unread_read_le found
  remaining_startToken_le _ := Nat.le_refl _
  remaining_takeFault_lt source found := source.remaining_takeFault_lt found
  remaining_takeFault_le source := by
    unfold ByteSource.takeFault ByteSource.remaining
    grind

end Fluent
