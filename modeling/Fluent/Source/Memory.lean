/-
This file holds the source over a text that is wholly in memory.
-/

import Fluent.Source
import Fluent.Text.Utf8

namespace Fluent

/-- A text, cut at the next character to read. -/
structure TextSource where
  /-- The characters read, the latest first. -/
  past : List Char
  rest : List Char
  /-- The start of the token, in bytes and in characters. -/
  start : Nat
  startCount : Nat
  /-- The length of `past`, in bytes and in characters. -/
  offset : Nat
  count : Nat
  /-- The width of the character that can be taken back, or zero. -/
  lastWidth : Nat
  deriving DecidableEq, Repr

namespace TextSource

def ofList (text : List Char) : TextSource :=
  ⟨[], text, 0, 0, 0, 0, 0⟩

def ofString (text : String) : TextSource :=
  ofList text.toList

def read (source : TextSource) : Option Char × TextSource :=
  match source.rest with
  | [] => (none, { source with lastWidth := 0 })
  | character :: rest =>
    (some character,
      { source with
        past := character :: source.past
        rest := rest
        offset := source.offset + character.utf8Size
        count := source.count + 1
        lastWidth := character.utf8Size })

def unread (source : TextSource) : TextSource :=
  if source.lastWidth = 0 then source
  else match source.past with
    | [] => source
    | character :: past =>
      { source with
        past := past
        rest := character :: source.rest
        offset := source.offset - source.lastWidth
        count := source.count - 1
        lastWidth := 0 }

def startToken (source : TextSource) : TextSource :=
  { source with start := source.offset, startCount := source.count }

def tokenText (source : TextSource) : String :=
  String.ofList (source.past.take (source.count - source.startCount)).reverse

end TextSource

instance : CharSource TextSource where
  read := TextSource.read
  unread := TextSource.unread
  startToken := TextSource.startToken
  tokenText := TextSource.tokenText
  byteOffset source := source.start
  charOffset source := source.startCount
  takeFault source := (none, source)
  remaining source := source.rest.length
  remaining_read_lt source found := by
    unfold TextSource.read at *
    split at found <;> simp_all
  remaining_read_le source := by
    unfold TextSource.read
    split <;> simp_all
  remaining_unread_le source found := by
    unfold TextSource.read TextSource.unread at *
    split at found <;> grind
  remaining_startToken_le _ := Nat.le_refl _
  remaining_takeFault_lt _ found := absurd rfl found
  remaining_takeFault_le _ := Nat.le_refl _

end Fluent
