/-
This file holds the part of a text in memory that a source has not read.
-/

import Fluent.Proofs.Source.View

namespace Fluent

/-- A text that has read `earlier` tokens and what there is of the current one. -/
structure TextSource.Shows (source : TextSource) (view : View) : Prop where
  past : ∃ earlier, source.past = view.token.reverse ++ earlier ∧
    earlier.length = source.startCount
  rest : source.rest = view.ahead
  start : source.start = view.byteStart
  startCount : source.startCount = view.charStart
  offset : source.offset = source.start + Utf8.size view.token
  count : source.count = source.startCount + view.token.length
  tail : view.tail = .sound

namespace TextSource.Shows

variable {source : TextSource} {view : View}

theorem read (shown : source.Shows view) :
    source.read.1 = view.read.1 ∧ source.read.2.Shows view.read.2 := by
  obtain ⟨earlier, past, length⟩ := shown.past
  cases ahead : view.ahead with
  | nil =>
    rw [TextSource.read, shown.rest, ahead, View.read_nil ahead, shown.tail]
    exact ⟨rfl, ⟨earlier, past, length⟩, ahead.symm, shown.start, shown.startCount,
      shown.offset, shown.count, rfl⟩
  | cons character rest =>
    rw [TextSource.read, shown.rest, ahead, View.read_cons ahead]
    refine ⟨rfl, ⟨earlier, ?_, length⟩, rfl, shown.start, shown.startCount, ?_, ?_, shown.tail⟩
    · simp [past]
    · simp [shown.offset, Nat.add_assoc]
    · simp [shown.count, Nat.add_assoc]

theorem unread (shown : source.Shows view) (found : source.read.1 ≠ none) :
    source.read.2.unread.Shows view := by
  unfold TextSource.read at *
  split
  next ended => simp [ended] at found
  next character rest ahead =>
    have wide : character.utf8Size ≠ 0 := Nat.ne_of_gt character.utf8Size_pos
    rw [TextSource.unread, if_neg wide]
    exact ⟨shown.past, ahead.symm.trans shown.rest, shown.start, shown.startCount,
      by simp [shown.offset], by simp [shown.count], shown.tail⟩

theorem startToken (shown : source.Shows view) : source.startToken.Shows view.startToken := by
  obtain ⟨earlier, past, length⟩ := shown.past
  refine ⟨⟨source.past, rfl, ?_⟩, shown.rest, ?_, ?_, rfl, rfl, shown.tail⟩
  · rw [TextSource.startToken, past, shown.count]
    simp [length, Nat.add_comm]
  · exact shown.offset.trans (shown.start ▸ rfl)
  · exact shown.count.trans (shown.startCount ▸ rfl)

theorem tokenText (shown : source.Shows view) :
    source.tokenText = String.ofList view.token := by
  obtain ⟨earlier, past, -⟩ := shown.past
  rw [TextSource.tokenText, shown.count, past, Nat.add_sub_cancel_left, ← List.length_reverse,
    List.take_left, List.reverse_reverse]

end TextSource.Shows

instance : Viewed TextSource where
  Shows := TextSource.Shows
  read := TextSource.Shows.read
  unread := TextSource.Shows.unread
  startToken := TextSource.Shows.startToken
  tokenText := TextSource.Shows.tokenText
  byteOffset shown := shown.start
  charOffset shown := shown.startCount
  takeFault shown := by
    rw [View.takeFault, shown.tail]
    exact ⟨rfl, shown⟩

/-- The view of a text of which nothing has been read. -/
def View.ofText (text : List Char) : View :=
  ⟨[], text, 0, 0, .sound⟩

theorem TextSource.ofList_shows (text : List Char) :
    Viewed.Shows (TextSource.ofList text) (View.ofText text) :=
  TextSource.Shows.mk ⟨[], rfl, rfl⟩ rfl rfl rfl rfl rfl rfl

/-- The tokens of a text, as the parser gets them. -/
theorem Transcript.tokens_ofString (text : String) :
    (Transcript.ofSource (TextSource.ofString text)).tokens = Lexer.tokens text.toList :=
  Transcript.tokens_ofSource (TextSource.ofList_shows text.toList)

end Fluent
