/-
This file holds the characters that a source of bytes will still deliver.
-/

import Fluent.Proofs.Source.View
import Fluent.Source.Decoder

namespace Fluent

/-- A reader that has come to its end stays there. -/
theorem Reader.peek_of_ended {reader after : Reader} (ended : reader.peek = (.ok none, after)) :
    after.peek = (.ok none, after) := by
  obtain ⟨capacity, positive, buffer, pending, ending⟩ := reader
  cases buffer with
  | cons byte buffer => simp [peek, refill] at ended
  | nil =>
    simp only [peek, refill] at ended
    split at ended
    · simp at ended
    next empty =>
      cases pending with
      | cons byte pending =>
        cases capacity with
        | zero => exact absurd positive (Nat.lt_irrefl 0)
        | succ capacity => simp at empty
      | nil =>
        cases ending with
        | finished =>
          obtain ⟨-, rfl⟩ := Prod.mk.inj ended
          simp [peek, refill]
        | failing fault => simp at ended

namespace ByteSource

/-- The characters that a reader still gives, and the fault that they end with, if any. -/
def upcoming (position : Nat) (reader : Reader) : List Char × Option Fault :=
  match _decoded : decode position reader with
  | (.ok none, _) => ([], none)
  | (.error fault, _) => ([], some fault)
  | (.ok (some character), after) =>
    let later := upcoming (position + character.utf8Size) after
    (character :: later.1, later.2)
termination_by reader.remaining
decreasing_by exact remaining_decode_lt _decoded

theorem upcoming_eq (position : Nat) (reader : Reader) :
    upcoming position reader =
      match decode position reader with
      | (.ok none, _) => ([], none)
      | (.error fault, _) => ([], some fault)
      | (.ok (some character), after) =>
        let later := upcoming (position + character.utf8Size) after
        (character :: later.1, later.2) := by
  rw [upcoming]
  split
  next ended => rw [ended]
  next failed => rw [failed]
  next found => rw [found]

theorem decode_of_ended {position : Nat} {reader after : Reader}
    (ended : decode position reader = (.ok none, after)) (later : Nat) :
    decode later after = (.ok none, after) := by
  have peeked : reader.peek = (.ok none, after) := by
    unfold decode at ended
    split at ended
    next => simp at ended
    next found =>
      obtain ⟨-, rfl⟩ := Prod.mk.inj ended
      exact found
    next lead rest found =>
      split at ended
      · simp at ended
      · split at ended
        · simp at ended
        · split at ended <;> simp at ended
  unfold decode
  rw [Reader.peek_of_ended peeked]

@[simp] theorem unread_deliver (character : Char) (source : ByteSource) :
    (deliver character source).unread =
      { source with pushedBack := some character, last := none } := by
  simp [deliver, unread]

end ByteSource

/-- The tail of an input that ends with the given fault, if any. -/
def Tail.ofFault : Option Fault → Tail
  | none => .sound
  | some fault => .broken fault

/-- The tail of an input that has ended with a fault. -/
def Tail.ofPending : Option Fault → Tail
  | none => .sound
  | some fault => .met fault

theorem View.takeFault_of_pending {view : View} {pending : Option Fault}
    (tail : view.tail = Tail.ofPending pending) :
    view.takeFault = (pending, { view with tail := .sound }) := by
  obtain ⟨token, ahead, byteStart, charStart, last⟩ := view
  cases tail
  cases pending <;> rfl

theorem View.takeFault_of_fault {view : View} {fault : Option Fault}
    (tail : view.tail = Tail.ofFault fault) : view.takeFault = (none, view) := by
  rw [View.takeFault, tail]
  cases fault <;> rfl

/-- What a source that decodes bytes has still to deliver. -/
structure ByteSource.Shows (source : ByteSource) (view : View) : Prop where
  token : source.token = view.token.reverse
  start : source.start = view.byteStart
  startCount : source.startCount = view.charStart
  offset : source.offset = source.start + Utf8.size view.token
  count : source.count = source.startCount + view.token.length
  ahead : view.ahead = source.pushedBack.toList ++
    if source.failed then []
    else (upcoming (source.offset + Utf8.size source.pushedBack.toList) source.reader).1
  tail : view.tail =
    if source.failed then Tail.ofPending source.fault
    else Tail.ofFault
      (upcoming (source.offset + Utf8.size source.pushedBack.toList) source.reader).2
  faultless : source.failed = false → source.fault = none

namespace ByteSource.Shows

variable {source : ByteSource} {view : View}

theorem read (shown : source.Shows view) :
    source.read.1 = view.read.1 ∧ source.read.2.Shows view.read.2 := by
  obtain ⟨token, start, startCount, offset, count, ahead, tail, faultless⟩ := shown
  rw [ByteSource.read]
  cases pushed : source.pushedBack with
  | some character =>
    simp only [pushed, Option.toList_some, List.singleton_append, Utf8.size_cons, Utf8.size_nil,
      Nat.add_zero] at ahead tail
    rw [View.read_cons ahead]
    refine ⟨rfl, ?_, start, startCount, ?_, ?_, rfl, tail, faultless⟩
    · simp [deliver, token]
    · simp [deliver, offset, Nat.add_assoc]
    · simp [deliver, count, Nat.add_assoc]
  | none =>
    simp only [pushed, Option.toList_none, List.nil_append, Utf8.size_nil, Nat.add_zero]
      at ahead tail
    cases failed : source.failed with
    | true =>
      rw [failed, if_pos rfl] at ahead tail
      rw [View.read_nil ahead, tail]
      refine ⟨rfl, token, start, startCount, offset, count, ?_, ?_, ?_⟩
      · simpa [pushed, failed] using ahead
      · cases source.fault <;> simp [Tail.ofPending, Tail.reach]
      · simp
    | false =>
      rw [failed, if_neg Bool.false_ne_true, upcoming_eq] at ahead tail
      rcases decoded : decode source.offset source.reader with ⟨fault | _ | character, after⟩
      · simp only [decoded] at ahead tail
        rw [View.read_nil ahead, tail]
        refine ⟨rfl, token, start, startCount, offset, count, ?_, ?_, ?_⟩
        · simpa [pushed] using ahead
        · simp [Tail.ofPending, Tail.ofFault, Tail.reach]
        · simp
      · simp only [decoded] at ahead tail
        rw [View.read_nil ahead, tail]
        have stays := decode_of_ended decoded source.offset
        refine ⟨rfl, token, start, startCount, offset, count, ?_, ?_, ?_⟩
        · simpa [pushed, failed, upcoming_eq, stays] using ahead
        · simp [upcoming_eq, stays, Tail.ofFault, Tail.reach]
        · exact fun _ => faultless failed
      · simp only [decoded] at ahead tail
        rw [View.read_cons ahead]
        refine ⟨rfl, ?_, start, startCount, ?_, ?_, ?_, ?_, ?_⟩
        · simp [deliver, token]
        · simp [deliver, offset, Nat.add_assoc]
        · simp [deliver, count, Nat.add_assoc]
        · simp [deliver]
        · simpa [deliver, pushed, failed] using tail
        · exact fun _ => faultless failed

/-- A character that is taken back comes again, before all else. -/
theorem unread (shown : source.Shows view) (found : source.read.1 ≠ none) :
    source.read.2.unread.Shows view := by
  obtain ⟨token, start, startCount, offset, count, ahead, tail, faultless⟩ := shown
  rw [ByteSource.read] at found ⊢
  cases pushed : source.pushedBack with
  | some character =>
    dsimp only
    rw [unread_deliver]
    exact ⟨token, start, startCount, offset, count, by simpa [pushed] using ahead,
      by simpa [pushed] using tail, faultless⟩
  | none =>
    simp only [pushed, Option.toList_none, List.nil_append, Utf8.size_nil, Nat.add_zero]
      at ahead tail found ⊢
    cases failed : source.failed with
    | true => simp [failed] at found
    | false =>
      rw [failed, if_neg Bool.false_ne_true, upcoming_eq] at ahead tail
      rw [failed, if_neg Bool.false_ne_true] at found
      rcases decoded : decode source.offset source.reader with ⟨fault | _ | character, after⟩
      · simp [decoded] at found
      · simp [decoded] at found
      · simp only [decoded] at ahead tail ⊢
        rw [if_neg Bool.false_ne_true, unread_deliver]
        exact ⟨token, start, startCount, offset, count, by simpa [failed] using ahead,
          by simpa [failed] using tail, fun _ => faultless failed⟩

theorem startToken (shown : source.Shows view) : source.startToken.Shows view.startToken := by
  refine ⟨rfl, ?_, ?_, ?_, ?_, shown.ahead, shown.tail, shown.faultless⟩
  · exact shown.offset.trans (shown.start ▸ rfl)
  · exact shown.count.trans (shown.startCount ▸ rfl)
  · rfl
  · rfl

theorem tokenText (shown : source.Shows view) :
    source.tokenText = String.ofList view.token := by
  rw [ByteSource.tokenText, shown.token, List.reverse_reverse]

theorem takeFault (shown : source.Shows view) :
    source.takeFault.1 = view.takeFault.1 ∧ source.takeFault.2.Shows view.takeFault.2 := by
  obtain ⟨token, start, startCount, offset, count, ahead, tail, faultless⟩ := shown
  rw [ByteSource.takeFault]
  cases failed : source.failed with
  | true =>
    rw [failed, if_pos rfl] at ahead tail
    rw [View.takeFault_of_pending tail]
    refine ⟨rfl, token, start, startCount, offset, count, ?_, ?_, fun _ => rfl⟩
    · simpa [failed] using ahead
    · simp [Tail.ofPending]
  | false =>
    rw [failed, if_neg Bool.false_ne_true] at ahead tail
    rw [View.takeFault_of_fault tail]
    refine ⟨faultless failed, token, start, startCount, offset, count, ?_, ?_, fun _ => rfl⟩
    · simpa [failed] using ahead
    · simpa [failed] using tail

end ByteSource.Shows

instance : Viewed ByteSource where
  Shows := ByteSource.Shows
  read := ByteSource.Shows.read
  unread := ByteSource.Shows.unread
  startToken := ByteSource.Shows.startToken
  tokenText := ByteSource.Shows.tokenText
  byteOffset shown := shown.start
  charOffset shown := shown.startCount
  takeFault := ByteSource.Shows.takeFault

/-- The view of a reader of which nothing has been read. -/
def View.ofReader (reader : Reader) : View :=
  ⟨[], (ByteSource.upcoming 0 reader).1, 0, 0, Tail.ofFault (ByteSource.upcoming 0 reader).2⟩

theorem ByteSource.ofReader_shows (reader : Reader) :
    Viewed.Shows (ByteSource.ofReader reader) (View.ofReader reader) :=
  ByteSource.Shows.mk rfl rfl rfl rfl rfl rfl rfl fun _ => rfl

/-- The tokens of a reader's characters, as the parser gets them. -/
theorem Transcript.tokens_ofReader (reader : Reader) :
    (Transcript.ofSource (ByteSource.ofReader reader)).tokens =
      Lexer.tokens (ByteSource.upcoming 0 reader).1 :=
  Transcript.tokens_ofSource (ByteSource.ofReader_shows reader)

end Fluent
