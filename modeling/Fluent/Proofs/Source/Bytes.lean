/-
This file proves that a reader of the bytes of a text delivers its characters.
-/

import Fluent.Proofs.Source.ByteView
import Fluent.Proofs.Source.TextView
import Fluent.Proofs.Text.Utf8

namespace Fluent

/-- The fault of a reader that has used up its bytes, if it fails. -/
def Ending.fault? : Ending → Option Fault
  | .finished => none
  | .failing fault => some fault

namespace Reader

/-- The bytes that a reader still gives, whether or not they have reached its buffer. -/
def bytes (reader : Reader) : List UInt8 :=
  reader.buffer ++ reader.pending

theorem bytes_refill (reader : Reader) : reader.refill.bytes = reader.bytes := by
  obtain ⟨capacity, positive, _ | ⟨byte, buffer⟩, pending, ending⟩ := reader
  · exact List.take_append_drop capacity pending
  · rfl

theorem ending_refill (reader : Reader) : reader.refill.ending = reader.ending := by
  obtain ⟨capacity, positive, _ | ⟨byte, buffer⟩, pending, ending⟩ := reader <;> rfl

/-- A buffer that is empty after a refill has nothing behind it. -/
theorem bytes_of_buffer_refill {reader : Reader} (empty : reader.refill.buffer = []) :
    reader.bytes = [] := by
  obtain ⟨capacity, positive, _ | ⟨byte, buffer⟩, pending, ending⟩ := reader
  · simp only [refill, List.take_eq_nil_iff] at empty
    rcases empty with none | rfl
    · exact absurd none (Nat.ne_of_gt positive)
    · rfl
  · cases empty

/-- What comes next is in the buffer after a refill. -/
theorem buffer_refill {reader : Reader} {byte : UInt8} {rest : List UInt8}
    (split : reader.bytes = byte :: rest) :
    ∃ buffer, reader.refill.buffer = byte :: buffer ∧ buffer ++ reader.refill.pending = rest := by
  have whole := reader.bytes_refill
  rw [split] at whole
  cases filled : reader.refill.buffer with
  | nil =>
    rw [bytes_of_buffer_refill filled] at split
    cases split
  | cons first buffer =>
    rw [bytes, filled, List.cons_append] at whole
    obtain ⟨rfl, later⟩ := List.cons.inj whole
    exact ⟨buffer, rfl, later⟩

theorem peek_of_cons {reader : Reader} {byte : UInt8} {rest : List UInt8}
    (split : reader.bytes = byte :: rest) : reader.peek = (.ok (some byte), reader.refill) := by
  obtain ⟨buffer, filled, -⟩ := buffer_refill split
  rw [peek]
  simp only [filled]

theorem peek_of_nil {reader : Reader} (none : reader.bytes = []) :
    reader.peek =
      (match reader.ending.fault? with
        | .none => .ok .none
        | some fault => .error fault, reader.refill) := by
  have empty := reader.bytes_refill
  rw [none, bytes, List.append_eq_nil_iff] at empty
  rw [peek, ← reader.ending_refill]
  simp only [empty.1]
  cases reader.refill.ending <;> rfl

/-- Bytes are taken in order, however they are divided into blocks. -/
theorem take_of_append {first rest : List UInt8} {reader : Reader}
    (split : reader.bytes = first ++ rest) :
    ∃ after, reader.take first.length = (.ok first, after) ∧ after.bytes = rest ∧
      after.ending = reader.ending := by
  induction first generalizing reader with
  | nil => exact ⟨reader, rfl, split, rfl⟩
  | cons byte first hypothesis =>
    obtain ⟨buffer, filled, later⟩ := buffer_refill split
    obtain ⟨after, taken, left, ending⟩ :=
      @hypothesis { reader.refill with buffer := buffer } later
    refine ⟨after, ?_, left, ending.trans reader.ending_refill⟩
    rw [List.length_cons, take]
    simp only [filled, taken]

/-- Where the bytes do not suffice, the reader's fault is met, or else the end. -/
theorem take_of_length_lt {wanted : Nat} {reader : Reader}
    (short : reader.bytes.length < wanted) :
    (reader.take wanted).1 = .error (reader.ending.fault?.getD .truncated) := by
  induction wanted generalizing reader with
  | zero => exact absurd short (Nat.not_lt_zero _)
  | succ wanted hypothesis =>
    cases left : reader.bytes with
    | nil =>
      have empty := reader.bytes_refill
      rw [left, bytes, List.append_eq_nil_iff] at empty
      rw [take, ← reader.ending_refill]
      simp only [empty.1]
      cases reader.refill.ending <;> rfl
    | cons byte rest =>
      obtain ⟨buffer, filled, later⟩ := buffer_refill left
      have fewer : (buffer ++ reader.refill.pending).length < wanted := by
        rw [later]
        rw [left, List.length_cons] at short
        omega
      have failed := @hypothesis { reader.refill with buffer := buffer } fewer
      dsimp only at failed
      rw [take]
      simp only [filled]
      split
      next taken => cases taken ▸ failed
      next taken =>
        rw [taken, reader.ending_refill] at failed
        exact failed

end Reader

namespace ByteSource

/-- The bytes of a character are decoded to the character. -/
theorem decode_of_encoded {reader : Reader} {character : Char} {rest : List UInt8}
    (split : reader.bytes = String.utf8EncodeChar character ++ rest) (position : Nat) :
    ∃ after, decode position reader = (.ok (some character), after) ∧ after.bytes = rest ∧
      after.ending = reader.ending := by
  obtain ⟨lead, tail, spelled, width⟩ := Utf8.exists_leadWidth character
  have peeked : reader.peek = (.ok (some lead), reader.refill) := by
    apply Reader.peek_of_cons
    rw [split, spelled, List.cons_append]
  obtain ⟨after, taken, left, ending⟩ :=
    Reader.take_of_append (reader.bytes_refill.trans split)
  rw [String.length_utf8EncodeChar] at taken
  refine ⟨after, ?_, left, ending.trans reader.ending_refill⟩
  rw [decode, peeked]
  simp only [width, taken, Utf8.decodeOne_utf8EncodeChar]

/-- The first bytes of a character, but not all of them, are no character. -/
theorem decode_of_cut {reader : Reader} {character : Char} {first rest : List UInt8}
    (some : first ≠ []) (cut : rest ≠ [])
    (spelled : String.utf8EncodeChar character = first ++ rest)
    (left : reader.bytes = first) (position : Nat) :
    (decode position reader).1 = .error (reader.ending.fault?.getD .truncated) := by
  obtain ⟨lead, tail, whole, width⟩ := Utf8.exists_leadWidth character
  obtain ⟨byte, others, rfl⟩ := List.exists_cons_of_ne_nil some
  obtain ⟨rfl, -⟩ := List.cons.inj (whole.symm.trans spelled)
  have short : reader.refill.bytes.length < character.utf8Size := by
    rw [reader.bytes_refill, left, ← String.length_utf8EncodeChar, spelled, List.length_append]
    exact Nat.lt_add_of_pos_right (List.length_pos_iff.2 cut)
  have failed := Reader.take_of_length_lt short
  rw [reader.ending_refill] at failed
  rw [decode, Reader.peek_of_cons left]
  simp only [width]
  generalize reader.refill.take character.utf8Size = result at failed
  obtain ⟨taken, after⟩ := result
  obtain rfl : taken = _ := failed
  rfl

/-- A reader of the bytes of a text delivers the text before whatever follows. -/
theorem upcoming_of_encoded {text : List Char} {rest : List UInt8} {reader : Reader}
    (split : reader.bytes = Utf8.encode text ++ rest) (position : Nat) :
    ∃ after later, after.bytes = rest ∧ after.ending = reader.ending ∧
      upcoming position reader =
        (text ++ (upcoming later after).1, (upcoming later after).2) := by
  induction text generalizing reader position with
  | nil => exact ⟨reader, position, split, rfl, rfl⟩
  | cons character text hypothesis =>
    rw [Utf8.encode_cons, List.append_assoc] at split
    obtain ⟨next, decoded, left, ending⟩ := decode_of_encoded split position
    obtain ⟨after, later, leftAfter, endingAfter, delivered⟩ :=
      hypothesis left (position + character.utf8Size)
    refine ⟨after, later, leftAfter, endingAfter.trans ending, ?_⟩
    rw [upcoming_eq, decoded]
    dsimp only
    rw [delivered]
    rfl

theorem upcoming_of_nil {reader : Reader} (none : reader.bytes = []) (position : Nat) :
    upcoming position reader = ([], reader.ending.fault?) := by
  rw [upcoming_eq, decode, Reader.peek_of_nil none]
  cases reader.ending.fault? <;> rfl

/-- The bytes of a text are delivered as the text. -/
theorem upcoming_encode {reader : Reader} {text : List Char}
    (whole : reader.bytes = Utf8.encode text) (position : Nat) :
    upcoming position reader = (text, reader.ending.fault?) := by
  rw [← List.append_nil (Utf8.encode text)] at whole
  obtain ⟨after, later, left, ending, delivered⟩ := upcoming_of_encoded whole position
  rw [delivered, upcoming_of_nil left, ending, List.append_nil]

/-- A reader that fails delivers the characters that have arrived, and then its fault. -/
theorem upcoming_of_part {reader : Reader} {fault : Fault} {arrived : List Char}
    {part : List UInt8} (split : reader.bytes = Utf8.encode arrived ++ part)
    (failing : reader.ending = .failing fault)
    (cut : part ≠ [] → ∃ character left, left ≠ [] ∧
      String.utf8EncodeChar character = part ++ left) (position : Nat) :
    upcoming position reader = (arrived, some fault) := by
  obtain ⟨after, later, left, ending, delivered⟩ := upcoming_of_encoded split position
  have faulty : after.ending.fault? = some fault := by rw [ending, failing]; rfl
  have nothing : upcoming later after = ([], some fault) := by
    by_cases none : part = []
    · rw [upcoming_of_nil (left.trans none), faulty]
    · obtain ⟨character, missing, some, spelled⟩ := cut none
      have failed := decode_of_cut none some spelled left later
      rw [faulty, Option.getD_some] at failed
      rw [upcoming_eq]
      rcases decoded : decode later after with ⟨outcome, last⟩
      rw [decoded] at failed
      obtain rfl : outcome = .error fault := failed
      rfl
  rw [delivered, nothing, List.append_nil]

end ByteSource

/-- A reader of the bytes of a text shows the text. -/
theorem View.ofReader_encode {reader : Reader} {text : List Char}
    (whole : reader.bytes = Utf8.encode text) (finished : reader.ending = .finished) :
    View.ofReader reader = View.ofText text := by
  rw [View.ofReader, ByteSource.upcoming_encode whole, finished]
  rfl

end Fluent
