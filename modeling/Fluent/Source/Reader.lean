/-
This file holds the buffered reader: bytes that arrive in blocks, until they end or fail.
-/

import Fluent.Fault

namespace Fluent

/-- What a reader does once its bytes are used up. -/
inductive Ending where
  | finished
  /-- Every further read fails. -/
  | failing (fault : Fault)
  deriving DecidableEq, Repr

/-- A reader that fetches `capacity` bytes at a time into its buffer. -/
structure Reader where
  capacity : Nat
  capacity_pos : 0 < capacity
  buffer : List UInt8
  /-- What has not reached the buffer yet. -/
  pending : List UInt8
  ending : Ending
  deriving DecidableEq, Repr

namespace Reader

/-- A reader of the given bytes with an empty buffer. -/
def ofBytes (capacity : Nat) (capacity_pos : 0 < capacity) (bytes : List UInt8)
    (ending : Ending) : Reader :=
  ⟨capacity, capacity_pos, [], bytes, ending⟩

def remaining (reader : Reader) : Nat :=
  reader.buffer.length + reader.pending.length

/-- Fetches the next block into an empty buffer. -/
def refill (reader : Reader) : Reader :=
  match reader.buffer with
  | [] =>
    { reader with
      buffer := reader.pending.take reader.capacity
      pending := reader.pending.drop reader.capacity }
  | _ :: _ => reader

/-- The next byte, left in the buffer; `none` at the end. -/
def peek (reader : Reader) : Except Fault (Option UInt8) × Reader :=
  let ready := reader.refill
  match ready.buffer with
  | byte :: _ => (.ok (some byte), ready)
  | [] =>
    match ready.ending with
    | .finished => (.ok none, ready)
    | .failing fault => (.error fault, ready)

/-- Removes the given number of bytes, fetching blocks as needed. -/
def take : Nat → Reader → Except Fault (List UInt8) × Reader
  | 0, reader => (.ok [], reader)
  | wanted + 1, reader =>
    let ready := reader.refill
    match ready.buffer with
    | byte :: buffer =>
      match take wanted { ready with buffer := buffer } with
      | (.ok bytes, after) => (.ok (byte :: bytes), after)
      | (.error fault, after) => (.error fault, after)
    | [] =>
      match ready.ending with
      | .finished => (.error .truncated, ready)
      | .failing fault => (.error fault, ready)

@[simp] theorem remaining_refill (reader : Reader) :
    reader.refill.remaining = reader.remaining := by
  unfold refill remaining
  split <;> simp_all
  omega

@[simp] theorem remaining_peek (reader : Reader) :
    reader.peek.2.remaining = reader.remaining := by
  unfold peek
  grind [remaining_refill]

theorem remaining_take_le (wanted : Nat) (reader : Reader) :
    (take wanted reader).2.remaining ≤ reader.remaining := by
  induction wanted generalizing reader with
  | zero => simp [take]
  | succ wanted hypothesis =>
    have refilled := remaining_refill reader
    unfold take
    grind [remaining]

/-- A reader gives out exactly the bytes that it is asked for. -/
theorem remaining_take_add {wanted : Nat} {reader after : Reader} {bytes : List UInt8}
    (taken : take wanted reader = (.ok bytes, after)) :
    after.remaining + wanted = reader.remaining := by
  induction wanted generalizing reader bytes with
  | zero => simp_all [take]
  | succ wanted hypothesis =>
    have refilled := remaining_refill reader
    unfold take at taken
    grind [remaining]

end Reader

end Fluent
