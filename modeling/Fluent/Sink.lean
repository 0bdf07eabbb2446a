/-
This file holds the places that an answer is written to.
-/

import Fluent.Fault

namespace Fluent

class Sink (τ : Type) where
  /-- Writes bytes in order, and says what stopped it, if anything did. -/
  write : List UInt8 → τ → Option Fault × τ
  write_nil : ∀ sink, write [] sink = (none, sink)

/-- Writes several times in order, up to the first failure. -/
def Sink.writeAll {τ : Type} [Sink τ] : List (List UInt8) → τ → Option Fault × τ
  | [], sink => (none, sink)
  | bytes :: rest, sink =>
    match Sink.write bytes sink with
    | (none, sink) => writeAll rest sink
    | (some fault, sink) => (some fault, sink)

/-- An output that can fill up. -/
structure Output where
  written : List UInt8
  /-- How many more bytes it takes; no number means that it takes all. -/
  room : Option Nat
  /-- Whether the output takes everything once a write has failed. -/
  recovers : Bool
  deriving DecidableEq, Repr

namespace Output

def unlimited : Output :=
  ⟨[], none, false⟩

def limited (limit : Nat) (recovers : Bool) : Output :=
  ⟨[], some limit, recovers⟩

def full : Fault :=
  .device "sink full"

/-- What fits is taken, and the write fails if that is not all. -/
def write (bytes : List UInt8) (output : Output) : Option Fault × Output :=
  match output.room with
  | none => (none, { output with written := output.written ++ bytes })
  | some room =>
    if bytes.length ≤ room then
      (none, { output with
        written := output.written ++ bytes
        room := some (room - bytes.length) })
    else
      (some full, { output with
        written := output.written ++ bytes.take room
        room := if output.recovers then none else some 0 })

@[simp] theorem write_unlimited (written bytes : List UInt8) (recovers : Bool) :
    write bytes ⟨written, none, recovers⟩ = (none, ⟨written ++ bytes, none, recovers⟩) := rfl

theorem write_of_length_le {written bytes : List UInt8} {room : Nat} (recovers : Bool)
    (fits : bytes.length ≤ room) :
    write bytes ⟨written, some room, recovers⟩ =
      (none, ⟨written ++ bytes, some (room - bytes.length), recovers⟩) := by
  simp [write, fits]

theorem write_of_lt_length {written bytes : List UInt8} {room : Nat} (recovers : Bool)
    (overflows : room < bytes.length) :
    write bytes ⟨written, some room, recovers⟩ =
      (some full, ⟨written ++ bytes.take room, if recovers then none else some 0, recovers⟩) := by
  simp [write, Nat.not_le.2 overflows]

end Output

instance : Sink Output where
  write := Output.write
  write_nil output := by
    cases output with
    | mk written room recovers => cases room <;> simp [Output.write]

end Fluent
