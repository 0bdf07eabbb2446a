/-
This file holds what a run writes as a list of writes.
-/

import Fluent.Error
import Fluent.Sink
import Mathlib.Data.List.Basic

namespace Fluent

variable {State τ : Type}

/-- Bytes that a run writes, and the state that it is in by then. -/
structure Write (State : Type) where
  state : State
  bytes : List UInt8

namespace Write

def contents (writes : List (Write State)) : List UInt8 :=
  writes.flatMap bytes

@[simp] theorem contents_nil : contents ([] : List (Write State)) = [] := rfl

@[simp] theorem contents_cons (write : Write State) (writes : List (Write State)) :
    contents (write :: writes) = write.bytes ++ contents writes := rfl

@[simp] theorem contents_append (first second : List (Write State)) :
    contents (first ++ second) = contents first ++ contents second := by
  simp [contents]

/-- Writes are made in order, up to the first that fails. -/
def performAll [Sink τ] : List (Write State) → τ → Option (Fault × State) × τ
  | [], sink => (none, sink)
  | write :: writes, sink =>
    match Sink.write write.bytes sink with
    | (none, sink) => performAll writes sink
    | (some fault, sink) => (some (fault, write.state), sink)

theorem performAll_append [Sink τ] (first second : List (Write State)) (sink : τ) :
    performAll (first ++ second) sink =
      match performAll first sink with
      | (none, sink) => performAll second sink
      | (some failure, sink) => (some failure, sink) := by
  induction first generalizing sink with
  | nil => rfl
  | cons write first hypothesis =>
    rw [List.cons_append, performAll, performAll]
    rcases Sink.write write.bytes sink with ⟨_ | fault, after⟩
    · exact hypothesis after
    · rfl

/-- Parts that are written with nothing between them. -/
theorem performAll_map [Sink τ] (state : State) (parts : List (List UInt8)) (sink : τ) :
    performAll (parts.map (Write.mk state)) sink =
      match Sink.writeAll parts sink with
      | (none, sink) => (none, sink)
      | (some fault, sink) => (some (fault, state), sink) := by
  induction parts generalizing sink with
  | nil => rfl
  | cons part parts hypothesis =>
    rw [List.map_cons, performAll, Sink.writeAll]
    rcases Sink.write part sink with ⟨_ | fault, after⟩
    · exact hypothesis after
    · rfl

section

variable {writes before after : List (Write State)} {failing : Write State} {room : Nat}

theorem performAll_unlimited (writes : List (Write State)) (written : List UInt8)
    (recovers : Bool) :
    performAll writes (⟨written, none, recovers⟩ : Output) =
      (none, ⟨written ++ contents writes, none, recovers⟩) := by
  induction writes generalizing written with
  | nil => simp [performAll]
  | cons write writes hypothesis =>
    simp only [performAll, Sink.write, Output.write_unlimited]
    rw [hypothesis, contents_cons, List.append_assoc]

theorem performAll_of_fits (fits : (contents writes).length ≤ room) (written : List UInt8)
    (recovers : Bool) :
    performAll writes (⟨written, some room, recovers⟩ : Output) =
      (none, ⟨written ++ contents writes, some (room - (contents writes).length), recovers⟩) := by
  induction writes generalizing written room with
  | nil => simp [performAll]
  | cons write writes hypothesis =>
    rw [contents_cons, List.length_append] at fits
    simp only [performAll, Sink.write]
    rw [Output.write_of_length_le recovers (Nat.le_of_add_right_le fits)]
    dsimp only
    rw [hypothesis (by omega), contents_cons, List.length_append, List.append_assoc, Nat.sub_sub]

/-- The first of the writes that is more than an output has room for. -/
structure Overflows (room : Nat) (writes before : List (Write State)) (failing : Write State)
    (after : List (Write State)) : Prop where
  split : writes = before ++ failing :: after
  fits : (contents before).length ≤ room
  overflows : room < (contents before).length + failing.bytes.length

theorem exists_overflows (most : room < (contents writes).length) :
    ∃ before failing after, Overflows room writes before failing after := by
  induction writes generalizing room with
  | nil => exact absurd most (Nat.not_lt_zero _)
  | cons write writes hypothesis =>
    rw [contents_cons, List.length_append] at most
    by_cases fits : write.bytes.length ≤ room
    · have later : room - write.bytes.length < (contents writes).length := by omega
      obtain ⟨before, failing, after, split, fitsLater, overflows⟩ := hypothesis later
      refine ⟨write :: before, failing, after, ?_, ?_, ?_⟩
      · rw [split, List.cons_append]
      · rw [contents_cons, List.length_append]
        omega
      · rw [contents_cons, List.length_append]
        omega
    · exact ⟨[], write, writes, rfl, Nat.zero_le _, by simpa using Nat.lt_of_not_le fits⟩

/-- What fits is written, and the first write that does not fit is the last one. -/
theorem Overflows.performAll (overflowing : Overflows room writes before failing after)
    (written : List UInt8) (recovers : Bool) :
    performAll writes (⟨written, some room, recovers⟩ : Output) =
      (some (Output.full, failing.state),
        ⟨written ++ (contents writes).take room, if recovers then none else some 0,
          recovers⟩) := by
  obtain ⟨rfl, fits, overflows⟩ := overflowing
  have beyond : room - (contents before).length < failing.bytes.length := by omega
  have taken : (contents (before ++ failing :: after)).take room =
      contents before ++ failing.bytes.take (room - (contents before).length) := by
    rw [contents_append, contents_cons, List.take_append, List.take_of_length_le fits,
      List.take_append_of_le_length (Nat.le_of_lt beyond)]
  rw [performAll_append, performAll_of_fits fits, taken]
  simp only [Write.performAll, Sink.write]
  rw [Output.write_of_lt_length recovers beyond, List.append_assoc]

end

end Write

/-- A run as its writes and what it comes to where none of them fails. -/
structure Script (State : Type) where
  writes : List (Write State)
  result : Except Error Unit
  state : State

namespace Script

/-- Makes the writes of a run. The first that fails ends it. -/
def play [Sink τ] (script : Script State) (sink : τ) : Except Error Unit × State × τ :=
  match Write.performAll script.writes sink with
  | (none, sink) => (script.result, script.state, sink)
  | (some (fault, state), sink) => (.error (.transport fault), state, sink)

/-- A script between an opening and a closing write. -/
def between (opening : Write State) (closing : List UInt8) (inner : Script State) :
    Script State :=
  ⟨opening :: (inner.writes ++ [⟨inner.state, closing⟩]), inner.result, inner.state⟩

/-- Once the opening write is made the closing one is tried too, whatever happens between. -/
def playBetween [Sink τ] (opening : Write State) (closing : List UInt8) (inner : Script State)
    (sink : τ) : Except Error Unit × State × τ :=
  match Sink.write opening.bytes sink with
  | (some fault, sink) => (.error (.transport fault), opening.state, sink)
  | (none, sink) =>
    match inner.play sink with
    | (outcome, state, sink) =>
      match Sink.write closing sink with
      | (some fault, sink) => (.error (.transport fault), state, sink)
      | (none, sink) => (outcome, state, sink)

section

variable {opening : Write State} {closing : List UInt8} {inner : Script State}

theorem playBetween_of_performAll [Sink τ] {sink last : τ}
    (written : Write.performAll (between opening closing inner).writes sink = (none, last)) :
    playBetween opening closing inner sink = (inner.result, inner.state, last) := by
  simp only [between, Write.performAll, Write.performAll_append] at written
  rw [playBetween]
  rcases begun : Sink.write opening.bytes sink with ⟨_ | fault, opened⟩
  · simp only [begun] at written
    dsimp only [play]
    rcases made : Write.performAll inner.writes opened with ⟨_ | failure, middle⟩
    · simp only [made] at written
      dsimp only
      rcases ended : Sink.write closing middle with ⟨_ | fault, closed⟩
      · simp only [ended] at written
        obtain ⟨-, rfl⟩ := Prod.mk.inj written
        rfl
      · simp [ended] at written
    · simp [made] at written
  · simp [begun] at written

variable {limit : Nat} {before after : List (Write State)} {failing : Write State}

/-- An output that fills up between the two gets the closing write if it takes any again. -/
theorem playBetween_of_overflows
    (overflowing :
      Write.Overflows limit (between opening closing inner).writes before failing after)
    (recovers : Bool) :
    playBetween opening closing inner (Output.limited limit recovers) =
      (.error (.transport Output.full), failing.state,
        ⟨(Write.contents (between opening closing inner).writes).take limit ++
            (if recovers ∧ before ≠ [] ∧ after ≠ [] then closing else []),
          if recovers then none else some 0, recovers⟩) := by
  obtain ⟨split, fits, overflows⟩ := overflowing
  rw [playBetween, Output.limited]
  simp only [between, Write.contents_cons, Write.contents_append] at split ⊢
  cases before with
  | nil =>
    obtain ⟨rfl, -⟩ := List.cons.inj split
    rw [Write.contents_nil, List.length_nil, Nat.zero_add] at overflows
    simp only [Sink.write]
    rw [Output.write_of_lt_length recovers overflows,
      List.take_append_of_le_length (Nat.le_of_lt overflows)]
    simp
  | cons first before =>
    obtain ⟨rfl, later⟩ : opening = first ∧
        inner.writes ++ [⟨inner.state, closing⟩] = before ++ failing :: after :=
      List.cons.inj split
    rw [Write.contents_cons, List.length_append] at fits overflows
    have opened : opening.bytes.length ≤ limit := Nat.le_of_add_right_le fits
    simp only [Sink.write]
    rw [Output.write_of_length_le recovers opened, List.take_append,
      List.take_of_length_le opened]
    dsimp only [play]
    rcases after.eq_nil_or_concat with rfl | ⟨after, last, rfl⟩
    · obtain ⟨rfl, final⟩ := List.append_inj' later rfl
      obtain ⟨rfl, -⟩ := List.cons.inj final
      have inside : (Write.contents inner.writes).length ≤ limit - opening.bytes.length := by
        omega
      dsimp only at overflows
      rw [Write.performAll_of_fits inside]
      dsimp only
      rw [Output.write_of_lt_length recovers (by omega), List.take_append,
        List.take_of_length_le inside]
      simp
    · rw [List.concat_eq_append, ← List.cons_append, ← List.append_assoc] at later
      obtain ⟨rest, -⟩ := List.append_inj' later rfl
      have failed : Write.Overflows (limit - opening.bytes.length) inner.writes before failing
          after := ⟨rest, by omega, by omega⟩
      have inside : limit - opening.bytes.length < (Write.contents inner.writes).length := by
        rw [rest, Write.contents_append, Write.contents_cons, List.length_append,
          List.length_append]
        omega
      rw [failed.performAll, List.take_append_of_le_length (Nat.le_of_lt inside)]
      cases recovers with
      | true => simp
      | false =>
        cases closing <;> simp [Output.write]

end

end Script

end Fluent
