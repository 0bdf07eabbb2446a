/-
This file holds sinks that never fail: whatever is written to them is added to what they hold.
-/

import Fluent.Sink

namespace Fluent

variable {τ : Type} [Sink τ] {contents : τ → List UInt8} {sink : τ}

/-- A sink takes every sequence of writes, and its contents grow by what is written. -/
def Sink.TakesAll (contents : τ → List UInt8) (sink : τ) : Prop :=
  ∀ writes, (Sink.writeAll writes sink).1 = none ∧
    contents (Sink.writeAll writes sink).2 = contents sink ++ writes.flatten

namespace Sink

theorem writeAll_cons_of_ok {bytes : List UInt8} (written : (write bytes sink).1 = none)
    (writes : List (List UInt8)) :
    writeAll (bytes :: writes) sink = writeAll writes (write bytes sink).2 := by
  rw [writeAll]
  generalize write bytes sink = result at written
  obtain ⟨fault, after⟩ := result
  obtain rfl : fault = none := written
  rfl

/-- A sink that takes everything takes one write, and then still takes everything. -/
theorem TakesAll.write (takes : TakesAll contents sink) (bytes : List UInt8) :
    (Sink.write bytes sink).1 = none ∧
      contents (Sink.write bytes sink).2 = contents sink ++ bytes ∧
      TakesAll contents (Sink.write bytes sink).2 := by
  have written : (Sink.write bytes sink).1 = none := by
    have single := (takes [bytes]).1
    rw [writeAll] at single
    split at single
    next found => rw [found]
    next found => cases single
  have added : contents (Sink.write bytes sink).2 = contents sink ++ bytes := by
    have single := (takes [bytes]).2
    rwa [writeAll_cons_of_ok written, writeAll, List.flatten_singleton] at single
  refine ⟨written, added, fun writes => ?_⟩
  have more := takes (bytes :: writes)
  rwa [writeAll_cons_of_ok written, List.flatten_cons, ← List.append_assoc, ← added] at more

theorem TakesAll.write_eq (takes : TakesAll contents sink) (bytes : List UInt8) :
    Sink.write bytes sink = (none, (Sink.write bytes sink).2) :=
  Prod.ext (takes.write bytes).1 rfl

theorem TakesAll.writeAll (takes : TakesAll contents sink) (writes : List (List UInt8)) :
    Sink.writeAll writes sink = (none, (Sink.writeAll writes sink).2) ∧
      contents (Sink.writeAll writes sink).2 = contents sink ++ writes.flatten ∧
      TakesAll contents (Sink.writeAll writes sink).2 := by
  induction writes generalizing sink with
  | nil => exact ⟨rfl, by simp [Sink.writeAll], takes⟩
  | cons bytes writes hypothesis =>
    obtain ⟨written, added, after⟩ := takes.write bytes
    obtain ⟨writtenAll, addedAll, last⟩ := hypothesis after
    rw [writeAll_cons_of_ok written]
    exact ⟨writtenAll, by rw [addedAll, added, List.flatten_cons, List.append_assoc], last⟩

end Sink

/-- An output without a limit takes everything. -/
theorem Output.takesAll_unlimited : Sink.TakesAll Output.written Output.unlimited := by
  have takes (writes : List (List UInt8)) (written : List UInt8) :
      Sink.writeAll writes (⟨written, none, false⟩ : Output) =
        (none, ⟨written ++ writes.flatten, none, false⟩) := by
    induction writes generalizing written with
    | nil => simp [Sink.writeAll]
    | cons bytes writes hypothesis =>
      simp [Sink.writeAll, Sink.write, hypothesis]
  intro writes
  rw [Output.unlimited, takes]
  exact ⟨rfl, rfl⟩

end Fluent
