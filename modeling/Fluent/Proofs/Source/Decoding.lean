/-
This file proves that a reader's bytes are decoded as UTF-8 and as nothing else.
-/

import Fluent.Proofs.Source.Bytes
import Fluent.Proofs.Text.WellFormed

namespace Fluent

/-- The fault behind the longest text at the front, none where the input ends in good order. -/
inductive Breaks (position : Nat) (ending : Ending) : List UInt8 → Option Fault → Prop
  | finished (done : ending = .finished) : Breaks position ending [] none
  | failed {fault : Fault} (failing : ending = .failing fault) :
      Breaks position ending [] (some fault)
  /-- No character starts with the next byte. -/
  | lead {byte : UInt8} {rest : List UInt8} (foreign : ¬ Utf8.Opens [byte]) :
      Breaks position ending (byte :: rest) (some (.invalidLead byte position))
  /-- The reader fails before all bytes of a character have arrived. -/
  | cut {byte : UInt8} {rest : List UInt8} {width : Nat} {fault : Fault}
      (calls : Utf8.Calls byte width) (short : (byte :: rest).length < width)
      (failing : ending = .failing fault) : Breaks position ending (byte :: rest) (some fault)
  /-- The input ends before all bytes of a character have arrived. -/
  | truncated {byte : UInt8} {rest : List UInt8} {width : Nat}
      (calls : Utf8.Calls byte width) (short : (byte :: rest).length < width)
      (done : ending = .finished) : Breaks position ending (byte :: rest) (some .truncated)
  /-- The byte behind `good` bytes of a character is the first wrong one. -/
  | tail {byte : UInt8} {rest : List UInt8} {width good : Nat}
      (calls : Utf8.Calls byte width) (arrived : width ≤ (byte :: rest).length)
      (few : good ∈ [1, 2, 3]) (within : good < width)
      (opens : Utf8.Opens ((byte :: rest).take good))
      (wrong : ¬ Utf8.Opens ((byte :: rest).take (good + 1))) :
      Breaks position ending (byte :: rest) (some (.invalidTail good))

namespace Breaks

variable {position : Nat} {ending : Ending} {rest : List UInt8} {fault : Option Fault}

/-- No character stands where an input breaks. -/
theorem stuck (breaks : Breaks position ending rest fault) (character : Char) :
    ¬ String.utf8EncodeChar character <+: rest := by
  intro before
  have sized := String.length_utf8EncodeChar character
  obtain ⟨lead, tail, spelled, width⟩ := Utf8.exists_leadWidth character
  have short {byte : UInt8} {rest : List UInt8} {wanted : Nat} (calls : Utf8.Calls byte wanted)
      (before : String.utf8EncodeChar character <+: byte :: rest) :
      character.utf8Size = wanted ∧ wanted ≤ (byte :: rest).length := by
    have known := Utf8.leadWidth_eq_some_iff.2 calls
    have fits := before.length_le
    rw [spelled, List.cons_prefix_cons] at before
    obtain rfl := Option.some.inj (known.symm.trans (before.1 ▸ width))
    exact ⟨rfl, sized ▸ fits⟩
  cases breaks with
  | finished | failed =>
    rw [List.prefix_nil.1 before] at spelled
    cases spelled
  | lead foreign =>
    rw [spelled, List.cons_prefix_cons] at before
    refine foreign ⟨character, ?_⟩
    rw [spelled, before.1]
    exact List.prefix_append [_] tail
  | cut calls few => exact absurd (short calls before).2 (Nat.not_le.2 few)
  | truncated calls few => exact absurd (short calls before).2 (Nat.not_le.2 few)
  | @tail byte rest wanted good calls arrived few within opens wrong =>
    obtain ⟨rfl, -⟩ := short calls before
    refine wrong ⟨character, ?_⟩
    rw [List.prefix_iff_eq_take.1 before, sized]
    exact List.take_prefix_take_left within

/-- An input breaks in one way only. -/
theorem unique {other : Option Fault} (breaks : Breaks position ending rest fault)
    (breaksToo : Breaks position ending rest other) : other = fault := by
  have one {byte : UInt8} {first second : Nat} (calls : Utf8.Calls byte first)
      (callsToo : Utf8.Calls byte second) : second = first := by
    rw [← Utf8.leadWidth_eq_some_iff] at calls callsToo
    exact Option.some.inj (callsToo.symm.trans calls)
  have opens {byte : UInt8} {width : Nat} (calls : Utf8.Calls byte width) : Utf8.Opens [byte] := by
    obtain ⟨character, before, -⟩ := calls
    exact ⟨character, before⟩
  have least {byte : UInt8} {rest : List UInt8} {first second : Nat}
      (wrong : ¬ Utf8.Opens ((byte :: rest).take (first + 1)))
      (opens : Utf8.Opens ((byte :: rest).take second)) : second ≤ first := by
    refine Nat.not_lt.1 fun more => wrong ?_
    obtain ⟨character, before⟩ := opens
    exact ⟨character, (List.take_prefix_take_left more).trans before⟩
  cases breaks with
  | finished done | failed failing => cases breaksToo <;> simp_all
  | lead foreign =>
    cases breaksToo with
    | lead => rfl
    | cut calls | truncated calls | tail calls => exact absurd (opens calls) foreign
  | cut calls short failing =>
    cases breaksToo with
    | lead foreign => exact absurd (opens calls) foreign
    | cut _ _ failingToo => simp_all
    | truncated _ _ done => simp_all
    | tail callsToo arrived =>
      obtain rfl := one calls callsToo
      omega
  | truncated calls short done =>
    cases breaksToo with
    | lead foreign => exact absurd (opens calls) foreign
    | cut _ _ failing => simp_all
    | truncated => rfl
    | tail callsToo arrived =>
      obtain rfl := one calls callsToo
      omega
  | tail calls arrived few within opened wrong =>
    cases breaksToo with
    | lead foreign => exact absurd (opens calls) foreign
    | cut callsToo short | truncated callsToo short =>
      obtain rfl := one calls callsToo
      omega
    | tail _ _ _ _ openedToo wrongToo =>
      rw [Nat.le_antisymm (least wrong openedToo) (least wrongToo opened)]

end Breaks

namespace ByteSource

/-- The reader's next character is decoded from its bytes, or else the input breaks. -/
theorem decode_cases (position : Nat) (reader : Reader) :
    (∃ character after, decode position reader = (.ok (some character), after) ∧
      reader.bytes = String.utf8EncodeChar character ++ after.bytes ∧
      after.ending = reader.ending) ∨
    ∃ fault : Option Fault, (decode position reader).1 = fault.elim (.ok none) .error ∧
      Breaks position reader.ending reader.bytes fault := by
  cases bytes : reader.bytes with
  | nil =>
    refine .inr ⟨reader.ending.fault?, ?_, ?_⟩
    · rw [decode, Reader.peek_of_nil bytes]
      cases reader.ending.fault? <;> rfl
    · cases ending : reader.ending with
      | finished => exact .finished rfl
      | failing fault => exact .failed rfl
  | cons lead rest =>
    have peeked := Reader.peek_of_cons bytes
    cases width : Utf8.leadWidth lead with
    | none =>
      refine .inr ⟨some (.invalidLead lead position), ?_, .lead ?_⟩
      · rw [decode, peeked]
        simp only [width]
        rfl
      · rintro ⟨character, before⟩
        rw [Utf8.leadWidth_of_isPrefix before] at width
        cases width
    | some wanted =>
      have calls := Utf8.leadWidth_eq_some_iff.1 width
      by_cases short : (lead :: rest).length < wanted
      · have failed := Reader.take_of_length_lt (reader.bytes_refill.trans bytes ▸ short)
        rw [reader.ending_refill] at failed
        refine .inr ⟨some (reader.ending.fault?.getD .truncated), ?_, ?_⟩
        · rw [decode, peeked]
          simp only [width]
          rcases taken : reader.refill.take wanted with ⟨outcome, after⟩
          rw [taken] at failed
          obtain rfl : outcome = _ := failed
          rfl
        · cases ending : reader.ending with
          | finished => exact .truncated calls short rfl
          | failing fault => exact .cut calls short rfl
      · obtain ⟨tail, later, rfl, rfl⟩ :
            ∃ tail later, rest = tail ++ later ∧ wanted = (lead :: tail).length := by
          have some := (Utf8.leadWidth_bounds width).1
          refine ⟨rest.take (wanted - 1), rest.drop (wanted - 1), ?_, ?_⟩
          · rw [List.take_append_drop]
          · simp only [List.length_cons, List.length_take] at short ⊢
            omega
        have arrived : reader.refill.bytes = (lead :: tail) ++ later :=
          reader.bytes_refill.trans bytes
        obtain ⟨after, taken, left, ending⟩ := Reader.take_of_append arrived
        rw [reader.ending_refill] at ending
        cases decoded : Utf8.decodeOne (lead :: tail) with
        | ok character =>
          refine .inl ⟨character, after, ?_, ?_, ending⟩
          · rw [decode, peeked]
            simp only [width, taken, decoded]
          · rw [Utf8.utf8EncodeChar_of_decodeOne width decoded, left]
            rfl
        | error good =>
          obtain ⟨few, within, opens, wrong⟩ := Utf8.opens_of_decodeOne_error width decoded
          refine .inr ⟨some (.invalidTail good), ?_, ?_⟩
          · rw [decode, peeked]
            simp only [width, taken, decoded]
            rfl
          · have front {count : Nat} (fits : count ≤ (lead :: tail).length) :
                (lead :: (tail ++ later)).take count = (lead :: tail).take count :=
              List.take_append_of_le_length fits
            rw [← front (Nat.le_of_lt within)] at opens
            rw [← front within] at wrong
            exact .tail calls (Nat.not_lt.1 short) few within opens wrong

/-- What a reader delivers are the characters that its bytes begin with, up to where they break. -/
theorem upcoming_breaks (position : Nat) (reader : Reader) :
    ∃ rest, reader.bytes = Utf8.encode (upcoming position reader).1 ++ rest ∧
      Breaks (position + Utf8.size (upcoming position reader).1) reader.ending rest
        (upcoming position reader).2 := by
  induction size : reader.remaining using Nat.strongRecOn generalizing position reader with
  | ind size hypothesis =>
    rw [upcoming_eq]
    rcases decode_cases position reader with
      ⟨character, after, decoded, split, ending⟩ | ⟨fault, decoded, breaks⟩
    · have fewer := remaining_decode_lt decoded
      obtain ⟨rest, later, breaks⟩ :=
        hypothesis _ (size ▸ fewer) (position + character.utf8Size) after rfl
      rw [decoded]
      refine ⟨rest, ?_, ?_⟩
      · rw [split, later, Utf8.encode_cons, List.append_assoc]
      · rw [← ending, Utf8.size_cons, ← Nat.add_assoc]
        exact breaks
    · rcases result : decode position reader with ⟨outcome, after⟩
      rw [result] at decoded
      obtain rfl : outcome = _ := decoded
      cases fault <;> exact ⟨reader.bytes, rfl, breaks⟩

end ByteSource

end Fluent
