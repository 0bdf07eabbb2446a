/-
This file holds the texts that items stand for, by the 16-bit units of characters.
-/

import Mathlib
import Fluent.Proofs.Json.Quoting
import Fluent.Proofs.Json.Symbols

namespace Fluent.Json

/-- The 16-bit units of a character: its code point, or two surrogates where that is too large. -/
def units (character : Char) : List Nat :=
  if character.toNat < 0x10000 then [character.toNat]
  else
    [0xD800 + (character.toNat - 0x10000) / 0x400, 0xDC00 + (character.toNat - 0x10000) % 0x400]

/-- Every escape is resolved, and the units of a character stand for this one character. -/
inductive Item.AllResolved : List Item → List Char → Prop
  | nil : Item.AllResolved [] []
  | plain {character : Char} {items : List Item} {text : List Char}
      (others : Item.AllResolved items text) :
      Item.AllResolved (.plain character :: items) (character :: text)
  | escaped {character : Char} {items : List Item} {text : List Char}
      (others : Item.AllResolved items text) :
      Item.AllResolved (.escaped character :: items) (character :: text)
  | units {character : Char} {items : List Item} {text : List Char}
      (others : Item.AllResolved items text) :
      Item.AllResolved ((units character).map .unit ++ items) (character :: text)

/-- Every high surrogate is followed at once by a low one, and there are no other low ones. -/
structure Item.Paired (items : List Item) : Prop where
  followed : ∀ before high after, items = before ++ .unit high :: after →
    0xD800 ≤ high ∧ high ≤ 0xDBFF →
      ∃ low rest, after = .unit low :: rest ∧ 0xDC00 ≤ low ∧ low ≤ 0xDFFF
  preceded : ∀ before low after, items = before ++ .unit low :: after →
    0xDC00 ≤ low ∧ low ≤ 0xDFFF →
      ∃ front high, before = front ++ [.unit high] ∧ 0xD800 ≤ high ∧ high ≤ 0xDBFF

/-- Whether an item is a surrogate, high or low. -/
def Item.isSurrogate : Item → Bool
  | .unit value => isHighSurrogate value || isLowSurrogate value
  | .plain _ | .escaped _ => false

section

variable {unit : Nat}

theorem isHighSurrogate_iff : isHighSurrogate unit ↔ 0xD800 ≤ unit ∧ unit ≤ 0xDBFF := by
  simp [isHighSurrogate]

theorem isLowSurrogate_iff : isLowSurrogate unit ↔ 0xDC00 ≤ unit ∧ unit ≤ 0xDFFF := by
  simp [isLowSurrogate]

theorem isHighSurrogate_of_isLowSurrogate (low : isLowSurrogate unit) :
    isHighSurrogate unit = false := by
  rw [isLowSurrogate_iff] at low
  rw [Bool.eq_false_iff, Ne, isHighSurrogate_iff]
  omega

/-- A character that has one unit is no surrogate. -/
theorem isSurrogate_toNat (character : Char) :
    isHighSurrogate character.toNat = false ∧ isLowSurrogate character.toNat = false := by
  have valid := character.valid
  change character.toNat < 0xD800 ∨ 0xDFFF < character.toNat ∧ character.toNat < 0x110000 at valid
  rw [Bool.eq_false_iff, Bool.eq_false_iff, Ne, Ne, isHighSurrogate_iff, isLowSurrogate_iff]
  omega

/-- A unit that is no surrogate is the one unit of a character. -/
theorem units_ofNat (small : unit < 0x10000) (high : isHighSurrogate unit = false)
    (low : isLowSurrogate unit = false) : units (Char.ofNat unit) = [unit] := by
  rw [Bool.eq_false_iff, Ne, isHighSurrogate_iff] at high
  rw [Bool.eq_false_iff, Ne, isLowSurrogate_iff] at low
  have valid : unit.isValidChar := by
    show unit < 0xD800 ∨ 0xDFFF < unit ∧ unit < 0x110000
    omega
  rw [units, Char.toNat_ofNat, if_pos valid, if_pos small]

end

section

variable {high low : Nat}

/-- A pair of surrogates are the units of the character that they are combined to. -/
theorem units_combine (upper : isHighSurrogate high) (lower : isLowSurrogate low) :
    units (combine high low) = [high, low] := by
  rw [isHighSurrogate_iff] at upper
  rw [isLowSurrogate_iff] at lower
  have valid : (0x10000 + (high - 0xD800) * 0x400 + (low - 0xDC00)).isValidChar := by
    show _ < 0xD800 ∨ 0xDFFF < _ ∧ _ < 0x110000
    omega
  have first : 0xD800 + (0x10000 + (high - 0xD800) * 0x400 + (low - 0xDC00) - 0x10000) / 0x400 =
      high := by omega
  have second : 0xDC00 + (0x10000 + (high - 0xD800) * 0x400 + (low - 0xDC00) - 0x10000) % 0x400 =
      low := by omega
  rw [units, combine, Char.toNat_ofNat, if_pos valid, if_neg (by omega), first, second]

/-- A pair of surrogates is combined to the character beyond 2^16 that has them for its units. -/
theorem combine_units {character : Char} (large : ¬ character.toNat < 0x10000) :
    ∃ high low, units character = [high, low] ∧ isHighSurrogate high ∧ isLowSurrogate low ∧
      combine high low = character := by
  have valid := character.valid
  change character.toNat < 0xD800 ∨ 0xDFFF < character.toNat ∧ character.toNat < 0x110000 at valid
  refine ⟨_, _, if_neg large, isHighSurrogate_iff.2 ?_, isLowSurrogate_iff.2 ?_, ?_⟩
  · omega
  · omega
  · have whole : 0x10000 + (0xD800 + (character.toNat - 0x10000) / 0x400 - 0xD800) * 0x400 +
        (0xDC00 + (character.toNat - 0x10000) % 0x400 - 0xDC00) = character.toNat := by omega
    rw [combine, whole, Char.ofNat_toNat]

end

theorem decodeItems_pair {high low : Nat} (upper : isHighSurrogate high)
    (lower : isLowSurrogate low) (items : List Item) :
    decodeItems (.unit high :: .unit low :: items) =
      (decodeItems items).map (combine high low :: ·) := by
  rw [decodeItems, if_pos upper, if_pos lower]

/-- What items stand for is what they are decoded to. -/
theorem Item.AllResolved.decodeItems_eq {items : List Item} {text : List Char}
    (resolved : AllResolved items text) : decodeItems items = some text := by
  induction resolved with
  | nil => rfl
  | plain others hypothesis =>
    rw [decodeItems, hypothesis]
    rfl
  | escaped others hypothesis =>
    rw [decodeItems, hypothesis]
    rfl
  | @units character items text others hypothesis =>
    by_cases small : character.toNat < 0x10000
    · obtain ⟨high, low⟩ := isSurrogate_toNat character
      rw [Json.units, if_pos small, List.map_singleton, List.singleton_append,
        decodeItems_unit high low, hypothesis, Char.ofNat_toNat]
      rfl
    · obtain ⟨high, low, spelled, upper, lower, combined⟩ := combine_units small
      rw [spelled, List.map_cons, List.map_singleton, List.cons_append, List.singleton_append,
        decodeItems_pair upper lower, hypothesis, combined]
      rfl

/-- A unit of an escape has at most 16 bits. -/
def Item.isSmall : Item → Bool
  | .unit value => value < 0x10000
  | .plain _ | .escaped _ => true

theorem Item.Spelled.isSmall {item : Item} {text : List Char} (spelled : item.Spelled text) :
    item.isSmall := by
  cases spelled with
  | plain | escaped => rfl
  | unit digits => exact decide_eq_true digits.lt

theorem Item.AllSpelled.isSmall {items : List Item} {text : List Char}
    (spelled : AllSpelled items text) : ∀ item ∈ items, item.isSmall := by
  induction spelled with
  | nil => exact List.forall_mem_nil _
  | cons spelled others hypothesis => exact List.forall_mem_cons.2 ⟨spelled.isSmall, hypothesis⟩

section

variable {items : List Item} {text : List Char}

/-- A unit that is no surrogate stands for a character by itself. -/
theorem Item.AllResolved.unit {value : Nat} (small : value < 0x10000)
    (high : isHighSurrogate value = false) (low : isLowSurrogate value = false)
    (others : AllResolved items text) :
    AllResolved (.unit value :: items) (Char.ofNat value :: text) := by
  have resolved : AllResolved ((Json.units (Char.ofNat value)).map .unit ++ items) _ :=
    .units others
  rwa [units_ofNat small high low] at resolved

theorem Item.AllResolved.pair {high low : Nat} (upper : isHighSurrogate high)
    (lower : isLowSurrogate low) (others : AllResolved items text) :
    AllResolved (.unit high :: .unit low :: items) (combine high low :: text) := by
  have resolved : AllResolved ((Json.units (combine high low)).map .unit ++ items) _ :=
    .units others
  rwa [units_combine upper lower] at resolved

/-- Items are decoded to what they stand for. -/
theorem Item.allResolved_of_decodeItems (small : ∀ item ∈ items, item.isSmall)
    (decoded : decodeItems items = some text) : AllResolved items text := by
  fun_induction decodeItems items generalizing text with
  | case1 =>
    cases decoded
    exact .nil
  | case2 character rest hypothesis =>
    obtain ⟨later, found, rfl⟩ := Option.map_eq_some_iff.1 decoded
    exact .plain (hypothesis (List.forall_mem_cons.1 small).2 found)
  | case3 character rest hypothesis =>
    obtain ⟨later, found, rfl⟩ := Option.map_eq_some_iff.1 decoded
    exact .escaped (hypothesis (List.forall_mem_cons.1 small).2 found)
  | case4 high low rest upper lower hypothesis =>
    obtain ⟨later, found, rfl⟩ := Option.map_eq_some_iff.1 decoded
    obtain ⟨-, -, others⟩ := List.forall_mem_cons.1 small |>.imp_right List.forall_mem_cons.1
    exact .pair upper lower (hypothesis others found)
  | case5 | case6 | case8 => cases decoded
  | case7 value low rest upper lower hypothesis =>
    obtain ⟨later, found, rfl⟩ := Option.map_eq_some_iff.1 decoded
    obtain ⟨first, others⟩ := List.forall_mem_cons.1 small
    exact .unit (of_decide_eq_true first) (Bool.eq_false_iff.2 upper) (Bool.eq_false_iff.2 lower)
      (hypothesis others found)
  | case9 value rest alone single hypothesis =>
    obtain ⟨later, found, rfl⟩ := Option.map_eq_some_iff.1 decoded
    obtain ⟨first, others⟩ := List.forall_mem_cons.1 small
    obtain ⟨upper, lower⟩ := not_or.1 (single ∘ Bool.or_eq_true_iff.2)
    exact .unit (of_decide_eq_true first) (Bool.eq_false_iff.2 upper) (Bool.eq_false_iff.2 lower)
      (hypothesis others found)

end

namespace Item

variable {item : Item} {front items : List Item} {high low : Nat}

theorem paired_nil : Paired [] where
  followed before high after split := by simp at split
  preceded before low after split := by simp at split

theorem paired_singleton (other : item.isSurrogate = false) : Paired [item] := by
  have single (unit : Nat) (same : item = .unit unit) :
      isHighSurrogate unit = false ∧ isLowSurrogate unit = false := by
    rwa [same, isSurrogate, Bool.or_eq_false_iff] at other
  constructor
  · intro before high after split upper
    have same : .unit high = item := List.mem_singleton.1 (split ▸ List.mem_append_cons_self)
    exact absurd (isHighSurrogate_iff.2 upper) (Bool.eq_false_iff.1 (single high same.symm).1)
  · intro before low after split lower
    have same : .unit low = item := List.mem_singleton.1 (split ▸ List.mem_append_cons_self)
    exact absurd (isLowSurrogate_iff.2 lower) (Bool.eq_false_iff.1 (single low same.symm).2)

theorem paired_pair (upper : isHighSurrogate high) (lower : isLowSurrogate low) :
    Paired [.unit high, .unit low] := by
  constructor
  · intro before other after split upperOther
    match before, split with
    | [], split =>
      cases split
      exact ⟨low, [], rfl, isLowSurrogate_iff.1 lower⟩
    | [_], split =>
      cases split
      exact absurd (isHighSurrogate_iff.2 upperOther)
        (Bool.eq_false_iff.1 (isHighSurrogate_of_isLowSurrogate lower))
    | _ :: _ :: _, split => simp at split
  · intro before other after split lowerOther
    match before, split with
    | [], split =>
      cases split
      exact absurd upper
        (Bool.eq_false_iff.1 (isHighSurrogate_of_isLowSurrogate (isLowSurrogate_iff.2 lowerOther)))
    | [_], split =>
      cases split
      exact ⟨[], high, rfl, isHighSurrogate_iff.1 upper⟩
    | _ :: _ :: _, split => simp at split

theorem Paired.append (paired : Paired front) (later : Paired items) :
    Paired (front ++ items) := by
  constructor
  · intro before high after split upper
    rcases List.append_eq_append_iff.1 split with ⟨middle, rfl, behind⟩ | ⟨left, rfl, behind⟩
    · exact later.followed middle high after behind upper
    · cases left with
      | nil => exact later.followed [] high after behind.symm upper
      | cons first left =>
        obtain ⟨rfl, rfl⟩ := List.cons.inj behind
        obtain ⟨low, rest, rfl, lower⟩ := paired.followed before high left rfl upper
        exact ⟨low, rest ++ items, rfl, lower⟩
  · intro before low after split lower
    rcases List.append_eq_append_iff.1 split with ⟨middle, rfl, behind⟩ | ⟨left, rfl, behind⟩
    · obtain ⟨earlier, high, rfl, upper⟩ := later.preceded middle low after behind lower
      exact ⟨front ++ earlier, high, (List.append_assoc ..).symm, upper⟩
    · cases left with
      | nil =>
        obtain ⟨_, _, missing, -⟩ := later.preceded [] low after behind.symm lower
        simp at missing
      | cons first left =>
        obtain ⟨rfl, -⟩ := List.cons.inj behind
        exact paired.preceded before low left rfl lower

/-- Behind pairs that are closed, a low surrogate has its own high one before it. -/
theorem Paired.of_append (paired : Paired front) (whole : Paired (front ++ items)) :
    Paired items := by
  constructor
  · rintro before high after rfl upper
    exact whole.followed (front ++ before) high after (List.append_assoc ..).symm upper
  · rintro before low after rfl lower
    obtain ⟨earlier, high, split, upper⟩ :=
      whole.preceded (front ++ before) low after (List.append_assoc ..).symm lower
    rcases List.eq_nil_or_concat' before with rfl | ⟨middle, last, rfl⟩
    · rw [List.append_nil] at split
      obtain ⟨_, _, missing, -⟩ := paired.followed earlier high [] split upper
      cases missing
    · rw [← List.append_assoc] at split
      obtain ⟨-, same⟩ := List.append_inj' split rfl
      exact ⟨middle, high, by rw [same], upper⟩

theorem not_paired_low (lower : isLowSurrogate low) : ¬ Paired (.unit low :: items) := by
  intro paired
  obtain ⟨earlier, high, split, -⟩ := paired.preceded [] low items rfl (isLowSurrogate_iff.1 lower)
  simp at split

/-- What is decoded behind pairs that are closed decides on the whole. -/
theorem Paired.isSome_map_iff (paired : Paired front) {decoded : Option (List Char)}
    (later : decoded.isSome ↔ Paired items) (character : Char) :
    (decoded.map (character :: ·)).isSome ↔ Paired (front ++ items) := by
  rw [Option.isSome_map, later]
  exact ⟨paired.append, paired.of_append⟩

/-- Items are decoded exactly if their surrogates come in pairs. -/
theorem isSome_decodeItems_iff : (decodeItems items).isSome ↔ Paired items := by
  fun_induction decodeItems items with
  | case1 => exact iff_of_true rfl paired_nil
  | case2 character rest hypothesis | case3 character rest hypothesis =>
    exact (paired_singleton rfl).isSome_map_iff hypothesis character
  | case4 high low rest upper lower hypothesis =>
    exact (paired_pair upper lower).isSome_map_iff hypothesis _
  | case5 high low rest upper lower =>
    refine iff_of_false Bool.false_ne_true fun paired => ?_
    obtain ⟨other, later, same, lowOther⟩ :=
      paired.followed [] high _ rfl (isHighSurrogate_iff.1 upper)
    cases same
    exact lower (isLowSurrogate_iff.2 lowOther)
  | case6 high low rest upper lower => exact iff_of_false Bool.false_ne_true (not_paired_low lower)
  | case7 value low rest upper lower hypothesis =>
    have alone : Paired [.unit value] := paired_singleton (by simp [isSurrogate, upper, lower])
    exact alone.isSome_map_iff hypothesis _
  | case8 value rest unfollowed surrogate =>
    refine iff_of_false Bool.false_ne_true fun paired => ?_
    rcases Bool.or_eq_true_iff.1 surrogate with upper | lower
    · obtain ⟨low, later, same, -⟩ :=
        paired.followed [] value rest rfl (isHighSurrogate_iff.1 upper)
      exact unfollowed low later same
    · exact not_paired_low lower paired
  | case9 value rest unfollowed single hypothesis =>
    have alone : Paired [.unit value] := paired_singleton (Bool.eq_false_iff.2 single)
    exact alone.isSome_map_iff hypothesis _

/-- Items stand for a text exactly if their surrogates come in pairs. -/
theorem exists_allResolved_iff (small : ∀ item ∈ items, item.isSmall) :
    (∃ text, AllResolved items text) ↔ Paired items := by
  rw [← isSome_decodeItems_iff, Option.isSome_iff_exists]
  exact exists_congr fun text => ⟨AllResolved.decodeItems_eq, allResolved_of_decodeItems small⟩

end Item

end Fluent.Json
