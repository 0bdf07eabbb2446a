/-
This file proves that a text between quotes reads as itself only if it needs no escape.
-/

import Fluent.Proofs.Json.Quoting
import Fluent.Proofs.Json.Reading

namespace Fluent.Json

/-- Characters that stand for themselves between quotes. -/
def Plain (text : List Char) : Prop :=
  ∀ character ∈ text, 0x20 ≤ character.toNat ∧ character ≠ '"' ∧ character ≠ '\\'

/-- What is added before an item that was read. -/
theorem addItem_eq_some_iff {item : Item} {read : Option (List Item × List Char)}
    {items : List Item} {rest : List Char} :
    addItem item read = some (items, rest) ↔
      ∃ others, read = some (others, rest) ∧ items = item :: others := by
  rcases read with _ | ⟨others, left⟩
  · simp [addItem]
  · simp only [addItem, Option.some.injEq, Prod.mk.injEq]
    grind

/-- Items that are read are spelled up to a quote. -/
theorem exists_spelled_of_readItems {text : List Char} {items : List Item} {rest : List Char}
    (read : readItems text = some (items, rest)) :
    ∃ quoted, Item.AllSpelled items quoted ∧ text = quoted ++ '"' :: rest := by
  fun_induction readItems text generalizing items with
  | case1 => cases read
  | case2 left =>
    cases read
    exact ⟨[], .nil, rfl⟩
  | case3 first second third fourth left value digits hypothesis =>
    obtain ⟨others, later, rfl⟩ := addItem_eq_some_iff.1 read
    obtain ⟨quoted, spelled, rfl⟩ := hypothesis later
    exact ⟨_, .cons (.unit (unitValue?_eq_some_iff.1 digits)) spelled, rfl⟩
  | case4 => cases read
  | case5 mark left short character value hypothesis =>
    obtain ⟨others, later, rfl⟩ := addItem_eq_some_iff.1 read
    obtain ⟨quoted, spelled, rfl⟩ := hypothesis later
    exact ⟨_, .cons (.escaped (escapeValue?_eq_some_iff.1 value)) spelled, rfl⟩
  | case6 => cases read
  | case7 => cases read
  | case8 character left unquoted _ _ free hypothesis =>
    obtain ⟨others, later, rfl⟩ := addItem_eq_some_iff.1 read
    obtain ⟨quoted, spelled, rfl⟩ := hypothesis later
    rw [not_or, Nat.not_lt] at free
    exact ⟨_, .cons (.plain free.2 unquoted free.1) spelled, rfl⟩

/-- One more item adds at most one character before another. -/
theorem exists_of_map_cons {decoded : Option (List Char)} {head character : Char}
    {text : List Char} {count : Nat}
    (hypothesis : ∀ text, decoded = some text →
      ∃ first rest, first.length ≤ count ∧ text = first ++ character :: rest)
    (mapped : decoded.map (head :: ·) = some text) :
    ∃ first rest, first.length ≤ count + 1 ∧ text = first ++ character :: rest := by
  obtain ⟨others, later, rfl⟩ := Option.map_eq_some_iff.1 mapped
  obtain ⟨first, rest, short, rfl⟩ := hypothesis others later
  exact ⟨head :: first, rest, Nat.succ_le_succ short, rfl⟩

/-- An escaped character stands behind at most as many characters as items. -/
theorem exists_of_decodeItems_escaped {before after : List Item} {character : Char}
    {text : List Char} (decoded : decodeItems (before ++ .escaped character :: after) = some text) :
    ∃ first rest, first.length ≤ before.length ∧ text = first ++ character :: rest := by
  induction before using decodeItems.induct generalizing text with
  | case1 =>
    obtain ⟨rest, -, rfl⟩ := Option.map_eq_some_iff.1 decoded
    exact ⟨[], rest, Nat.le_refl 0, rfl⟩
  | case2 head items hypothesis | case3 head items hypothesis =>
    exact exists_of_map_cons (fun _ => hypothesis) decoded
  | case4 high low items leading trailing hypothesis =>
    simp only [List.cons_append, decodeItems, leading, trailing, if_true] at decoded
    obtain ⟨first, rest, short, rfl⟩ := exists_of_map_cons (fun _ => hypothesis) decoded
    exact ⟨first, rest, Nat.le_succ_of_le short, rfl⟩
  | case5 high low items leading trailing =>
    simp [decodeItems, leading, trailing] at decoded
  | case6 high low items leading trailing =>
    simp [decodeItems, leading, trailing] at decoded
  | case7 high low items leading trailing hypothesis =>
    rw [List.cons_append, decodeItems_unit (Bool.eq_false_iff.2 leading)
      (Bool.eq_false_iff.2 trailing)] at decoded
    exact exists_of_map_cons (fun _ => hypothesis) decoded
  | case8 value items apart surrogate =>
    rcases items with _ | ⟨_ | _ | low, items⟩
    · simp [decodeItems, surrogate] at decoded
    · simp [decodeItems, surrogate] at decoded
    · simp [decodeItems, surrogate] at decoded
    · exact absurd rfl (apart low items)
  | case9 value items apart plain hypothesis =>
    rw [Bool.or_eq_true, not_or] at plain
    rw [List.cons_append, decodeItems_unit (Bool.eq_false_iff.2 plain.1)
      (Bool.eq_false_iff.2 plain.2)] at decoded
    exact exists_of_map_cons (fun _ => hypothesis) decoded

theorem HexSpelled.ne_quote {value : Nat} {digit : Char} (spelled : HexSpelled value digit) :
    digit ≠ '"' := by
  rintro rfl
  cases hexValue?_eq_some_iff.2 spelled

theorem UnitSpelled.quote_not_mem {value : Nat} {text : List Char}
    (spelled : UnitSpelled value text) : '"' ∉ text := by
  obtain ⟨thousands, hundreds, tens, ones⟩ := spelled
  simp [thousands.ne_quote.symm, hundreds.ne_quote.symm, tens.ne_quote.symm, ones.ne_quote.symm]

/-- The first quote between quotes is an escaped one. -/
theorem Item.AllSpelled.exists_quote {items : List Item} {quoted : List Char}
    (spelled : AllSpelled items quoted) (present : '"' ∈ quoted) :
    ∃ before after text rest, items = before ++ .escaped '"' :: after ∧
      quoted = text ++ '\\' :: '"' :: rest ∧ before.length ≤ text.length ∧ '"' ∉ text := by
  induction spelled with
  | nil => cases present
  | @cons item items first quoted one others hypothesis =>
    by_cases opening : '"' ∈ first
    · cases one with
      | plain printable unquoted unescaped =>
        exact absurd (List.mem_singleton.1 opening).symm unquoted
      | @escaped character mark stands =>
        obtain rfl : '"' = mark := by simpa using opening
        cases stands
        exact ⟨[], items, [], quoted, rfl, rfl, Nat.le_refl 0, List.not_mem_nil⟩
      | unit digits =>
        have other := digits.quote_not_mem
        simp [other] at opening
    · obtain ⟨before, after, text, rest, rfl, rfl, shorter, free⟩ :=
        hypothesis ((List.mem_append.1 present).resolve_left opening)
      refine ⟨item :: before, after, first ++ text, rest, rfl, by rw [List.append_assoc], ?_, ?_⟩
      · have nonempty : 1 ≤ first.length := by
          cases one <;> simp
        rw [List.length_cons, List.length_append]
        omega
      · rw [List.mem_append, not_or]
        exact ⟨opening, free⟩

/-- Between quotes there are at least as many characters as items, and more if one is escaped. -/
theorem Item.AllSpelled.length_le {items : List Item} {quoted : List Char}
    (spelled : AllSpelled items quoted) :
    items.length ≤ quoted.length ∧ (quoted.length ≤ items.length → Plain quoted) := by
  induction spelled with
  | nil => exact ⟨Nat.le_refl 0, fun _ => nofun⟩
  | cons one others hypothesis =>
    obtain ⟨shorter, plain⟩ := hypothesis
    cases one with
    | plain printable unquoted unescaped =>
      refine ⟨Nat.succ_le_succ shorter, fun short => ?_⟩
      exact List.forall_mem_cons.2 ⟨⟨printable, unquoted, unescaped⟩,
        plain (Nat.le_of_succ_le_succ short)⟩
    | escaped value => grind
    | unit digits =>
      obtain ⟨_, _, _, _, rfl⟩ := digits.exists_eq
      grind

/-- A text put between quotes reads as itself only if it needs no escape. -/
theorem plain_of_readItems {text rest left : List Char} {items : List Item}
    (read : readItems (text ++ '"' :: rest) = some (items, left))
    (decoded : decodeItems items = some text) : Plain text ∧ left = rest := by
  obtain ⟨quoted, spelled, split⟩ := exists_spelled_of_readItems read
  by_cases present : '"' ∈ quoted
  · obtain ⟨before, after, used, behind, rfl, rfl, shorter, free⟩ := spelled.exists_quote present
    obtain ⟨first, others, short, rfl⟩ := exists_of_decodeItems_escaped decoded
    have aligned : first ++ '"' :: (others ++ '"' :: rest) =
        (used ++ ['\\']) ++ '"' :: (behind ++ '"' :: left) := by
      simpa [List.append_assoc] using split
    rcases List.append_eq_append_iff.1 aligned with ⟨more, whole, next⟩ | ⟨more, whole, -⟩
    · have longer := congrArg List.length whole
      simp only [List.length_append, List.length_singleton] at longer
      cases more with
      | nil =>
        rw [List.length_nil] at longer
        omega
      | cons character more =>
        obtain ⟨rfl, -⟩ := List.cons.inj next
        have quote : '"' ∈ used ++ ['\\'] := by simp [whole]
        simp [free] at quote
    · have longer := congrArg List.length whole
      simp only [List.length_append, List.length_singleton] at longer
      omega
  · have shorter := length_decodeItems_le decoded
    obtain ⟨fewer, plain⟩ := spelled.length_le
    have same : text.length = quoted.length := by
      refine Nat.le_antisymm (Nat.le_trans shorter fewer) (Nat.le_of_not_lt fun less => present ?_)
      have opening : text ++ ['"'] <+: text ++ '"' :: rest := ⟨rest, by rw [List.append_assoc]; rfl⟩
      have part : text ++ ['"'] <+: quoted := by
        refine List.prefix_of_prefix_length_le opening ⟨'"' :: left, split.symm⟩ ?_
        rwa [List.length_append]
      exact part.subset (List.mem_append_right text (List.mem_singleton_self '"'))
    obtain ⟨rfl, behind⟩ := List.append_inj split same
    exact ⟨plain shorter, (List.cons.inj behind).2.symm⟩

end Fluent.Json
