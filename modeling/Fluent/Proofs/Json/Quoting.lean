/-
This file proves that a written text spells the text, and resolves to it.
-/

import Fluent.Json.Value
import Fluent.Proofs.Json.Grammar

namespace Fluent.Json

/-- How a character is put between quotes. -/
def Item.ofCharacter (character : Char) : Item :=
  if character ∈ ['"', '\\', '\x08', '\x0c', '\n', '\r', '\t'] then .escaped character
  else if character.toNat < 0x20 then .unit character.toNat
  else .plain character

theorem HexSpelled.digitChar {value : Nat} (small : value < 16) :
    HexSpelled value (Nat.digitChar value) := by
  have all : ∀ value < 16, (decimalDigits ++ ['a', 'b', 'c', 'd', 'e', 'f'])[value]? =
      some (Nat.digitChar value) := by decide
  exact .lower (all value small)

theorem UnitSpelled.control {code : Nat} (control : code < 0x20) :
    UnitSpelled code ['0', '0', Nat.digitChar (code / 16), Nat.digitChar (code % 16)] := by
  have zero : HexSpelled 0 '0' := .lower rfl
  have spelled := UnitSpelled.digits zero zero
    (HexSpelled.digitChar (show code / 16 < 16 by omega))
    (HexSpelled.digitChar (show code % 16 < 16 by omega))
  have same : 0 * 0x1000 + 0 * 0x100 + code / 16 * 0x10 + code % 16 = code := by omega
  rwa [same] at spelled

/-- A character is spelled by its escape. -/
theorem Item.spelled_escape (character : Char) :
    Item.Spelled (.ofCharacter character) (escape character) := by
  unfold escape
  split
  case h_8 quote backslash backspace feed newline carriage tab =>
    have unmarked : character ∉ ['"', '\\', '\x08', '\x0c', '\n', '\r', '\t'] := by
      simp only [List.mem_cons, List.not_mem_nil, or_false, not_or]
      exact ⟨quote, backslash, backspace, feed, newline, carriage, tab⟩
    rw [ofCharacter, if_neg unmarked]
    split
    next control => exact .unit (.control control)
    next printable => exact .plain (Nat.le_of_not_lt printable) quote backslash
  · exact .escaped .quotationMark
  · exact .escaped .reverseSolidus
  · exact .escaped .backspace
  · exact .escaped .formFeed
  · exact .escaped .lineFeed
  · exact .escaped .carriageReturn
  · exact .escaped .tab

theorem Item.allSpelled_escape (text : List Char) :
    Item.AllSpelled (text.map .ofCharacter) (text.flatMap escape) := by
  induction text with
  | nil => exact .nil
  | cons character rest hypothesis =>
    rw [List.map_cons, List.flatMap_cons]
    exact .cons (Item.spelled_escape character) hypothesis

/-- Characters that need no escape spell themselves. -/
theorem Item.allSpelled_plain {text : List Char}
    (free : ∀ character ∈ text, 0x20 ≤ character.toNat ∧ character ≠ '"' ∧ character ≠ '\\') :
    Item.AllSpelled (text.map .plain) text := by
  induction text with
  | nil => exact .nil
  | cons character rest hypothesis =>
    obtain ⟨⟨printable, unquoted, unescaped⟩, later⟩ := List.forall_mem_cons.1 free
    exact .cons (.plain printable unquoted unescaped) (hypothesis later)

theorem textOfItems_plain (text : String) :
    textOfItems (text.toList.map .plain) = some text := by
  have decoded (characters : List Char) :
      decodeItems (characters.map .plain) = some characters := by
    induction characters with
    | nil => rfl
    | cons character rest hypothesis =>
      rw [List.map_cons, decodeItems, hypothesis]
      rfl
  rw [textOfItems, decoded, Option.map_some, String.ofList_toList]

/-- A unit that is no surrogate is a character by itself, whatever follows. -/
theorem decodeItems_unit {value : Nat} (high : isHighSurrogate value = false)
    (low : isLowSurrogate value = false) (items : List Item) :
    decodeItems (.unit value :: items) = (decodeItems items).map (Char.ofNat value :: ·) := by
  cases items with
  | nil => simp [decodeItems, high, low]
  | cons item items => cases item <;> simp [decodeItems, high, low]

/-- Items stand for as many characters as they are, at most. -/
theorem length_decodeItems_le {items : List Item} {text : List Char}
    (decoded : decodeItems items = some text) : text.length ≤ items.length := by
  fun_induction decodeItems items generalizing text with
  | case1 =>
    cases decoded
    exact Nat.le_refl 0
  | case2 | case3 | case4 | case7 | case9 =>
    simp only [Option.map_eq_some_iff] at decoded
    grind
  | case5 | case6 | case8 => cases decoded

theorem decodeItems_ofCharacter (text : List Char) :
    decodeItems (text.map .ofCharacter) = some text := by
  induction text with
  | nil => rfl
  | cons character rest hypothesis =>
    rw [List.map_cons, Item.ofCharacter]
    split
    · rw [decodeItems, hypothesis]
      rfl
    · split
      next control =>
        have high : isHighSurrogate character.toNat = false := by
          simp [isHighSurrogate]
          omega
        have low : isLowSurrogate character.toNat = false := by
          simp [isLowSurrogate]
          omega
        rw [decodeItems_unit high low, hypothesis, Char.ofNat_toNat]
        rfl
      next =>
        rw [decodeItems, hypothesis]
        rfl

theorem textOfItems_ofCharacter (text : String) :
    textOfItems (text.toList.map .ofCharacter) = some text := by
  rw [textOfItems, decodeItems_ofCharacter, Option.map_some, String.ofList_toList]

theorem toList_quote (text : String) :
    (quote text).toList = '"' :: (text.toList.flatMap escape ++ ['"']) := by
  rw [quote, String.toList_ofList, List.cons_append]

/-- A quoted text is spelled by what is written for it. -/
theorem spelled_quote (text : String) :
    Phrase.Spelled (.value (.text (text.toList.map .ofCharacter))) (quote text).toList := by
  rw [toList_quote]
  exact .text (Item.allSpelled_escape text.toList)

/-- An object with one text in it is spelled by what is written for it. -/
theorem spelled_labelled (label text : String) :
    (Tree.object [(label.toList.map .ofCharacter, .text (text.toList.map .ofCharacter))]).Spelled
      (Value.object [(label, .text text)]).render.toList := by
  have named := Item.allSpelled_escape label.toList
  have value := Phrase.Spelled.padded Spaces.nil (spelled_quote text) Spaces.nil
  have object := Phrase.Spelled.object (.lastMember (.member Spaces.nil named Spaces.nil value))
  have whole := Phrase.Spelled.padded Spaces.nil object Spaces.nil
  simpa [Tree.Spelled, Value.render, Value.renderMembers, toList_quote] using whole

end Fluent.Json
