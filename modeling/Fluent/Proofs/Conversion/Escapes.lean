/-
This file proves which quoted texts can be converted: those whose surrogates come in pairs.
-/

import Fluent.Proofs.Conversion.Text
import Fluent.Proofs.Json.Surrogates
import Fluent.Proofs.Lexer.Literals
import Fluent.Proofs.Scanner.Respelling

namespace Fluent

open Json (Item)
open Viewed (Shows)
open Lexer

namespace Argument

variable {items : List Item} {body : List Char} {literal : String}

theorem toText_of_allSpelled (whole : literal.toList = '"' :: (body ++ ['"']))
    (spelled : Item.AllSpelled items body) :
    (mk .text literal).toText =
      match Json.decodeItems items with
      | some text => .ok (String.ofList text)
      | none => .error (.json literal) := by
  have quoted : Json.Phrase.Spelled (.value (.text items)) literal.toList := whole ▸ .text spelled
  rw [toText_of_spelled quoted, Json.textOfItems]
  cases Json.decodeItems items <;> rfl

/-- A quoted text is converted to what its items stand for. -/
theorem toText_eq_ok_iff (whole : literal.toList = '"' :: (body ++ ['"']))
    (spelled : Item.AllSpelled items body) {text : String} :
    (mk .text literal).toText = .ok text ↔ Item.AllResolved items text.toList := by
  rw [toText_of_allSpelled whole spelled]
  constructor
  · intro converted
    apply Item.allResolved_of_decodeItems spelled.isSmall
    split at converted
    next decoded =>
      cases converted
      rw [decoded, String.toList_ofList]
    next => cases converted
  · intro resolved
    rw [resolved.decodeItems_eq]
    exact congrArg Except.ok String.ofList_toList

/-- A quoted text is refused if its items stand for nothing. -/
theorem toText_of_not_paired (whole : literal.toList = '"' :: (body ++ ['"']))
    (spelled : Item.AllSpelled items body) (unpaired : ¬ Item.Paired items) :
    (mk .text literal).toText = .error (.json literal) := by
  rw [← Item.isSome_decodeItems_iff, Option.not_isSome_iff_eq_none] at unpaired
  rw [toText_of_allSpelled whole spelled, unpaired]

end Argument

/-- A quoted text that is scanned is converted exactly if its surrogates come in pairs. -/
theorem Scanner.toText_of_scans {σ : Type} [CharSource σ] [Viewed σ] {source : σ} {view : View}
    (shown : Shows source view) {flags : List Bool} {token : Scanned}
    (present : token ∈ scans flags source) (quoted : token.kind = .text) :
    let argument : Argument := ⟨token.kind, token.literal⟩
    (∃ body items, token.literal.toList = '"' :: (body ++ ['"']) ∧ Item.AllSpelled items body) ∧
      ∀ body items, token.literal.toList = '"' :: (body ++ ['"']) → Item.AllSpelled items body →
        ((∃ text, argument.toText = .ok text) ↔ Item.Paired items) ∧
          (∀ text, argument.toText = .ok text ↔ Item.AllResolved items text.toList) ∧
          (¬ Item.Paired items → argument.toText = .error (.json token.literal)) := by
  intro argument
  have same : argument = ⟨.text, token.literal⟩ := congrArg (Argument.mk · token.literal) quoted
  rw [scans_eq shown] at present
  obtain ⟨found, all⟩ := View.readToken_of_mem_scans present
  constructor
  · obtain ⟨body, whole, plain⟩ := isQuoted_of_readToken (found.trans quoted) all
    obtain ⟨items, spelled⟩ := isQuotedBody_iff_spelled.1 plain
    exact ⟨body, items, whole, spelled⟩
  · intro body items whole spelled
    rw [same]
    have resolves (text : String) :
        (Argument.mk .text token.literal).toText = .ok text ↔ Item.AllResolved items text.toList :=
      Argument.toText_eq_ok_iff whole spelled
    refine ⟨?_, resolves, Argument.toText_of_not_paired whole spelled⟩
    rw [← Item.exists_allResolved_iff spelled.isSmall]
    constructor
    · rintro ⟨text, converted⟩
      exact ⟨text.toList, (resolves text).1 converted⟩
    · rintro ⟨text, resolved⟩
      exact ⟨String.ofList text, (resolves _).2 (by rwa [String.toList_ofList])⟩

/-- Escapes of every form around a backslash that is escaped itself, and a pair that is split. -/
theorem Scanner.toText_of_scans_pair :
    let joined : Scanned := ⟨.text, "\"\\\\u\\n\\t\\u004A\\ud83d\\ude00\"", 0, 0⟩
    let split : Scanned := ⟨.text, "\"\\ud83dx\\ude00\"", 0, 0⟩
    let items : List Item := [.escaped '\\', .plain 'u', .escaped '\n', .escaped '\t',
      .unit 0x4A, .unit 0xD83D, .unit 0xDE00]
    joined ∈ scans [false] (TextSource.ofString joined.literal) ∧
      (Argument.mk .text joined.literal).toText = .ok "\\u\n\tJ😀" ∧
      Item.Paired items ∧ Item.AllResolved items "\\u\n\tJ😀".toList ∧
      split ∈ scans [false] (TextSource.ofString split.literal) ∧
      (Argument.mk .text split.literal).toText = .error (.json split.literal) := by
  intro joined split items
  have shown (text : String) : Shows (TextSource.ofString text) (View.ofText text.toList) :=
    TextSource.ofList_shows text.toList
  have first : joined ∈ scans [false] (TextSource.ofString joined.literal) := by
    have read : scans [false] (TextSource.ofString joined.literal) = [joined] := by cbv
    rw [read]
    exact List.mem_cons_self
  have second : split ∈ scans [false] (TextSource.ofString split.literal) := by
    have read : scans [false] (TextSource.ofString split.literal) = [split] := by cbv
    rw [read]
    exact List.mem_cons_self
  have converted : (Argument.mk .text joined.literal).toText = .ok "\\u\n\tJ😀" := by
    decide +kernel
  have plain (character : Char) (free : 0x20 ≤ character.toNat ∧ character ≠ '"' ∧
      character ≠ '\\') : Item.Spelled (.plain character) [character] :=
    .plain free.1 free.2.1 free.2.2
  have letter : Item.Spelled (.unit 0x4A) ['\\', 'u', '0', '0', '4', 'A'] :=
    .unit (@Json.UnitSpelled.digits 0 0 4 10 _ _ _ _
      (.lower rfl) (.lower rfl) (.lower rfl) (.upper rfl))
  have high : Item.Spelled (.unit 0xD83D) ['\\', 'u', 'd', '8', '3', 'd'] :=
    .unit (@Json.UnitSpelled.digits 0xD 8 3 0xD _ _ _ _
      (.lower rfl) (.lower rfl) (.lower rfl) (.lower rfl))
  have low : Item.Spelled (.unit 0xDE00) ['\\', 'u', 'd', 'e', '0', '0'] :=
    .unit (@Json.UnitSpelled.digits 0xD 0xE 0 0 _ _ _ _
      (.lower rfl) (.lower rfl) (.lower rfl) (.lower rfl))
  obtain ⟨-, joinedReads⟩ := toText_of_scans (shown _) first rfl
  obtain ⟨-, splitReads⟩ := toText_of_scans (shown _) second rfl
  obtain ⟨pairs, resolves, -⟩ := joinedReads _ items (by decide)
    (.cons (.escaped .reverseSolidus) (.cons (plain 'u' (by decide)) (.cons (.escaped .lineFeed)
      (.cons (.escaped .tab) (.cons letter (.cons high (.cons low .nil)))))))
  obtain ⟨-, -, refuses⟩ := splitReads _ _ (by decide)
    (.cons high (.cons (plain 'x' (by decide)) (.cons low .nil)))
  refine ⟨first, converted, pairs.1 ⟨_, converted⟩, (resolves _).1 converted, second,
    refuses fun paired => ?_⟩
  obtain ⟨low, rest, follows, -⟩ := paired.followed [] _ _ rfl (by decide)
  cases follows

end Fluent
