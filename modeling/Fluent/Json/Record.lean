/-
This file holds the decoding of a tree into integers, texts, lists and records.
-/

import Fluent.Integer
import Fluent.Json.Tree

namespace Fluent.Json

/-- An integer of 64 bits with a sign, written as a whole numeral. -/
def Tree.integer? : Tree → Option Int
  | .number numeral =>
    match numeral.value? with
    | some (.integer value) => if value ≤ Integer.greatest then some value else none
    | _ => none
  | _ => none

def Tree.text? : Tree → Option String
  | .text items => textOfItems items
  | _ => none

/-- A list of which every element decodes. -/
def Tree.list? {α : Type} (decode : Tree → Option α) : Tree → Option (List α)
  | .array elements => elements.mapM decode
  | _ => none

/-- The members with known names. A name may occur once, and every key has to be a text. -/
def knownMembers (names : List String) :
    List (List Item × Tree) → Option (List (String × Tree))
  | [] => some []
  | (key, value) :: rest =>
    match textOfItems key, knownMembers names rest with
    | some name, some members =>
      if name ∉ names then some members
      else if (members.map Prod.fst).contains name then none
      else some ((name, value) :: members)
    | _, _ => none

/-- A record is an object, in which other names are passed over, or the array of its fields. -/
def Tree.record? (names : List String) : Tree → Option (List Tree)
  | .object members =>
    match knownMembers names members with
    | some known => names.mapM fun name => known.lookup name
    | none => none
  | .array elements => if elements.length = names.length then some elements else none
  | _ => none

end Fluent.Json
