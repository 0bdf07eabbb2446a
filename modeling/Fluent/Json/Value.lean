/-
This file holds JSON values: what a written text denotes, and how a value is written.
-/

import Fluent.Json.Tree

namespace Fluent.Json

inductive Value where
  | null
  | boolean (value : Bool)
  | number (value : Number)
  | text (value : String)
  | array (elements : List Value)
  | object (members : List (String × Value))
  deriving Repr

/-- Puts a member where its key belongs in increasing order, in place of one with the same key. -/
def insertMember (key : String) (value : Value) : List (String × Value) → List (String × Value)
  | [] => [(key, value)]
  | (other, present) :: rest =>
    if key < other then (key, value) :: (other, present) :: rest
    else if key = other then (key, value) :: rest
    else (other, present) :: insertMember key value rest

/-- Members in the order of their keys. Of several with one key the last counts. -/
def sortMembers (members : List (String × Value)) : List (String × Value) :=
  members.foldl (fun sorted member => insertMember member.1 member.2 sorted) []

/-- How deep arrays and objects may be nested in a value. -/
def depthLimit : Nat := 127

mutual

/-- The value that a tree denotes, if it is nested at most `room` deep. -/
def Value.decode : Nat → Tree → Option Value
  | _, .null => some .null
  | _, .boolean value => some (.boolean value)
  | _, .number numeral => numeral.value?.map .number
  | _, .text items => (textOfItems items).map .text
  | 0, .array _ => none
  | room + 1, .array elements => (Value.decodeElements room elements).map .array
  | 0, .object _ => none
  | room + 1, .object members =>
    (Value.decodeMembers room members).map fun members => .object (sortMembers members)

def Value.decodeElements : Nat → List Tree → Option (List Value)
  | _, [] => some []
  | room, element :: rest =>
    match Value.decode room element, Value.decodeElements room rest with
    | some value, some values => some (value :: values)
    | _, _ => none

def Value.decodeMembers : Nat → List (List Item × Tree) → Option (List (String × Value))
  | _, [] => some []
  | room, (key, value) :: rest =>
    match textOfItems key, Value.decode room value, Value.decodeMembers room rest with
    | some key, some value, some members => some ((key, value) :: members)
    | _, _, _ => none

end

def Value.ofTree? (tree : Tree) : Option Value :=
  Value.decode depthLimit tree

mutual

/-- The compact written form of a value, with members in their own order. -/
def Value.render : Value → String
  | .null => "null"
  | .boolean value => if value then "true" else "false"
  | .number value => value.render
  | .text value => quote value
  | .array elements => "[" ++ Value.renderElements elements ++ "]"
  | .object members => "\x7b" ++ Value.renderMembers members ++ "\x7d"

def Value.renderElements : List Value → String
  | [] => ""
  | [element] => element.render
  | element :: rest => element.render ++ "," ++ Value.renderElements rest

def Value.renderMembers : List (String × Value) → String
  | [] => ""
  | [(key, value)] => quote key ++ ":" ++ value.render
  | (key, value) :: rest => quote key ++ ":" ++ value.render ++ "," ++ Value.renderMembers rest

end

end Fluent.Json
