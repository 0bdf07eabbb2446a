/-
This file holds JSON texts as they are written, and their reader.
-/

import Fluent.Json.Number
import Fluent.Json.Text

namespace Fluent.Json

inductive Tree where
  | null
  | boolean (value : Bool)
  | number (numeral : Numeral)
  | text (items : List Item)
  | array (elements : List Tree)
  | object (members : List (List Item × Tree))
  deriving Repr

/-- The blanks that may stand around values and marks. -/
def isSpace (character : Char) : Bool :=
  character = ' ' || character = '\t' || character = '\n' || character = '\r'

def skipSpaces (text : List Char) : List Char :=
  text.dropWhile isSpace

mutual

/-- One value, with blanks before it, and what follows. Every call uses up one unit of fuel. -/
def readValue : Nat → List Char → Option (Tree × List Char)
  | 0, _ => none
  | fuel + 1, text =>
    match skipSpaces text with
    | 'n' :: 'u' :: 'l' :: 'l' :: rest => some (.null, rest)
    | 't' :: 'r' :: 'u' :: 'e' :: rest => some (.boolean true, rest)
    | 'f' :: 'a' :: 'l' :: 's' :: 'e' :: rest => some (.boolean false, rest)
    | '"' :: rest => (readItems rest).map fun read => (.text read.1, read.2)
    | '[' :: rest =>
      match skipSpaces rest with
      | ']' :: rest => some (.array [], rest)
      | rest => (readElements fuel rest).map fun read => (.array read.1, read.2)
    | '\x7b' :: rest =>
      match skipSpaces rest with
      | '\x7d' :: rest => some (.object [], rest)
      | rest => (readMembers fuel rest).map fun read => (.object read.1, read.2)
    | text => (readNumeral text).map fun read => (.number read.1, read.2)

/-- The elements of an array, at least one, up to and with its closing bracket. -/
def readElements : Nat → List Char → Option (List Tree × List Char)
  | 0, _ => none
  | fuel + 1, text =>
    match readValue fuel text with
    | none => none
    | some (element, rest) =>
      match skipSpaces rest with
      | ']' :: rest => some ([element], rest)
      | ',' :: rest => (readElements fuel rest).map fun read => (element :: read.1, read.2)
      | _ => none

/-- The members of an object, at least one, up to and with its closing brace. -/
def readMembers : Nat → List Char → Option (List (List Item × Tree) × List Char)
  | 0, _ => none
  | fuel + 1, text =>
    match skipSpaces text with
    | '"' :: rest =>
      match readItems rest with
      | none => none
      | some (key, rest) =>
        match skipSpaces rest with
        | ':' :: rest =>
          match readValue fuel rest with
          | none => none
          | some (value, rest) =>
            match skipSpaces rest with
            | '\x7d' :: rest => some ([(key, value)], rest)
            | ',' :: rest =>
              (readMembers fuel rest).map fun read => ((key, value) :: read.1, read.2)
            | _ => none
        | _ => none
    | _ => none

end

/-- A text that is one value is read; it takes at most two calls for each character. -/
def Tree.read? (text : List Char) : Option Tree :=
  match readValue (2 * text.length + 2) text with
  | some (tree, rest) => if (skipSpaces rest).isEmpty then some tree else none
  | none => none

end Fluent.Json
