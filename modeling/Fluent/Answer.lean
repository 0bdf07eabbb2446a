/-
This file holds the written form of an answer: one object with a member for each definition.
-/

import Fluent.Error
import Fluent.Json.Value
import Fluent.Text.Utf8

namespace Fluent.Answer

def openBrace : List UInt8 := Utf8.encode ['\x7b']

def closeBrace : List UInt8 := Utf8.encode ['\x7d']

def separator : List UInt8 := Utf8.encode [',', '\n']

/-- A name as the key of a member. Nothing in it is escaped. -/
def key (target : String) : List UInt8 :=
  Utf8.encode ('"' :: target.toList ++ ['"', ':'])

def member (target : String) (value : List UInt8) : List UInt8 :=
  key target ++ value

/-- The writes that a member begins with: a separator unless it is the first, and its key. -/
def opening (first : Bool) (target : String) : List (List UInt8) :=
  (if first then [] else [separator]) ++
    [Utf8.encode ['"'], Utf8.encode target.toList, Utf8.encode ['"', ':']]

theorem flatten_opening (first : Bool) (target : String) :
    (opening first target).flatten = (if first then [] else separator) ++ key target := by
  cases first <;> simp [opening, key, Utf8.encode]

/-- The answer with the given members. -/
def encode (members : List (String × List UInt8)) : List UInt8 :=
  openBrace ++ separator.intercalate (members.map fun entry => member entry.1 entry.2)
    ++ closeBrace

/-- What stands in the place of the value of a definition that failed. -/
def failure (error : Error) : List UInt8 :=
  Utf8.encode (Json.Value.object [("error", .text error.message)]).render.toList

end Fluent.Answer
