/-
This file holds the failures of the transport that a program or its answer travels on.
-/

namespace Fluent

/-- What went wrong with the transport, as opposed to the program text that it carried. -/
inductive Fault where
  /-- The device behind the reader or the sink refused, and says why. -/
  | device (reason : String)
  /-- The input ends inside a character. -/
  | truncated
  /-- No character starts with this byte. -/
  | invalidLead (byte : UInt8) (position : Nat)
  /-- The byte after this many bytes of a character cannot stand there. -/
  | invalidTail (length : Nat)
  deriving DecidableEq, Repr

/-- Two lower-case hexadecimal digits. -/
def hexByte (byte : UInt8) : String :=
  String.ofList [Nat.digitChar (byte.toNat / 16), Nat.digitChar (byte.toNat % 16)]

def Fault.message : Fault → String
  | .device reason => reason
  | .truncated => "failed to fill whole buffer"
  | .invalidLead byte position =>
    s!"invalid UTF-8 lead byte 0x{hexByte byte} at byte {position}"
  | .invalidTail length => s!"invalid utf-8 sequence of {length} bytes from index 0"

end Fluent
