import UniqueId.Numeral

/-!
# Faults

What can be wrong with an argument, as causes and not as messages:

* a **text fault** says why a text is not a canonical identifier, and where;
* an **argument fault** says which argument of a call cannot be used.

Every fault has a message. A message quotes the offending byte as it is, so it can hold a NUL;
readers of NUL-terminated text see only what stands in front of it (`Fault.shortMessage`).
-/

namespace UniqueId

/-! ### Text faults -/

/-- How a single character breaks the canonical form. -/
inductive CharacterFault where
  /-- Something other than a hyphen stands at a hyphen's place. -/
  | expectedHyphen
  /-- A hyphen stands at a digit's place. -/
  | misplacedHyphen
  /-- Something that is no hexadecimal digit stands at a digit's place. -/
  | nonHex
deriving DecidableEq, Repr

/-- Why a text is not a canonical identifier. -/
inductive TextFault where
  /-- The byte at an index breaks the form. -/
  | character (kind : CharacterFault) (index : Nat) (byte : UInt8)
  /-- The length is wrong; `next` is the byte after the first 36, if there is one. -/
  | wrongLength (length : Nat) (next : Option UInt8)
  /-- There is no text at all. -/
  | missing
deriving DecidableEq, Repr

/-- What a character fault's message opens with. -/
def CharacterFault.message : CharacterFault → Bytes
  | expectedHyphen => Bytes.ascii "Expected hyphen"
  | misplacedHyphen => Bytes.ascii "Misplaced hyphen"
  | nonHex => Bytes.ascii "Non-hex character"

namespace TextFault

/-- The message, the offending byte quoted raw and in hexadecimal. -/
def message : TextFault → Bytes
  | character kind index byte =>
    kind.message ++ Bytes.ascii " at #" ++ Numeral.decimal index ++ Bytes.ascii ": '" ++ [byte]
      ++ Bytes.ascii "' (value 0x" ++ Numeral.numeral .lower 16 byte.toNat ++ Bytes.ascii ")"
  | wrongLength length _ =>
    Bytes.ascii "UUID has to be represented by the standard 36-char representation (got "
      ++ Numeral.decimal length ++ Bytes.ascii " chars)"
  | missing => Bytes.ascii "UUID string can not be null"

/-- Where the fault is: the index of the first byte at fault, or the place where the text ends
too early or fails to end. A missing text has no place. -/
def position? : TextFault → Option Nat
  | character _ index _ => some index
  | wrongLength length _ => some (min length 36)
  | missing => none

/-- The byte at fault, NUL where there is none. -/
def byte : TextFault → UInt8
  | character _ _ byte => byte
  | wrongLength _ next => next.getD 0
  | missing => 0

/-- The byte at fault as a number. -/
def codePoint (fault : TextFault) : Nat :=
  fault.byte.toNat

end TextFault

/-! ### Argument faults -/

/-- Why an argument cannot be used. -/
inductive ArgumentFault where
  /-- There is no buffer at all. -/
  | missingBuffer
  /-- The offset is below zero. -/
  | negativeOffset (offset : Int64)
  /-- Fewer than sixteen bytes are left from the offset on. -/
  | noRoom (offset : Int64) (length : UInt64)
  /-- The code does not fit the version field. -/
  | versionTooWide (code : Int32)
  /-- The code belongs to no kind. -/
  | unknownKind (code : Int32)
deriving DecidableEq, Repr

/-- The message of an argument fault, which names the argument in decimal. -/
def ArgumentFault.message : ArgumentFault → Bytes
  | missingBuffer => Bytes.ascii "Invalid byte buffer passed: can not be null"
  | negativeOffset offset =>
    Bytes.ascii "Invalid offset (" ++ Numeral.signedDecimal offset.toInt
      ++ Bytes.ascii ") passed: can not be negative"
  | noRoom offset length =>
    Bytes.ascii "Invalid offset (" ++ Numeral.signedDecimal offset.toInt
      ++ Bytes.ascii ") passed: not enough room in byte buffer of " ++ Numeral.decimal length.toNat
      ++ Bytes.ascii " bytes (need 16 bytes)"
  | versionTooWide code =>
    Bytes.ascii "Invalid raw UUID type (" ++ Numeral.signedDecimal code.toInt
      ++ Bytes.ascii "): must fit in 4 bits"
  | unknownKind code =>
    Bytes.ascii "Invalid UUID type code " ++ Numeral.signedDecimal code.toInt

/-! ### Either -/

/-- A fault of a call. -/
inductive Fault where
  | text (fault : TextFault)
  | argument (fault : ArgumentFault)
deriving DecidableEq, Repr

namespace Fault

/-- The whole message. -/
def message : Fault → Bytes
  | text fault => fault.message
  | argument fault => fault.message

/-- The message as far as its first NUL. -/
def shortMessage (fault : Fault) : Bytes :=
  fault.message.untilNul

end Fault

end UniqueId
