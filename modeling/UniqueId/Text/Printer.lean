import UniqueId.Text.Canonical
import UniqueId.Uuid.Basic

/-!
# Writing canonical text

The canonical text shows five fields of the 128 bits, of 8, 4, 4, 4 and 12 hexadecimal digits,
with hyphens between them. Every field is written at its full width, leading zeros included.
-/

namespace UniqueId.Uuid

/-- The five fields of the text form, each with its number of hexadecimal digits. -/
def textFields (u : Uuid) : List (Nat × UInt64) :=
  [(8, u.high >>> 32), (4, u.high >>> 16 &&& 0xFFFF), (4, u.high &&& 0xFFFF),
    (4, u.low >>> 48), (12, u.low &&& 0xFFFFFFFFFFFF)]

/-- The canonical text of an identifier. -/
def toText (letters : LetterCase) (u : Uuid) : Bytes :=
  [Text.hyphen].intercalate
    (u.textFields.map fun (width, field) => Numeral.fixedHex letters width field.toNat)

@[simp] theorem length_toText (letters : LetterCase) (u : Uuid) :
    (u.toText letters).length = Text.canonicalLength := by
  simp [toText, textFields, List.intercalate, List.intersperse, Text.canonicalLength]

end UniqueId.Uuid
