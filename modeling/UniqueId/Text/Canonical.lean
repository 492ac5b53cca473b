import UniqueId.Numeral

/-!
# The canonical form

A canonical text is 36 bytes: hyphens at the indexes 8, 13, 18 and 23, and an ASCII hexadecimal
digit of either case at each of the other 32.

`Canonical` says so as a proposition, one condition an index; `isCanonical` decides it, looking at
the length first (`isCanonical_iff`).
-/

namespace UniqueId.Text

/-- The byte `-`. -/
def hyphen : UInt8 := 45

/-- The length of every canonical text. -/
def canonicalLength : Nat := 36

/-- The places of the four hyphens. -/
def isHyphenIndex (i : Nat) : Bool :=
  i == 8 || i == 13 || i == 18 || i == 23

/-- Whether the byte may stand at the index in a canonical text. -/
def admits (i : Nat) (b : UInt8) : Bool :=
  if isHyphenIndex i then b == hyphen else Numeral.isHexDigit b

/-- A text in canonical form. -/
structure Canonical (text : Bytes) : Prop where
  /-- It has the canonical length. -/
  length_eq : text.length = canonicalLength
  /-- Each of its bytes may stand where it stands. -/
  admits_getElem : ∀ i (h : i < text.length), admits i text[i]

/-- Whether a text is in canonical form. -/
def isCanonical (text : Bytes) : Bool :=
  text.length == canonicalLength && text.zipIdx.all fun (b, i) => admits i b

theorem isCanonical_iff {text : Bytes} : isCanonical text ↔ Canonical text := by
  rw [isCanonical, Bool.and_eq_true, beq_iff_eq, List.all_eq_true]
  constructor
  · rintro ⟨hlen, hall⟩
    refine ⟨hlen, fun i h => ?_⟩
    exact hall (text[i], i) (List.mem_zipIdx_iff_getElem?.mpr (List.getElem?_eq_getElem h))
  · rintro ⟨hlen, hat⟩
    refine ⟨hlen, fun ⟨b, i⟩ hmem => ?_⟩
    obtain ⟨hi, hb⟩ := List.getElem?_eq_some_iff.mp (List.mem_zipIdx_iff_getElem?.mp hmem)
    simpa only [hb] using hat i hi

instance (text : Bytes) : Decidable (Canonical text) :=
  decidable_of_iff _ isCanonical_iff

/-- The values of the hexadecimal digits of a text, everything else left out. -/
def digits (text : Bytes) : List Nat :=
  text.filterMap Numeral.hexDigit?

end UniqueId.Text
