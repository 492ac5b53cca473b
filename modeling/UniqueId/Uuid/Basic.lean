import UniqueId.Bits
import UniqueId.Word

/-!
# Unique identifiers

An identifier is 128 bits, held as two 64-bit words in reading order. Of those bits only two
fields mean anything here, and both cut across the words' natural byte boundaries:

* the **version**, four bits at 12 to 15 of the high word;
* the **variant**, the two top bits of the low word.

Everything else is carried as it is. `Uuid.toNat` is the identifier as one number, and the order
on identifiers is the order on those numbers (`lt_iff_toNat_lt`).
-/

namespace UniqueId

/-- A 128-bit identifier: its first 64 bits and its last 64 bits. -/
@[ext] structure Uuid where
  /-- The first 64 bits. -/
  high : UInt64
  /-- The last 64 bits. -/
  low : UInt64
deriving DecidableEq, Repr

namespace Uuid

-- powers are those of the natural numbers alone, whatever else is in scope
attribute [local instance (high)] instPowNat

/-- The identifier whose bits are all zero. -/
def nil : Uuid := ⟨0, 0⟩

/-- The identifier whose bits are all one. -/
def max : Uuid := ⟨0xFFFFFFFFFFFFFFFF, 0xFFFFFFFFFFFFFFFF⟩

instance : Inhabited Uuid := ⟨nil⟩

/-- The number of bytes of an identifier. -/
def size : Nat := 16

/-! ### Places of the fields -/

/-- The version bits of the high word. -/
def versionMask : UInt64 := 0x000000000000F000

/-- How far the version stands above the lowest bit of the high word. -/
def versionShift : UInt64 := 12

/-- The variant bits of the low word. -/
def variantMask : UInt64 := 0xC000000000000000

/-- The variant of the standard layout, binary `10`, in its place. -/
def variantStandard : UInt64 := 0x8000000000000000

/-- How far the variant stands above the lowest bit of the low word. -/
def variantShift : UInt64 := 62

/-- Among the sixteen bytes: where the low part of the clock begins. -/
def clockLowOffset : Nat := 0

/-- Among the sixteen bytes: where the middle part of the clock begins. -/
def clockMidOffset : Nat := 4

/-- Among the sixteen bytes: where the high part of the clock begins. -/
def clockHighOffset : Nat := 6

/-- Among the sixteen bytes: the one that holds the version, in its high nibble. -/
def versionOffset : Nat := 6

/-- Among the sixteen bytes: where the clock sequence begins. -/
def clockSequenceOffset : Nat := 8

/-- Among the sixteen bytes: the one that holds the variant, in its top two bits. -/
def variantOffset : Nat := 8

/-! ### Fields -/

/-- The version field, below sixteen. -/
def version (u : Uuid) : Nat :=
  ((u.high &&& versionMask) >>> versionShift).toNat

/-- The variant field, below four; the standard layout has `2`. -/
def variant (u : Uuid) : Nat :=
  (u.low >>> variantShift).toNat

/-- The high word with its version field zeroed. -/
def highWithoutVersion (u : Uuid) : UInt64 :=
  u.high &&& ~~~versionMask

theorem version_eq (u : Uuid) : u.version = u.high.toNat / 2 ^ (12 : Nat) % 16 := by
  rw [version, UInt64.toNat_shiftRight, UInt64.toNat_and, Nat.shiftRight_and_distrib,
    show versionMask.toNat >>> (versionShift.toNat % 64) = 2 ^ 4 - 1 from rfl,
    Nat.and_two_pow_sub_one_eq_mod, Nat.shiftRight_eq_div_pow]
  rfl

theorem version_lt (u : Uuid) : u.version < 16 := by
  rw [version_eq]
  exact Nat.mod_lt _ (by decide)

theorem variant_eq (u : Uuid) : u.variant = u.low.toNat / 2 ^ (62 : Nat) := by
  rw [variant, UInt64.toNat_shiftRight, Nat.shiftRight_eq_div_pow]
  rfl

theorem variant_lt (u : Uuid) : u.variant < 4 := by
  have hlow : u.low.toNat < 2 ^ 64 := u.low.toNat_lt
  rw [variant_eq]
  omega

theorem toNat_highWithoutVersion (u : Uuid) :
    u.highWithoutVersion.toNat =
      2 ^ (16 : Nat) * (u.high.toNat / 2 ^ (16 : Nat)) + u.high.toNat % 2 ^ (12 : Nat) := by
  have hmask : (~~~versionMask).toNat = 2 ^ 16 * (2 ^ 48 - 1) + (2 ^ 12 - 1) := rfl
  rw [highWithoutVersion, UInt64.toNat_and, hmask,
    Bits.and_clear _ (by decide) (show _ < 2 ^ (16 + 48) from u.high.toNat_lt)]

/-! ### Hash -/

/-- What the hash adds to both words, so that small identifiers do not hash to small numbers. -/
def hashIncrement : UInt64 := 0x9E3779B97F4A7C15

/-- The hash of an identifier, all sums modulo `2 ^ 64`. -/
protected def hash (u : Uuid) : UInt64 :=
  u.high ^^^ (u.low + hashIncrement + (u.high <<< (6 : UInt64))
    + (u.high >>> (2 : UInt64)))

instance : Hashable Uuid := ⟨Uuid.hash⟩

/-! ### One number, one order -/

/-- The identifier as one number below `2 ^ 128`. -/
def toNat (u : Uuid) : Nat :=
  u.high.toNat * 2 ^ (64 : Nat) + u.low.toNat

/-- Identifiers compare by their high words, and by their low words where those agree. -/
instance : LT Uuid := ⟨fun u v => u.high < v.high ∨ (u.high = v.high ∧ u.low < v.low)⟩

theorem lt_def {u v : Uuid} :
    u < v ↔ u.high < v.high ∨ (u.high = v.high ∧ u.low < v.low) := Iff.rfl

instance (u v : Uuid) : Decidable (u < v) :=
  decidable_of_iff _ lt_def.symm

theorem toNat_lt (u : Uuid) : u.toNat < 2 ^ (128 : Nat) := by
  have hhigh : u.high.toNat < 2 ^ 64 := u.high.toNat_lt
  have hlow : u.low.toNat < 2 ^ 64 := u.low.toNat_lt
  rw [toNat]
  omega

theorem toNat_inj {u v : Uuid} : u.toNat = v.toNat ↔ u = v := by
  have hu : u.low.toNat < 2 ^ 64 := u.low.toNat_lt
  have hv : v.low.toNat < 2 ^ 64 := v.low.toNat_lt
  rw [Uuid.ext_iff, ← UInt64.toNat_inj, ← UInt64.toNat_inj, toNat, toNat]
  omega

/-- The order on identifiers is the order on their numbers. -/
theorem lt_iff_toNat_lt {u v : Uuid} : u < v ↔ u.toNat < v.toNat := by
  have hu : u.low.toNat < 2 ^ 64 := u.low.toNat_lt
  have hv : v.low.toNat < 2 ^ 64 := v.low.toNat_lt
  rw [lt_def, UInt64.lt_iff_toNat_lt, UInt64.lt_iff_toNat_lt, ← UInt64.toNat_inj, toNat, toNat]
  omega

end Uuid

end UniqueId
