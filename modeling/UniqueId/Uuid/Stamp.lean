import UniqueId.Fault
import UniqueId.Uuid.Kind

/-!
# Stamping

A generator's raw bits become an identifier by writing two fields: the version, which takes the
kind's code, and the variant, which takes the standard value `2`. All other bits stay.

Any code of four bits can be stamped, also one that belongs to no kind; a wider one is refused
before anything is written.
-/

namespace UniqueId

/-- A code that fits the version field, as a number below sixteen. -/
def versionOfCode (code : Int32) : Except ArgumentFault (Fin 16) :=
  if code < 0 ∨ 15 < code then .error (.versionTooWide code)
  else .ok (Fin.ofNat 16 code.toNatClampNeg)

private theorem misfit_iff {code : Int32} :
    code < 0 ∨ 15 < code ↔ code.toInt < 0 ∨ 15 < code.toInt := by
  rw [Int32.lt_iff_toInt_lt, Int32.lt_iff_toInt_lt]
  rfl

/-- The codes that fit are those from zero to fifteen. -/
theorem versionOfCode_eq_ok_iff {code : Int32} {version : Fin 16} :
    versionOfCode code = .ok version ↔ code.toInt = (version : Nat) := by
  have hlt : (version : Nat) < 16 := version.isLt
  rw [versionOfCode]
  split
  · next h => exact iff_of_false (by simp) (by have := misfit_iff.mp h; omega)
  · next h =>
    have hfit := mt misfit_iff.mpr h
    have hnat : (code.toNatClampNeg : Int) = code.toInt :=
      (Int32.toInt_eq_toNatClampNeg (by rw [Int32.le_iff_toInt_le, Int32.toInt_zero]; omega)).symm
    rw [Except.ok.injEq, Fin.ext_iff]
    simp only [Fin.ofNat]
    omega

theorem versionOfCode_eq_error_iff {code : Int32} {fault : ArgumentFault} :
    versionOfCode code = .error fault ↔
      (code.toInt < 0 ∨ 15 < code.toInt) ∧ fault = .versionTooWide code := by
  rw [versionOfCode, ← misfit_iff]
  split
  · next h => simp [h, eq_comm]
  · next h => simp [h]

namespace Uuid

-- powers are those of the natural numbers alone, whatever else is in scope
attribute [local instance (high)] instPowNat

/-- The high word with its version field set. -/
def stampHigh (version : Fin 16) (high : UInt64) : UInt64 :=
  (high &&& ~~~versionMask) ||| (UInt64.ofNat version <<< versionShift)

/-- The low word with its variant field set to the standard value. -/
def stampLow (low : UInt64) : UInt64 :=
  (low &&& ~~~variantMask) ||| variantStandard

/-- The identifier with its version field set and its variant standard. -/
def stamp (u : Uuid) (version : Fin 16) : Uuid :=
  ⟨stampHigh version u.high, stampLow u.low⟩

/-- The high word stamped with a code. -/
def stampHighWithCode (code : Int32) (high : UInt64) : Except ArgumentFault UInt64 :=
  (versionOfCode code).map (stampHigh · high)

/-- The identifier stamped with a code. -/
def stampWithCode (u : Uuid) (code : Int32) : Except ArgumentFault Uuid :=
  (versionOfCode code).map u.stamp

/-- Stamping a high word replaces its version field and nothing else. -/
theorem toNat_stampHigh (version : Fin 16) (high : UInt64) :
    (stampHigh version high).toNat =
      2 ^ (16 : Nat) * (high.toNat / 2 ^ (16 : Nat)) +
        (2 ^ (12 : Nat) * version + high.toNat % 2 ^ (12 : Nat)) := by
  have hcleared : (high &&& ~~~versionMask).toNat =
      2 ^ 16 * (high.toNat / 2 ^ 16) + high.toNat % 2 ^ 12 :=
    toNat_highWithoutVersion ⟨high, 0⟩
  have hversion :
      (UInt64.ofNat version <<< versionShift).toNat = 2 ^ 16 * 0 + 2 ^ 12 * version := by
    have hlt : (version : Nat) < 16 := version.isLt
    rw [UInt64.toNat_shiftLeft, UInt64.toNat_ofNat', show versionShift.toNat % 64 = 12 from rfl,
      Nat.shiftLeft_eq]
    omega
  have hrest : high.toNat % 2 ^ 12 < 2 ^ 12 := Nat.mod_lt _ (by decide)
  rw [stampHigh, UInt64.toNat_or, hcleared, hversion,
    Bits.two_pow_mul_add_or (by omega) (by omega), Nat.or_zero, Nat.or_comm (high.toNat % 2 ^ 12),
    Bits.two_pow_mul_or hrest]

/-- Stamping a low word replaces its variant field and nothing else. -/
theorem toNat_stampLow (low : UInt64) :
    (stampLow low).toNat = 2 ^ (63 : Nat) + low.toNat % 2 ^ (62 : Nat) := by
  have hmask : (~~~variantMask).toNat = 2 ^ 62 - 1 := rfl
  have hstandard : variantStandard.toNat = 2 ^ 63 * 1 := rfl
  have hrest : low.toNat % 2 ^ 62 < 2 ^ 63 :=
    Nat.lt_trans (Nat.mod_lt _ (by decide)) (by decide)
  rw [stampLow, UInt64.toNat_or, UInt64.toNat_and, hmask, Nat.and_two_pow_sub_one_eq_mod,
    hstandard, Nat.or_comm, Bits.two_pow_mul_or hrest, Nat.mul_one]

@[simp] theorem version_stamp (version : Fin 16) (u : Uuid) :
    (u.stamp version).version = version := by
  have hlt : (version : Nat) < 16 := version.isLt
  rw [version_eq, stamp, toNat_stampHigh]
  omega

@[simp] theorem variant_stamp (version : Fin 16) (u : Uuid) : (u.stamp version).variant = 2 := by
  rw [variant_eq, stamp, toNat_stampLow]
  omega

end Uuid

/-! ### The same on single bytes -/

/-- The byte that holds the version, its high nibble set. -/
def stampVersionByte (version : Fin 16) (b : UInt8) : UInt8 :=
  (b &&& 0x0F) ||| (UInt8.ofNat version <<< (4 : UInt8))

/-- The byte that holds the variant, its top two bits set to the standard value. -/
def stampVariantByte (b : UInt8) : UInt8 :=
  (b &&& 0x3F) ||| 0x80

end UniqueId
