import Mathlib.Tactic.IntervalCases
import UniqueId.Proofs.Positional
import UniqueId.Uuid.Binary
import UniqueId.Uuid.Stamp

/-!
# The sixteen bytes as digits

The bytes of an identifier are the digits of its number in base 256 (`Uuid.toNat_toBytes`). Since
a run of digits is determined by its length and its value, every fact about single bytes follows
from arithmetic on numbers:

* `Uuid.toBytes_ofBytes`: any sixteen bytes are read and written back unchanged.
* `Uuid.toNat_getElem_toBytes`: the byte at an index is a quotient and a remainder.
* `Uuid.toBytes_stamp`: stamping the two words changes two bytes, and each of them within itself.
-/

namespace UniqueId

open Numeral (value)

/-- The number that a run of bytes denotes, most significant byte first. -/
def Bytes.toNat (bs : Bytes) : Nat :=
  value 256 (bs.map UInt8.toNat)

namespace Bytes

theorem forall_mem_map_toNat_lt (bs : Bytes) : ∀ d ∈ bs.map UInt8.toNat, d < 256 := by
  intro d hd
  obtain ⟨b, -, rfl⟩ := List.mem_map.mp hd
  exact b.toNat_lt

theorem toNat_append (bs cs : Bytes) :
    (bs ++ cs).toNat = bs.toNat * 256 ^ cs.length + cs.toNat := by
  rw [toNat, List.map_append, Numeral.value_append, List.length_map]
  rfl

theorem toNat_lt (bs : Bytes) : bs.toNat < 256 ^ bs.length := by
  have hlt := Numeral.value_lt (by norm_num) (forall_mem_map_toNat_lt bs)
  rwa [List.length_map] at hlt

/-- Runs of one length that denote one number are the same run. -/
theorem toNat_inj {bs cs : Bytes} (hlen : bs.length = cs.length) :
    bs.toNat = cs.toNat ↔ bs = cs := by
  rw [toNat, toNat, Numeral.value_inj (by norm_num) (by simpa using hlen)
    (forall_mem_map_toNat_lt bs) (forall_mem_map_toNat_lt cs)]
  exact List.map_inj_right fun b c => UInt8.toNat_inj.mp

theorem toNat_getElem {bs : Bytes} {k : Nat} (hk : k < bs.length) :
    bs[k].toNat = bs.toNat / 256 ^ (bs.length - 1 - k) % 256 := by
  have hdigit := Numeral.getElem_eq_value_div_mod (by norm_num) (forall_mem_map_toNat_lt bs) (k := k)
    (by simpa using hk)
  rw [toNat]
  simpa only [List.getElem_map, List.length_map] using hdigit

end Bytes

namespace Word

theorem toNat_lowBytes (count : Nat) (w : UInt64) :
    (lowBytes count w).toNat = w.toNat % 256 ^ count := by
  induction count generalizing w with
  | zero => exact (Nat.mod_one _).symm
  | succ count ih =>
    have hshift : (w >>> 8).toNat = w.toNat / 256 := by
      rw [UInt64.toNat_shiftRight, Nat.shiftRight_eq_div_pow]
      rfl
    have hlow : Bytes.toNat [w.toUInt8] = w.toNat % 256 := by
      rw [Bytes.toNat, List.map_singleton, UInt64.toNat_toUInt8]
      exact Nat.zero_add _
    rw [lowBytes, Bytes.toNat_append, ih, hshift, hlow, List.length_singleton, Nat.pow_one,
      Nat.pow_succ', Nat.mod_mul, Nat.mul_comm, Nat.add_comm]

theorem toNat_toBytes (w : UInt64) : (toBytes w).toNat = w.toNat := by
  rw [toBytes, toNat_lowBytes]
  exact Nat.mod_eq_of_lt w.toNat_lt

/-- The word in front of a run is the number its first eight bytes denote. -/
theorem toNat_ofBytes (bs : Bytes) : (ofBytes bs).toNat = Bytes.toNat (bs.take 8) := by
  have hpow : 256 ^ (bs.take 8).length ≤ 256 ^ 8 :=
    Nat.pow_le_pow_right (by decide) (List.length_take_le 8 bs)
  have hlt : Bytes.toNat (bs.take 8) < 256 ^ 8 :=
    Nat.lt_of_lt_of_le (Bytes.toNat_lt _) hpow
  have hpush := Numeral.foldl_push shiftIn UInt64.toNat UInt8.toNat 0 (bs.take 8) (by decide)
    fun w b _ => toNat_shiftIn w b
  rw [ofBytes, hpush, UInt64.toNat_zero, Nat.zero_mul, Nat.zero_add]
  exact Nat.mod_eq_of_lt hlt

theorem toBytes_ofBytes {bs : Bytes} (h : bs.length = 8) : toBytes (ofBytes bs) = bs := by
  rw [← Bytes.toNat_inj (by rw [length_toBytes, h]), toNat_toBytes, toNat_ofBytes,
    List.take_of_length_le h.le]

/-- The byte of a word at an index. -/
theorem toNat_getElem_toBytes (w : UInt64) {k : Nat} (hk : k < (toBytes w).length) :
    (toBytes w)[k].toNat = w.toNat / 256 ^ (7 - k) % 256 := by
  rw [Bytes.toNat_getElem, toNat_toBytes, length_toBytes]

end Word

namespace Uuid

/-- The bytes of an identifier are its digits in base 256. -/
theorem toNat_toBytes (u : Uuid) : u.toBytes.toNat = u.toNat := by
  rw [toBytes, Bytes.toNat_append, Word.toNat_toBytes, Word.toNat_toBytes, Word.length_toBytes]
  rfl

/-- The byte of an identifier at an index. -/
theorem toNat_getElem_toBytes (u : Uuid) {k : Nat} (hk : k < u.toBytes.length) :
    u.toBytes[k].toNat = u.toNat / 256 ^ (15 - k) % 256 := by
  rw [Bytes.toNat_getElem, toNat_toBytes, length_toBytes, size]

/-- **Any sixteen bytes** are an identifier, and are written back as they were. -/
theorem toBytes_ofBytes {bs : Bytes} (h : bs.length = size) : (ofBytes bs).toBytes = bs := by
  have htake : Word.ofBytes bs = Word.ofBytes (bs.take 8) := by
    rw [← UInt64.toNat_inj, Word.toNat_ofBytes, Word.toNat_ofBytes, List.take_take, Nat.min_self]
  have hlentake : (bs.take 8).length = 8 := by
    rw [List.length_take, h]
    rfl
  have hlendrop : (bs.drop 8).length = 8 := by rw [List.length_drop, h, size]
  rw [ofBytes, toBytes, htake, Word.toBytes_ofBytes hlentake, Word.toBytes_ofBytes hlendrop,
    List.take_append_drop]

end Uuid

/-! ### Stamping single bytes -/

theorem toNat_stampVersionByte (version : Fin 16) (b : UInt8) :
    (stampVersionByte version b).toNat = 16 * version + b.toNat % 16 := by
  have hversion : (version : Nat) < 16 := version.isLt
  have hshift : (UInt8.ofNat version <<< (4 : UInt8)).toNat = 16 * version := by
    rw [UInt8.toNat_shiftLeft, UInt8.toNat_ofNat', show (4 : UInt8).toNat % 8 = 4 from rfl,
      Nat.shiftLeft_eq]
    omega
  have hlow : (b &&& 0x0F).toNat = b.toNat % 16 :=
    Nat.and_two_pow_sub_one_eq_mod b.toNat 4
  have hor : 16 * (version : Nat) ||| b.toNat % 16 = 16 * version + b.toNat % 16 :=
    Bits.two_pow_mul_or (k := 4) (Nat.mod_lt _ (by decide))
  rw [stampVersionByte, UInt8.toNat_or, hshift, hlow, Nat.or_comm, hor]

theorem toNat_stampVariantByte (b : UInt8) :
    (stampVariantByte b).toNat = 128 + b.toNat % 64 := by
  have hlow : (b &&& 0x3F).toNat = b.toNat % 64 :=
    Nat.and_two_pow_sub_one_eq_mod b.toNat 6
  have hlt : b.toNat % 64 < 128 := Nat.lt_trans (Nat.mod_lt _ (by decide)) (by decide)
  have hor : 128 ||| b.toNat % 64 = 128 + b.toNat % 64 :=
    Bits.two_pow_mul_or (k := 7) (a := 1) hlt
  rw [stampVariantByte, UInt8.toNat_or, hlow, Nat.or_comm, show (0x80 : UInt8).toNat = 128 from rfl,
    hor]

namespace Uuid

/-- Stamping a high word changes its seventh byte and no other. -/
theorem toBytes_stampHigh (version : Fin 16) (high : UInt64) :
    Word.toBytes (stampHigh version high) =
      (Word.toBytes high).modify versionOffset (stampVersionByte version) := by
  refine List.ext_getElem (by simp) fun k hk _ => ?_
  have hhigh : high.toNat < 2 ^ 64 := high.toNat_lt
  have hversion : (version : Nat) < 16 := version.isLt
  rw [Word.length_toBytes] at hk
  rw [List.getElem_modify, ← UInt8.toNat_inj, Word.toNat_getElem_toBytes, toNat_stampHigh]
  split
  · next heq =>
    rw [toNat_stampVersionByte, Word.toNat_getElem_toBytes, ← heq, versionOffset]
    omega
  · next hne =>
    rw [Word.toNat_getElem_toBytes]
    rw [versionOffset] at hne
    interval_cases k <;> omega

/-- Stamping a low word changes its first byte and no other. -/
theorem toBytes_stampLow (low : UInt64) :
    Word.toBytes (stampLow low) = (Word.toBytes low).modify 0 stampVariantByte := by
  refine List.ext_getElem (by simp) fun k hk _ => ?_
  have hlow : low.toNat < 2 ^ 64 := low.toNat_lt
  rw [Word.length_toBytes] at hk
  rw [List.getElem_modify, ← UInt8.toNat_inj, Word.toNat_getElem_toBytes, toNat_stampLow]
  split
  · next heq =>
    rw [toNat_stampVariantByte, Word.toNat_getElem_toBytes, ← heq]
    omega
  · next hne =>
    rw [Word.toNat_getElem_toBytes]
    interval_cases k <;> omega

/-- **Stamping bytes.** The bytes of a stamped identifier are those of the identifier, the one with
the version and the one with the variant stamped. -/
theorem toBytes_stamp (u : Uuid) (version : Fin 16) :
    (u.stamp version).toBytes =
      (u.toBytes.modify versionOffset (stampVersionByte version)).modify variantOffset
        stampVariantByte := by
  rw [stamp, toBytes, toBytes, toBytes_stampHigh, toBytes_stampLow]
  refine List.ext_getElem? fun k => ?_
  simp only [List.getElem?_modify, List.getElem?_append, List.length_modify, Word.length_toBytes]
  -- the version stands among the first eight bytes, the variant opens the last eight
  obtain hk | hk := Nat.lt_or_ge k 8
  · have hvariant : variantOffset ≠ k := by
      rw [variantOffset]
      omega
    simp [hk, hvariant]
  · have hversion : versionOffset ≠ k := by
      rw [versionOffset]
      omega
    have hvariant : (0 = k - 8) ↔ variantOffset = k := by
      rw [variantOffset]
      omega
    simp [Nat.not_lt.mpr hk, hversion, hvariant]

end Uuid

end UniqueId
