import Mathlib.Algebra.Group.Nat.Even
import Mathlib.Tactic.SplitIfs
import UniqueId.Proofs.Uuid.Binary

/-!
# The thirty-two nibbles of an identifier

The number of an identifier has 32 digits in base 16. Two of them are a byte, and a character of the
text shows one of them, so they are where the forms of an identifier meet:

* a byte is the nibble at twice its index and the one behind it (`toBytes_div_eq_nibble`,
  `toBytes_mod_eq_nibble`);
* the version is the nibble at 12, and the variant the upper half of the nibble at 16
  (`version_eq_nibble`, `variant_eq_nibble`);
* a stamp sets the former (`version_stamp`), sets the upper half of the latter
  (`nibble_stamp_variant`), and leaves every other nibble alone (`nibble_stamp_of_ne`).
-/

namespace UniqueId.Uuid

variable {k : Nat}

/-- The **nibble** of an identifier at a place: its digit in base 16, counted from the left. -/
def nibble (u : Uuid) (k : Nat) : Nat :=
  u.toNat / 16 ^ (31 - k) % 16

theorem nibble_lt (u : Uuid) (k : Nat) : u.nibble k < 16 :=
  Nat.mod_lt _ (by decide)

/-! ### Bytes -/

/-- The first nibble of a byte. -/
theorem toBytes_div_eq_nibble (u : Uuid) (hk : k < 16) :
    u.toBytes[k]?.map (fun b => b.toNat / 16) = some (u.nibble (2 * k)) := by
  have hlength : k < u.toBytes.length := by rwa [length_toBytes]
  have hpower : 16 ^ (31 - 2 * k) = 256 ^ (15 - k) * 16 := by
    rw [show 256 = 16 ^ 2 from rfl, ← Nat.pow_mul, ← Nat.pow_succ]
    congr 1
    omega
  have hfirst : u.toNat / 256 ^ (15 - k) % 256 / 16 = u.toNat / 256 ^ (15 - k) / 16 % 16 :=
    Nat.mod_mul_right_div_self _ 16 16
  rw [List.getElem?_eq_getElem hlength, Option.map_some, toNat_getElem_toBytes, hfirst, nibble,
    hpower, Nat.div_div_eq_div_mul]

/-- The second nibble of a byte. -/
theorem toBytes_mod_eq_nibble (u : Uuid) (hk : k < 16) :
    u.toBytes[k]?.map (fun b => b.toNat % 16) = some (u.nibble (2 * k + 1)) := by
  have hlength : k < u.toBytes.length := by rwa [length_toBytes]
  have hpower : 16 ^ (31 - (2 * k + 1)) = 256 ^ (15 - k) := by
    rw [show 256 = 16 ^ 2 from rfl, ← Nat.pow_mul]
    congr 1
    omega
  rw [List.getElem?_eq_getElem hlength, Option.map_some, toNat_getElem_toBytes, nibble, hpower,
    Nat.mod_mod_of_dvd _ (by decide)]

/-! ### Fields -/

theorem version_eq_nibble (u : Uuid) : u.version = u.nibble 12 := by
  have hlow : u.low.toNat < 2 ^ 64 := u.low.toNat_lt
  rw [version_eq, nibble, toNat]
  omega

theorem variant_eq_nibble (u : Uuid) : u.variant = u.nibble 16 / 4 := by
  have hlow : u.low.toNat < 2 ^ 64 := u.low.toNat_lt
  rw [variant_eq, nibble, toNat]
  omega

/-- The version is the high nibble of its byte. -/
theorem toBytes_versionOffset (u : Uuid) :
    u.toBytes[versionOffset]?.map (fun b => b.toNat / 16) = some u.version := by
  rw [version_eq_nibble]
  exact toBytes_div_eq_nibble u (by decide)

/-- The variant is the two top bits of its byte. -/
theorem toBytes_variantOffset (u : Uuid) :
    u.toBytes[variantOffset]?.map (fun b => b.toNat / 64) = some u.variant := by
  have hquarter : (fun b : UInt8 => b.toNat / 64) = (· / 4) ∘ fun b => b.toNat / 16 :=
    funext fun b => (Nat.div_div_eq_div_mul b.toNat 16 4).symm
  have hnibble : u.toBytes[variantOffset]?.map (fun b => b.toNat / 16) = some (u.nibble 16) :=
    toBytes_div_eq_nibble u (by decide)
  rw [hquarter, ← Option.map_map, hnibble, Option.map_some, variant_eq_nibble]

/-! ### Stamps -/

/-- Only the bytes of the version and of the variant are stamped. -/
theorem getElem?_toBytes_stamp_of_ne (version : Fin 16) (u : Uuid) (hversion : k ≠ versionOffset)
    (hvariant : k ≠ variantOffset) : (u.stamp version).toBytes[k]? = u.toBytes[k]? := by
  rw [toBytes_stamp, List.getElem?_modify_ne _ _ hvariant.symm,
    List.getElem?_modify_ne _ _ hversion.symm]

/-- Of these bytes, too, the second nibble stays. -/
theorem toBytes_stamp_mod (version : Fin 16) (u : Uuid) (k : Nat) :
    (u.stamp version).toBytes[k]?.map (fun b => b.toNat % 16) =
      u.toBytes[k]?.map fun b => b.toNat % 16 := by
  have hversion (b : UInt8) : (stampVersionByte version b).toNat % 16 = b.toNat % 16 := by
    rw [toNat_stampVersionByte]
    omega
  have hvariant (b : UInt8) : (stampVariantByte b).toNat % 16 = b.toNat % 16 := by
    rw [toNat_stampVariantByte]
    omega
  rw [toBytes_stamp, List.getElem?_modify, List.getElem?_modify, Option.map_eq_map,
    Option.map_eq_map, Option.map_map, Option.map_map]
  congr 1
  funext b
  dsimp only [Function.comp_apply]
  split_ifs <;> simp only [hversion, hvariant]

/-- The lower half of the nibble that holds the variant stays. -/
theorem nibble_stamp_variant (version : Fin 16) (u : Uuid) :
    (u.stamp version).nibble 16 = 8 + u.nibble 16 % 4 := by
  have hlow : u.low.toNat < 2 ^ 64 := u.low.toNat_lt
  rw [nibble, nibble, toNat, toNat, stamp, toNat_stampLow]
  omega

/-- **Every other nibble stays.** -/
theorem nibble_stamp_of_ne (version : Fin 16) (u : Uuid) (hk : k < 32) (hversion : k ≠ 12)
    (hvariant : k ≠ 16) : (u.stamp version).nibble k = u.nibble k := by
  rw [← Option.some.injEq]
  obtain ⟨j, rfl | rfl⟩ := k.even_or_odd'
  · have hbyte : (u.stamp version).toBytes[j]? = u.toBytes[j]? :=
      getElem?_toBytes_stamp_of_ne version u (by rw [versionOffset]; omega)
        (by rw [variantOffset]; omega)
    rw [← toBytes_div_eq_nibble _ (by omega), ← toBytes_div_eq_nibble _ (by omega), hbyte]
  · rw [← toBytes_mod_eq_nibble _ (by omega), ← toBytes_mod_eq_nibble _ (by omega),
      toBytes_stamp_mod]

end UniqueId.Uuid
