import Mathlib.Algebra.Ring.Nat
import UniqueId.Time.Layout

/-!
# The layouts as arithmetic

A layout cuts a time into fields and puts them at other places of the high word. As numbers the
fields are quotients and remainders, and fields that do not overlap add up (`toNat_fields`). So
each writer and each reader is a sum of three terms, and from the sums it follows that what is
written is read, for every time that there is room for (`Uuid.ticks_highOfTicks` and its likes), and
that ticks read are written back to where they stood (`Uuid.highOfTicks_ticks`).
-/

namespace UniqueId

namespace Time

/-! ### Fields of a word -/

/-- A field of `n` bits that stands `k` bits above the low end. -/
theorem toNat_shiftRight_and (w : UInt64) {k mask : UInt64} {n : Nat} (hk : k.toNat < 64)
    (hmask : mask.toNat = 2 ^ n - 1) :
    (w >>> k &&& mask).toNat = w.toNat / 2 ^ k.toNat % 2 ^ n := by
  rw [UInt64.toNat_and, UInt64.toNat_shiftRight, Nat.mod_eq_of_lt hk, hmask,
    Nat.and_two_pow_sub_one_eq_mod, Nat.shiftRight_eq_div_pow]

/-- The field from `k` bits above the low end upward. -/
theorem toNat_shiftRight (w : UInt64) {k : UInt64} (hk : k.toNat < 64) :
    (w >>> k).toNat = w.toNat / 2 ^ k.toNat := by
  rw [UInt64.toNat_shiftRight, Nat.mod_eq_of_lt hk, Nat.shiftRight_eq_div_pow]

/-- **Fields add up**: three fields put side by side, of which the first may lose bits at the top. -/
theorem toNat_fields {x y z j k : UInt64} {a b c : Nat} (hx : x.toNat = a) (hy : y.toNat = b)
    (hz : z.toNat = c) (hj : j.toNat < 64) (hkj : k.toNat ≤ j.toNat)
    (hb : 2 ^ k.toNat * b < 2 ^ j.toNat) (hc : c < 2 ^ k.toNat) :
    (x <<< j ||| y <<< k ||| z).toNat =
      2 ^ j.toNat * (a % 2 ^ (64 - j.toNat)) + 2 ^ k.toNat * b + c := by
  subst hx hy hz
  have hsplit : 2 ^ 64 = 2 ^ j.toNat * 2 ^ (64 - j.toNat) := by
    rw [← Nat.pow_add, Nat.add_sub_cancel' (Nat.le_of_lt hj)]
  have hpow : 2 ^ j.toNat ≤ 2 ^ 64 := Nat.pow_le_pow_right (by decide) (Nat.le_of_lt hj)
  have hfirst : x.toNat * 2 ^ j.toNat % 2 ^ 64 = 2 ^ j.toNat * (x.toNat % 2 ^ (64 - j.toNat)) := by
    rw [hsplit, Nat.mul_comm, Nat.mul_mod_mul_left]
  have hsecond : y.toNat * 2 ^ k.toNat % 2 ^ 64 = 2 ^ k.toNat * y.toNat := by
    rw [Nat.mul_comm, Nat.mod_eq_of_lt (Nat.lt_of_lt_of_le hb hpow)]
  rw [UInt64.toNat_or, UInt64.toNat_or, UInt64.toNat_shiftLeft, UInt64.toNat_shiftLeft,
    Nat.mod_eq_of_lt hj, Nat.mod_eq_of_lt (Nat.lt_of_le_of_lt hkj hj), Nat.shiftLeft_eq,
    Nat.shiftLeft_eq, hfirst, hsecond, Bits.two_pow_mul_or_or hkj hb hc]

/-! ### Writers -/

theorem toNat_highOfTicks (ticks : UInt64) :
    (highOfTicks ticks).toNat = 2 ^ 32 * (ticks.toNat % 2 ^ 32) +
      2 ^ 16 * (ticks.toNat / 2 ^ 32 % 2 ^ 16) + ticks.toNat / 2 ^ 48 % 2 ^ 12 := by
  have hmid : (ticks >>> 32 &&& 0xFFFF).toNat = ticks.toNat / 2 ^ 32 % 2 ^ 16 :=
    toNat_shiftRight_and ticks (by decide) rfl
  have htop : (ticks >>> 48 &&& 0x0FFF).toNat = ticks.toNat / 2 ^ 48 % 2 ^ 12 :=
    toNat_shiftRight_and ticks (by decide) rfl
  have hmidRoom : 2 ^ 16 * (ticks.toNat / 2 ^ 32 % 2 ^ 16) < 2 ^ 32 := by omega
  have htopRoom : ticks.toNat / 2 ^ 48 % 2 ^ 12 < 2 ^ 16 := by omega
  exact toNat_fields rfl hmid htop (by decide) (by decide) hmidRoom htopRoom

theorem toNat_highOfReorderedTicks (ticks : UInt64) :
    (highOfReorderedTicks ticks).toNat = 2 ^ 32 * (ticks.toNat / 2 ^ 28 % 2 ^ 32) +
      2 ^ 16 * (ticks.toNat / 2 ^ 12 % 2 ^ 16) + ticks.toNat % 2 ^ 12 := by
  have htop : (ticks >>> 28).toNat = ticks.toNat / 2 ^ 28 := toNat_shiftRight ticks (by decide)
  have hmid : (ticks >>> 12 &&& 0xFFFF).toNat = ticks.toNat / 2 ^ 12 % 2 ^ 16 :=
    toNat_shiftRight_and ticks (by decide) rfl
  have hlow : (ticks &&& 0x0FFF).toNat = ticks.toNat % 2 ^ 12 :=
    Nat.and_two_pow_sub_one_eq_mod ticks.toNat 12
  have hmidRoom : 2 ^ 16 * (ticks.toNat / 2 ^ 12 % 2 ^ 16) < 2 ^ 32 := by omega
  have hlowRoom : ticks.toNat % 2 ^ 12 < 2 ^ 16 := by omega
  exact toNat_fields htop hmid hlow (by decide) (by decide) hmidRoom hlowRoom

theorem toNat_highOfMillis (millis : UInt64) (rest : UInt16) :
    (highOfMillis millis rest).toNat = 2 ^ 16 * (millis.toNat % 2 ^ 48) + rest.toNat := by
  have hrest : rest.toNat < 2 ^ 16 := rest.toNat_lt
  have hshift : (millis <<< 16).toNat = 2 ^ 16 * (millis.toNat % 2 ^ 48) := by
    have hcut : millis.toNat * 2 ^ 16 % 2 ^ 64 = 2 ^ 16 * (millis.toNat % 2 ^ 48) := by omega
    rw [UInt64.toNat_shiftLeft, Nat.shiftLeft_eq, ← hcut]
    rfl
  rw [highOfMillis, UInt64.toNat_or, hshift, UInt16.toNat_toUInt64, Bits.two_pow_mul_or hrest]

/-! ### Readers -/

theorem toNat_ticksOfHigh (high : UInt64) :
    (ticksOfHigh high).toNat = 2 ^ 48 * (high.toNat % 2 ^ 12) +
      2 ^ 32 * (high.toNat / 2 ^ 16 % 2 ^ 16) + high.toNat / 2 ^ 32 := by
  have hhigh : high.toNat < 2 ^ 64 := high.toNat_lt
  have htop : (high &&& 0x0FFF).toNat = high.toNat % 2 ^ 12 :=
    Nat.and_two_pow_sub_one_eq_mod high.toNat 12
  have hmid : (high >>> 16 &&& 0xFFFF).toNat = high.toNat / 2 ^ 16 % 2 ^ 16 :=
    toNat_shiftRight_and high (by decide) rfl
  have hlow : (high >>> 32).toNat = high.toNat / 2 ^ 32 := toNat_shiftRight high (by decide)
  have hfits : high.toNat % 2 ^ 12 % 2 ^ (64 - 48) = high.toNat % 2 ^ 12 := by omega
  have hmidRoom : 2 ^ 32 * (high.toNat / 2 ^ 16 % 2 ^ 16) < 2 ^ 48 := by omega
  have hlowRoom : high.toNat / 2 ^ 32 < 2 ^ 32 := by omega
  rw [← hfits]
  exact toNat_fields htop hmid hlow (by decide) (by decide) hmidRoom hlowRoom

theorem toNat_reorderedTicksOfHigh (high : UInt64) :
    (reorderedTicksOfHigh high).toNat = 2 ^ 28 * (high.toNat / 2 ^ 32) +
      2 ^ 12 * (high.toNat / 2 ^ 16 % 2 ^ 16) + high.toNat % 2 ^ 12 := by
  have hhigh : high.toNat < 2 ^ 64 := high.toNat_lt
  have htop : (high >>> 32).toNat = high.toNat / 2 ^ 32 := toNat_shiftRight high (by decide)
  have hmid : (high >>> 16 &&& 0xFFFF).toNat = high.toNat / 2 ^ 16 % 2 ^ 16 :=
    toNat_shiftRight_and high (by decide) rfl
  have hlow : (high &&& 0x0FFF).toNat = high.toNat % 2 ^ 12 :=
    Nat.and_two_pow_sub_one_eq_mod high.toNat 12
  have hfits : high.toNat / 2 ^ 32 % 2 ^ (64 - 28) = high.toNat / 2 ^ 32 := by omega
  have hmidRoom : 2 ^ 12 * (high.toNat / 2 ^ 16 % 2 ^ 16) < 2 ^ 28 := by omega
  have hlowRoom : high.toNat % 2 ^ 12 < 2 ^ 12 := by omega
  rw [← hfits]
  exact toNat_fields htop hmid hlow (by decide) (by decide) hmidRoom hlowRoom

theorem toNat_millisOfHigh (high : UInt64) : (millisOfHigh high).toNat = high.toNat / 2 ^ 16 :=
  toNat_shiftRight high (by decide)

end Time

/-! ### The time of an identifier -/

namespace Uuid

theorem toNat_ticks (u : Uuid) :
    u.ticks.toNat = 2 ^ 48 * (u.high.toNat % 2 ^ 12) +
      2 ^ 32 * (u.high.toNat / 2 ^ 16 % 2 ^ 16) + u.high.toNat / 2 ^ 32 := by
  rw [ticks, Time.toNat_ticksOfHigh, toNat_highWithoutVersion]
  omega

/-- With the high part first, the fields keep their order: only the version is taken out. -/
theorem toNat_reorderedTicks (u : Uuid) :
    u.reorderedTicks.toNat = 2 ^ 12 * (u.high.toNat / 2 ^ 16) + u.high.toNat % 2 ^ 12 := by
  rw [reorderedTicks, Time.toNat_reorderedTicksOfHigh, toNat_highWithoutVersion]
  omega

theorem toNat_millis (u : Uuid) : u.millis.toNat = u.high.toNat / 2 ^ 16 := by
  rw [millis, Time.toNat_millisOfHigh, toNat_highWithoutVersion]
  omega

/-! ### What is written is read -/

theorem ticks_highOfTicks {ticks : UInt64} (h : ticks.toNat < 2 ^ 60) (low : UInt64) :
    (⟨Time.highOfTicks ticks, low⟩ : Uuid).ticks = ticks := by
  have hfields : ∀ a b c : Nat, b < 2 ^ 16 → c < 2 ^ 12 →
      (2 ^ 32 * a + 2 ^ 16 * b + c) % 2 ^ 12 = c ∧
        (2 ^ 32 * a + 2 ^ 16 * b + c) / 2 ^ 16 % 2 ^ 16 = b ∧
        (2 ^ 32 * a + 2 ^ 16 * b + c) / 2 ^ 32 = a := by
    intro a b c hb hc
    omega
  obtain ⟨htop, hmid, hlow⟩ := hfields (ticks.toNat % 2 ^ 32) (ticks.toNat / 2 ^ 32 % 2 ^ 16)
    (ticks.toNat / 2 ^ 48 % 2 ^ 12) (by omega) (by omega)
  rw [← UInt64.toNat_inj, toNat_ticks, Time.toNat_highOfTicks, htop, hmid, hlow]
  omega

theorem reorderedTicks_highOfReorderedTicks {ticks : UInt64} (h : ticks.toNat < 2 ^ 60)
    (low : UInt64) : (⟨Time.highOfReorderedTicks ticks, low⟩ : Uuid).reorderedTicks = ticks := by
  rw [← UInt64.toNat_inj, toNat_reorderedTicks, Time.toNat_highOfReorderedTicks]
  omega

theorem millis_highOfMillis {millis : UInt64} (h : millis.toNat < 2 ^ 48) (rest : UInt16)
    (low : UInt64) : (⟨Time.highOfMillis millis rest, low⟩ : Uuid).millis = millis := by
  have hrest : rest.toNat < 2 ^ 16 := rest.toNat_lt
  rw [← UInt64.toNat_inj, toNat_millis, Time.toNat_highOfMillis]
  omega

/-! ### What was read is written back -/

/-- **Writing undoes reading**, low part first. -/
theorem highOfTicks_ticks (u : Uuid) : Time.highOfTicks u.ticks = u.highWithoutVersion := by
  have hhigh : u.high.toNat < 2 ^ 64 := u.high.toNat_lt
  have hfields : ∀ a b c : Nat, a < 2 ^ 32 → b < 2 ^ 16 → c < 2 ^ 12 →
      (2 ^ 48 * c + 2 ^ 32 * b + a) % 2 ^ 32 = a ∧
        (2 ^ 48 * c + 2 ^ 32 * b + a) / 2 ^ 32 % 2 ^ 16 = b ∧
        (2 ^ 48 * c + 2 ^ 32 * b + a) / 2 ^ 48 % 2 ^ 12 = c := by
    intro a b c ha hb hc
    omega
  obtain ⟨hlow, hmid, htop⟩ := hfields (u.high.toNat / 2 ^ 32) (u.high.toNat / 2 ^ 16 % 2 ^ 16)
    (u.high.toNat % 2 ^ 12) (by omega) (by omega) (by omega)
  rw [← UInt64.toNat_inj, Time.toNat_highOfTicks, toNat_ticks, toNat_highWithoutVersion, hlow, hmid,
    htop]
  omega

/-- **Writing undoes reading**, high part first. -/
theorem highOfReorderedTicks_reorderedTicks (u : Uuid) :
    Time.highOfReorderedTicks u.reorderedTicks = u.highWithoutVersion := by
  have hhigh : u.high.toNat < 2 ^ 64 := u.high.toNat_lt
  have hfields : ∀ a c : Nat, a < 2 ^ 48 → c < 2 ^ 12 →
      (2 ^ 12 * a + c) / 2 ^ 28 % 2 ^ 32 = a / 2 ^ 16 ∧
        (2 ^ 12 * a + c) / 2 ^ 12 % 2 ^ 16 = a % 2 ^ 16 ∧ (2 ^ 12 * a + c) % 2 ^ 12 = c := by
    intro a c ha hc
    omega
  obtain ⟨htop, hmid, hlow⟩ := hfields (u.high.toNat / 2 ^ 16) (u.high.toNat % 2 ^ 12) (by omega)
    (by omega)
  rw [← UInt64.toNat_inj, Time.toNat_highOfReorderedTicks, toNat_reorderedTicks,
    toNat_highWithoutVersion, htop, hmid, hlow]
  omega

/-! ### Room for the time -/

theorem toNat_ticks_lt (u : Uuid) : u.ticks.toNat < 2 ^ 60 := by
  have hhigh : u.high.toNat < 2 ^ 64 := u.high.toNat_lt
  rw [toNat_ticks]
  omega

theorem toNat_reorderedTicks_lt (u : Uuid) : u.reorderedTicks.toNat < 2 ^ 60 := by
  have hhigh : u.high.toNat < 2 ^ 64 := u.high.toNat_lt
  rw [toNat_reorderedTicks]
  omega

theorem toNat_millis_lt (u : Uuid) : u.millis.toNat < 2 ^ 48 := by
  have hhigh : u.high.toNat < 2 ^ 64 := u.high.toNat_lt
  rw [toNat_millis]
  omega

end Uuid

end UniqueId
