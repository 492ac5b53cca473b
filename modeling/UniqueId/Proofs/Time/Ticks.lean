import Mathlib.Algebra.Ring.Int.Defs
import Mathlib.Algebra.Ring.Nat
import UniqueId.Time.Ticks

/-!
# Clock conversions over the integers

The conversions between ticks and milliseconds are signed 64-bit arithmetic. Wherever nothing
overflows they are the arithmetic of the integers: a product and a sum one way
(`toInt_toInt64_ticksOfMillis`), a difference and a truncated quotient the other way
(`toInt_millisOfTicks`). Two facts follow:

* **Exactness** (`millisOfTicks_ticksOfMillis`): milliseconds made into ticks are found again, also
  before 1970, where the numerator of the quotient is negative.
* **Monotonicity** (`millisOfTicks_le_millisOfTicks`): a later tick count is never an earlier
  millisecond, although the direction of truncation turns in 1970.

Where something overflows the words still have a result, but it is not one to rely on. The **checked**
conversions stop there. They get through exactly where the integers stay in reach, and then with the
result of the words (`checkedTicksOfMillis_eq_some`, `checkedMillisOfTicks_eq_some`).
-/

namespace UniqueId.Time

/-! ### Signed words -/

/-- An integer that fits 64 bits with a sign is not changed by reducing it to them. -/
theorem bmod_eq_self {x : Int} (hlo : -2 ^ 63 ≤ x) (hhi : x < 2 ^ 63) : x.bmod (2 ^ 64) = x :=
  Int.bmod_eq_of_le (by omega) (by omega)

/-- A word below `2 ^ 63` is the same number with and without a sign. -/
theorem toInt_toInt64_of_lt {w : UInt64} (h : w.toNat < 2 ^ 63) : w.toInt64.toInt = w.toNat := by
  have hmod : w.toInt64.toInt = (w.toNat : Int).bmod (2 ^ 64) :=
    BitVec.toInt_eq_toNat_bmod w.toBitVec
  rw [hmod, bmod_eq_self (by omega) (by omega)]

/-- Below `2 ^ 63` words keep their order when they are read with a sign. -/
theorem toInt64_le_toInt64 {w x : UInt64} (hx : x.toNat < 2 ^ 63) (h : w.toNat ≤ x.toNat) :
    w.toInt64 ≤ x.toInt64 := by
  rw [Int64.le_iff_toInt_le, toInt_toInt64_of_lt hx, toInt_toInt64_of_lt (by omega)]
  exact Int.ofNat_le.mpr h

/-- A signed word shown without its sign is the number modulo `2 ^ 64`: its two's complement if it
is negative. -/
theorem toNat_toUInt64 (x : Int64) : (x.toUInt64.toNat : Int) = x.toInt % 2 ^ 64 := by
  have hmod : (x.toUInt64.toNat : Int) = (BitVec.ofInt 64 x.toInt).toNat := by
    rw [show BitVec.ofInt 64 x.toInt = x.toBitVec from BitVec.ofInt_toInt]
    rfl
  rw [hmod, BitVec.toNat_ofInt]
  omega

/-! ### The conversions -/

theorem toInt_epochTicks : epochTicks.toInt = 122192928000000000 := rfl

theorem toInt_ticksPerMilli : ticksPerMilli.toInt = 10000 := rfl

/-- The product and the sum that make ticks of milliseconds, where both fit. -/
theorem toInt_mul_add {millis : Int64} (hlo : -2 ^ 63 ≤ millis.toInt * 10000)
    (hhi : millis.toInt * 10000 + epochTicks.toInt < 2 ^ 63) :
    (millis * ticksPerMilli).toInt = millis.toInt * 10000 ∧
      (millis * ticksPerMilli + epochTicks).toInt = millis.toInt * 10000 + epochTicks.toInt := by
  have hproduct : (millis * ticksPerMilli).toInt = millis.toInt * 10000 := by
    rw [Int64.toInt_mul, toInt_ticksPerMilli]
    exact bmod_eq_self hlo (by rw [toInt_epochTicks] at hhi; omega)
  refine ⟨hproduct, ?_⟩
  rw [Int64.toInt_add, hproduct]
  exact bmod_eq_self (by rw [toInt_epochTicks]; omega) hhi

/-- The difference that makes milliseconds of ticks, where it fits. -/
theorem toInt_sub_epochTicks {ticks : UInt64}
    (h : -2 ^ 63 ≤ ticks.toInt64.toInt - epochTicks.toInt) :
    (ticks.toInt64 - epochTicks).toInt = ticks.toInt64.toInt - epochTicks.toInt := by
  have hlt : ticks.toInt64.toInt < 2 ^ 63 := ticks.toInt64.toInt_lt
  rw [Int64.toInt_sub]
  exact bmod_eq_self h (by rw [toInt_epochTicks]; omega)

/-- **Ticks of milliseconds**: a product and a sum, where both fit. -/
theorem toInt_toInt64_ticksOfMillis {millis : Int64} (hlo : -2 ^ 63 ≤ millis.toInt * 10000)
    (hhi : millis.toInt * 10000 + epochTicks.toInt < 2 ^ 63) :
    (ticksOfMillis millis).toInt64.toInt = millis.toInt * 10000 + epochTicks.toInt := by
  rw [ticksOfMillis, Int64.toInt64_toUInt64, (toInt_mul_add hlo hhi).2]

/-- The same without a sign, from the first tick on. -/
theorem toNat_ticksOfMillis {millis : Int64} (hlo : 0 ≤ millis.toInt * 10000 + epochTicks.toInt)
    (hhi : millis.toInt * 10000 + epochTicks.toInt < 2 ^ 63) :
    ((ticksOfMillis millis).toNat : Int) = millis.toInt * 10000 + epochTicks.toInt := by
  have hepoch := toInt_epochTicks
  have hsigned := toInt_toInt64_ticksOfMillis (by omega) hhi
  have hunsigned := toNat_toUInt64 (ticksOfMillis millis).toInt64
  rw [UInt64.toUInt64_toInt64, hsigned] at hunsigned
  omega

/-- **Milliseconds of ticks**: a difference and its quotient truncated toward zero. -/
theorem toInt_millisOfTicks {ticks : UInt64}
    (h : -2 ^ 63 ≤ ticks.toInt64.toInt - epochTicks.toInt) :
    (millisOfTicks ticks).toInt = (ticks.toInt64.toInt - epochTicks.toInt).tdiv 10000 := by
  have hlt : ticks.toInt64.toInt < 2 ^ 63 := ticks.toInt64.toInt_lt
  have hepoch := toInt_epochTicks
  have hquotient : ((ticks.toInt64.toInt - epochTicks.toInt).tdiv 10000).natAbs =
      (ticks.toInt64.toInt - epochTicks.toInt).natAbs / 10000 :=
    Int.natAbs_tdiv _ _
  rw [millisOfTicks, Int64.toInt_div, toInt_sub_epochTicks h, toInt_ticksPerMilli]
  exact bmod_eq_self (by omega) (by omega)

/-- **Exactness**: milliseconds made into ticks are found again. -/
theorem millisOfTicks_ticksOfMillis {millis : Int64} (hlo : -2 ^ 63 ≤ millis.toInt * 10000)
    (hhi : millis.toInt * 10000 + epochTicks.toInt < 2 ^ 63) :
    millisOfTicks (ticksOfMillis millis) = millis := by
  have hticks := toInt_toInt64_ticksOfMillis hlo hhi
  have hdifference : (ticksOfMillis millis).toInt64.toInt - epochTicks.toInt =
      millis.toInt * 10000 := by
    rw [hticks, Int.add_sub_cancel]
  rw [← Int64.toInt_inj, toInt_millisOfTicks (by rwa [hdifference]), hdifference,
    Int.mul_tdiv_cancel _ (by decide)]

/-- **Monotonicity**: a later tick count is not an earlier millisecond. -/
theorem millisOfTicks_le_millisOfTicks {s t : UInt64}
    (hs : -2 ^ 63 ≤ s.toInt64.toInt - epochTicks.toInt) (h : s.toInt64 ≤ t.toInt64) :
    millisOfTicks s ≤ millisOfTicks t := by
  rw [Int64.le_iff_toInt_le] at h ⊢
  have ht : -2 ^ 63 ≤ t.toInt64.toInt - epochTicks.toInt := by omega
  rw [toInt_millisOfTicks hs, toInt_millisOfTicks ht]
  exact Int.tdiv_le_tdiv (by decide) (Int.sub_le_sub_right h _)

/-- Tick counts below `2 ^ 63` are within the reach of the conversion. -/
theorem le_toInt_toInt64_sub_epochTicks {ticks : UInt64} (h : ticks.toNat < 2 ^ 63) :
    -2 ^ 63 ≤ ticks.toInt64.toInt - epochTicks.toInt := by
  rw [toInt_toInt64_of_lt h, toInt_epochTicks]
  omega

/-! ### Checked conversions -/

/-- An integer as a signed word, if it fits. -/
def signed? (x : Int) : Option Int64 :=
  if -2 ^ 63 ≤ x ∧ x < 2 ^ 63 then some (Int64.ofInt x) else none

theorem signed?_eq_some_iff {x : Int} {w : Int64} : signed? x = some w ↔ w.toInt = x := by
  rw [signed?]
  constructor
  · intro h
    split at h
    · next hfits =>
      rw [← Option.some.inj h]
      exact Int64.toInt_ofInt_of_le hfits.1 hfits.2
    · contradiction
  · rintro rfl
    rw [if_pos ⟨w.le_toInt, w.toInt_lt⟩, Int64.ofInt_toInt]

/-- The tick count at a number of milliseconds, the product and the sum checked. -/
def checkedTicksOfMillis (millis : Int64) : Option UInt64 := do
  let product ← signed? (millis.toInt * ticksPerMilli.toInt)
  let sum ← signed? (product.toInt + epochTicks.toInt)
  return sum.toUInt64

/-- The milliseconds at a tick count, the difference and the quotient checked. -/
def checkedMillisOfTicks (ticks : UInt64) : Option Int64 := do
  let difference ← signed? (ticks.toInt64.toInt - epochTicks.toInt)
  signed? (difference.toInt.tdiv ticksPerMilli.toInt)

/-- Where the integers fit, making milliseconds into ticks does not overflow. -/
theorem checkedTicksOfMillis_eq_some {millis : Int64} (hlo : -2 ^ 63 ≤ millis.toInt * 10000)
    (hhi : millis.toInt * 10000 + epochTicks.toInt < 2 ^ 63) :
    checkedTicksOfMillis millis = some (ticksOfMillis millis) := by
  obtain ⟨hproduct, hsum⟩ := toInt_mul_add hlo hhi
  rw [← hproduct] at hsum
  rw [checkedTicksOfMillis, toInt_ticksPerMilli, signed?_eq_some_iff.mpr hproduct,
    Option.bind_eq_bind, Option.bind_some, signed?_eq_some_iff.mpr hsum]
  rfl

/-- Where the difference fits, making ticks into milliseconds does not overflow. -/
theorem checkedMillisOfTicks_eq_some {ticks : UInt64}
    (h : -2 ^ 63 ≤ ticks.toInt64.toInt - epochTicks.toInt) :
    checkedMillisOfTicks ticks = some (millisOfTicks ticks) := by
  have hdifference := toInt_sub_epochTicks h
  rw [checkedMillisOfTicks, signed?_eq_some_iff.mpr hdifference, Option.bind_eq_bind,
    Option.bind_some, signed?_eq_some_iff, hdifference, toInt_ticksPerMilli,
    toInt_millisOfTicks h]

end UniqueId.Time
