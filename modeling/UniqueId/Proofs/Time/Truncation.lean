import Mathlib.Data.Int.ConditionallyCompleteOrder
import Mathlib.Data.Int.Interval
import Mathlib.Data.Set.Card
import UniqueId.Proofs.Time.Ticks

/-!
# The window of a millisecond

The conversion to milliseconds truncates toward 1970. So the tick counts that are read as one
millisecond, its **window**, stand behind the millisecond after 1970 and in front of it before, and
those of the millisecond zero stand on both sides. In ticks since 1970 they are

| millisecond | window                           | size  |
|-------------|----------------------------------|-------|
| `0 < m`     | from `10000 m` to `10000 m + 9999` | 10000 |
| `m = 0`     | from `-9999` to `9999`           | 19999 |
| `m < 0`     | from `10000 m - 9999` to `10000 m` | 10000 |

Windows are sets of integers; the count below `2 ^ 63` that a word holds is read as a millisecond
exactly if it stands in its window (`millisOfTicks_eq_iff`). How far a tick count is from the
millisecond it is read as, and how many counts are read as the same, is then seen from the table.
-/

namespace UniqueId.Time

variable {m : Int} {millis : Int64} {t : UInt64}

/-! ### Windows -/

/-- The tick counts, over the integers, that are read as a millisecond. -/
def window (m : Int) : Set Int :=
  {n | (n - epochTicks.toInt).tdiv 10000 = m}

/-- What truncation takes away stands on the side away from zero, and is less than a millisecond. -/
theorem sub_tdiv_mul_mem (x : Int) :
    (0 ≤ x → 0 ≤ x - x.tdiv 10000 * 10000 ∧ x - x.tdiv 10000 * 10000 < 10000) ∧
      (x ≤ 0 → 0 ≤ x.tdiv 10000 * 10000 - x ∧ x.tdiv 10000 * 10000 - x < 10000) := by
  have hlt : x.tmod 10000 < 10000 := Int.tmod_lt_of_pos x (by decide)
  have hgt : -10000 < x.tmod 10000 := Int.lt_tmod_of_pos x (by decide)
  rw [Int.tdiv_mul_self]
  refine ⟨fun h => ?_, fun h => ?_⟩
  · have hnonneg := Int.tmod_nonneg 10000 h
    omega
  · have hnonpos := Int.tmod_nonneg 10000 (Int.neg_nonneg_of_nonpos h)
    rw [Int.neg_tmod] at hnonpos
    omega

theorem window_of_pos (h : 0 < m) :
    window m = Set.Ico (m * 10000 + epochTicks.toInt) (m * 10000 + epochTicks.toInt + 10000) := by
  ext n
  have hrest := sub_tdiv_mul_mem (n - epochTicks.toInt)
  rw [window, Set.mem_ofPred_eq, Set.mem_Ico]
  omega

theorem window_of_neg (h : m < 0) :
    window m = Set.Ioc (m * 10000 + epochTicks.toInt - 10000) (m * 10000 + epochTicks.toInt) := by
  ext n
  have hrest := sub_tdiv_mul_mem (n - epochTicks.toInt)
  rw [window, Set.mem_ofPred_eq, Set.mem_Ioc]
  omega

theorem window_zero :
    window 0 = Set.Ioo (epochTicks.toInt - 10000) (epochTicks.toInt + 10000) := by
  ext n
  have hrest := sub_tdiv_mul_mem (n - epochTicks.toInt)
  rw [window, Set.mem_ofPred_eq, Set.mem_Ioo]
  omega

/-- **The size of a window** other than that of zero. -/
theorem ncard_window (h : m ≠ 0) : (window m).ncard = 10000 := by
  obtain hneg | hpos := Int.lt_or_gt_of_ne h
  · rw [window_of_neg hneg, ← Finset.coe_Ioc, Set.ncard_coe_finset, Int.card_Ioc]
    omega
  · rw [window_of_pos hpos, ← Finset.coe_Ico, Set.ncard_coe_finset, Int.card_Ico]
    omega

theorem ncard_window_zero : (window 0).ncard = 19999 := by
  rw [window_zero, ← Finset.coe_Ioo, Set.ncard_coe_finset, Int.card_Ioo]
  omega

/-! ### Words in a window -/

/-- **Reading is standing in the window.** -/
theorem millisOfTicks_eq_iff (h : t.toNat < 2 ^ 63) :
    millisOfTicks t = millis ↔ (t.toNat : Int) ∈ window millis.toInt := by
  rw [← Int64.toInt_inj, toInt_millisOfTicks (le_toInt_toInt64_sub_epochTicks h),
    toInt_toInt64_of_lt h, window, Set.mem_ofPred_eq]

/-- A tick count is less than a millisecond away from the millisecond that it is read as, on the side
away from 1970. -/
theorem toNat_sub_ticksOfMillis_mem (h : t.toNat < 2 ^ 63) :
    ((ticksOfMillis (millisOfTicks t)).toNat : Int) =
        (millisOfTicks t).toInt * 10000 + epochTicks.toInt ∧
      (epochTicks.toInt ≤ t.toNat →
        0 ≤ (t.toNat : Int) - (ticksOfMillis (millisOfTicks t)).toNat ∧
          (t.toNat : Int) - (ticksOfMillis (millisOfTicks t)).toNat < 10000) ∧
      (t.toNat < epochTicks.toInt →
        0 ≤ ((ticksOfMillis (millisOfTicks t)).toNat : Int) - t.toNat ∧
          ((ticksOfMillis (millisOfTicks t)).toNat : Int) - t.toNat < 10000) := by
  have hepoch := toInt_epochTicks
  have hread := toInt_millisOfTicks (le_toInt_toInt64_sub_epochTicks h)
  rw [toInt_toInt64_of_lt h] at hread
  obtain ⟨hafter, hbefore⟩ := sub_tdiv_mul_mem ((t.toNat : Int) - epochTicks.toInt)
  rw [← hread] at hafter hbefore
  have hback : ((ticksOfMillis (millisOfTicks t)).toNat : Int) =
      (millisOfTicks t).toInt * 10000 + epochTicks.toInt :=
    toNat_ticksOfMillis (by omega) (by omega)
  refine ⟨hback, fun hle => ?_, fun hlt => ?_⟩ <;> omega

/-- **Where the whole window is in range**, as many words are read as the millisecond as there are
integers in its window. -/
theorem ncard_setOf_millisOfTicks_eq (h : window millis.toInt ⊆ Set.Ico 0 (2 ^ 63)) :
    {t : UInt64 | t.toNat < 2 ^ 63 ∧ millisOfTicks t = millis}.ncard =
      (window millis.toInt).ncard := by
  have hinj : Function.Injective fun t : UInt64 => (t.toNat : Int) := fun s t hst =>
    UInt64.toNat_inj.mp (Int.ofNat_inj.mp hst)
  have himage : (fun t : UInt64 => (t.toNat : Int)) ''
      {t | t.toNat < 2 ^ 63 ∧ millisOfTicks t = millis} = window millis.toInt := by
    ext n
    constructor
    · rintro ⟨t, ⟨hlt, hread⟩, rfl⟩
      exact (millisOfTicks_eq_iff hlt).mp hread
    · intro hn
      obtain ⟨hlo, hhi⟩ := h hn
      have hword : ((UInt64.ofNat n.toNat).toNat : Int) = n := by
        rw [UInt64.toNat_ofNat']
        omega
      have hlt : (UInt64.ofNat n.toNat).toNat < 2 ^ 63 := by omega
      exact ⟨UInt64.ofNat n.toNat, ⟨hlt, (millisOfTicks_eq_iff hlt).mpr (hword.symm ▸ hn)⟩, hword⟩
  rw [← himage, Set.ncard_image_of_injective _ hinj]

/-! ### Together -/

/-- **Truncation toward 1970.** Milliseconds are made into ticks without overflow where the product
and the sum fit, and found again. Ticks below `2 ^ 63` are made into milliseconds without overflow,
later ones into no earlier ones. The millisecond that a tick count is read as lies at or before it
after 1970, at or behind it before, and in both cases less than 10000 ticks away. So exactly 10000
tick counts are read as a millisecond other than zero whose whole window is in range, and exactly
19999 as zero. -/
theorem millis_truncate_toward_1970 :
    (∀ millis : Int64, -2 ^ 63 ≤ millis.toInt * 10000 → millis.toInt * 10000 < 2 ^ 63 →
      -2 ^ 63 ≤ millis.toInt * 10000 + epochTicks.toInt →
      millis.toInt * 10000 + epochTicks.toInt < 2 ^ 63 →
        checkedTicksOfMillis millis = some (ticksOfMillis millis) ∧
          checkedMillisOfTicks (ticksOfMillis millis) = some millis ∧
          millisOfTicks (ticksOfMillis millis) = millis) ∧
    (∀ t : UInt64, t.toNat < 2 ^ 63 →
      checkedMillisOfTicks t = some (millisOfTicks t) ∧
        ((ticksOfMillis (millisOfTicks t)).toNat : Int) =
          (millisOfTicks t).toInt * 10000 + epochTicks.toInt ∧
        (epochTicks.toInt ≤ t.toNat →
          0 ≤ (t.toNat : Int) - (ticksOfMillis (millisOfTicks t)).toNat ∧
            (t.toNat : Int) - (ticksOfMillis (millisOfTicks t)).toNat < 10000) ∧
        (t.toNat < epochTicks.toInt →
          0 ≤ ((ticksOfMillis (millisOfTicks t)).toNat : Int) - t.toNat ∧
            ((ticksOfMillis (millisOfTicks t)).toNat : Int) - t.toNat < 10000)) ∧
    (∀ s t : UInt64, s.toNat ≤ t.toNat → t.toNat < 2 ^ 63 →
      (millisOfTicks s).toInt ≤ (millisOfTicks t).toInt) ∧
    (∀ millis : Int64, millis.toInt ≠ 0 → window millis.toInt ⊆ Set.Ico 0 (2 ^ 63) →
      {t : UInt64 | t.toNat < 2 ^ 63 ∧ millisOfTicks t = millis}.ncard = 10000) ∧
    {t : UInt64 | t.toNat < 2 ^ 63 ∧ millisOfTicks t = 0}.ncard = 19999 := by
  refine ⟨fun millis hlo _ _ hhi => ?_, fun t h => ?_, fun s t hst h => ?_,
    fun millis hne h => ?_, ?_⟩
  · have hback := millisOfTicks_ticksOfMillis hlo hhi
    have hdifference : -2 ^ 63 ≤ (ticksOfMillis millis).toInt64.toInt - epochTicks.toInt := by
      rw [toInt_toInt64_ticksOfMillis hlo hhi]
      omega
    refine ⟨checkedTicksOfMillis_eq_some hlo hhi, ?_, hback⟩
    rw [checkedMillisOfTicks_eq_some hdifference, hback]
  · exact ⟨checkedMillisOfTicks_eq_some (le_toInt_toInt64_sub_epochTicks h),
      toNat_sub_ticksOfMillis_mem h⟩
  · exact Int64.le_iff_toInt_le.mp (millisOfTicks_le_millisOfTicks
      (le_toInt_toInt64_sub_epochTicks (by omega)) (toInt64_le_toInt64 h hst))
  · rw [ncard_setOf_millisOfTicks_eq h, ncard_window hne]
  · have hrange : window (0 : Int64).toInt ⊆ Set.Ico 0 (2 ^ 63) := by
      rw [Int64.toInt_zero, window_zero, toInt_epochTicks]
      exact fun n hn => ⟨by have := hn.1; omega, by have := hn.2; omega⟩
    rw [ncard_setOf_millisOfTicks_eq hrange, Int64.toInt_zero, ncard_window_zero]

/-- The least number of milliseconds whose product fits, the last tick before 1970, the first and
the last of the milliseconds whose whole window is in range, and the ends of the range. -/
theorem millis_truncate_toward_1970_of_ends :
    let least : Int64 := -922337203685477
    let eve : UInt64 := 122192927999999999
    let first : Int64 := -12219292799999
    let last : Int64 := 910117910885476
    (-2 ^ 63 ≤ least.toInt * 10000 ∧ least.toInt * 10000 + epochTicks.toInt < 2 ^ 63) ∧
      millisOfTicks (ticksOfMillis least) = least ∧
      eve.toNat < 2 ^ 63 ∧ (eve.toNat < epochTicks.toInt) ∧
      ((ticksOfMillis (millisOfTicks eve)).toNat : Int) - eve.toNat < 10000 ∧
      (millisOfTicks 0).toInt ≤ (millisOfTicks 0x7FFFFFFFFFFFFFFF).toInt ∧
      (window first.toInt ⊆ Set.Ico 0 (2 ^ 63) ∧
        {t : UInt64 | t.toNat < 2 ^ 63 ∧ millisOfTicks t = first}.ncard = 10000) ∧
      (window last.toInt ⊆ Set.Ico 0 (2 ^ 63) ∧
        {t : UInt64 | t.toNat < 2 ^ 63 ∧ millisOfTicks t = last}.ncard = 10000) := by
  intro least eve first last
  have hlo : -2 ^ 63 ≤ least.toInt * 10000 := by decide
  have hhi : least.toInt * 10000 + epochTicks.toInt < 2 ^ 63 := by decide
  have heve : eve.toNat < 2 ^ 63 := by decide
  have hbefore : eve.toNat < epochTicks.toInt := by decide
  have hfirst : window first.toInt ⊆ Set.Ico 0 (2 ^ 63) := by
    rw [window_of_neg (by decide)]
    exact fun n hn => ⟨Int.le_of_lt (Int.lt_of_le_of_lt (by decide) hn.1),
      Int.lt_of_le_of_lt hn.2 (by decide)⟩
  have hlast : window last.toInt ⊆ Set.Ico 0 (2 ^ 63) := by
    rw [window_of_pos (by decide)]
    exact Set.Ico_subset_Ico (by decide) (by decide)
  obtain ⟨hexact, hread, hmonotone, hcount, -⟩ := millis_truncate_toward_1970
  exact ⟨⟨hlo, hhi⟩, (hexact least hlo (by decide) (by decide) hhi).2.2, heve, hbefore,
    ((hread eve heve).2.2.2 hbefore).2, hmonotone _ _ (by decide) (by decide),
    ⟨hfirst, hcount first (by decide) hfirst⟩, ⟨hlast, hcount last (by decide) hlast⟩⟩

end UniqueId.Time
