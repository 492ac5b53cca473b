import UniqueId.Proofs.Time.Layout
import UniqueId.Proofs.Time.Ticks
import UniqueId.Proofs.Uuid.Stamp

/-!
# Identifiers in the order of their times

Two kinds put the most significant part of the time first, so their identifiers sort by time. The
order of identifiers sees more than the time: the version in the middle of it, and the low word
behind it. Neither can turn two times round:

* among identifiers of one kind the version is the same, so a greater high word leaves a time that
  is not earlier (`reorderedTicks_le`, `millis_le`);
* the low word only decides where the high words agree, and then the times agree too.

Reading the ticks on the clock since 1970 keeps their order (`Time.millisOfTicks_le_millisOfTicks`),
and so the timestamps of the two kinds are in order, compared as signed words
(`timestampAs_le_timestampAs`). An order between timestamps goes back to the identifiers by
contraposition.
-/

namespace UniqueId.Uuid

variable {u v : Uuid} {kind : Kind}

/-- Where the versions agree, a greater high word has no fewer ticks. -/
theorem reorderedTicks_le (hversion : u.version = v.version) (h : u.high ≤ v.high) :
    u.reorderedTicks.toNat ≤ v.reorderedTicks.toNat := by
  rw [version_eq, version_eq] at hversion
  rw [UInt64.le_iff_toNat_le] at h
  rw [toNat_reorderedTicks, toNat_reorderedTicks]
  omega

/-- A greater high word has no fewer milliseconds. -/
theorem millis_le (h : u.high ≤ v.high) : u.millis.toNat ≤ v.millis.toNat := by
  rw [UInt64.le_iff_toNat_le] at h
  rw [toNat_millis, toNat_millis]
  exact Nat.div_le_div_right h

/-- **One kind, one order**: a greater high word has no earlier timestamp, in both of the kinds that
put the most significant part of the time first. -/
theorem timestampAs_le_timestampAs (hkind : kind = .timeReordered ∨ kind = .timeEpoch)
    (hversion : u.version = v.version) (h : u.high ≤ v.high) :
    (u.timestampAs kind).toInt64 ≤ (v.timestampAs kind).toInt64 := by
  obtain rfl | rfl := hkind
  · have hu := u.toNat_reorderedTicks_lt
    have hv := v.toNat_reorderedTicks_lt
    have hticks := Time.toInt64_le_toInt64 (by omega) (reorderedTicks_le hversion h)
    rw [timestampAs, timestampAs, Int64.toInt64_toUInt64, Int64.toInt64_toUInt64]
    exact Time.millisOfTicks_le_millisOfTicks
      (Time.le_toInt_toInt64_sub_epochTicks (by omega)) hticks
  · have hv := v.toNat_millis_lt
    rw [timestampAs, timestampAs]
    exact Time.toInt64_le_toInt64 (by omega) (millis_le h)

theorem high_le_of_lt (h : u < v) : u.high ≤ v.high := by
  obtain hlt | ⟨heq, -⟩ := lt_def.mp h
  · exact UInt64.le_of_lt hlt
  · exact UInt64.le_of_eq heq

theorem high_le_of_not_lt (h : ¬ u < v) : v.high ≤ u.high :=
  UInt64.not_lt.mp fun hlt => h (lt_def.mpr (.inl hlt))

/-- **Identifiers sort by time.** Let two identifiers be told as time-reordered, or both as
time-epoch. Then the earlier of them in the order of identifiers has no later timestamp, and the one
with the earlier timestamp comes first in the order of identifiers. Timestamps are compared as
signed words, so times before 1970 have their place too. -/
theorem timestamp_sorts (hkind : kind = .timeReordered ∨ kind = .timeEpoch)
    (hu : u.kind? = some kind) (hv : v.kind? = some kind) :
    ∃ s t, u.timestamp = .ok s ∧ v.timestamp = .ok t ∧
      (u < v → s.toInt64.toInt ≤ t.toInt64.toInt) ∧
      (s.toInt64.toInt < t.toInt64.toInt → u < v) := by
  have hversion : u.version = v.version := by
    have hucode := version_of_kind?_eq_some hu
    have hvcode := version_of_kind?_eq_some hv
    omega
  refine ⟨_, _, timestamp_of_kind?_eq_some hu, timestamp_of_kind?_eq_some hv, ?_, ?_⟩
  · intro h
    exact Int64.le_iff_toInt_le.mp
      (timestampAs_le_timestampAs hkind hversion (high_le_of_lt h))
  · intro hearlier
    refine Decidable.by_contra fun h => ?_
    have hle := Int64.le_iff_toInt_le.mp
      (timestampAs_le_timestampAs hkind hversion.symm (high_le_of_not_lt h))
    omega

/-- Two times before 1970, eight milliseconds and one, in identifiers whose low words are in the
opposite order. -/
theorem timestamp_sorts_before_1970 :
    let u : Uuid := ⟨0x1B21DD2138006000, 0xFFFFFFFFFFFFFFFF⟩
    let v : Uuid := ⟨0x1B21DD2138106000, 0⟩
    u.kind? = some .timeReordered ∧ v.kind? = some .timeReordered ∧
      u.timestamp = .ok (-8) ∧ v.timestamp = .ok (-1) ∧
      (u < v → (-8 : UInt64).toInt64.toInt ≤ (-1 : UInt64).toInt64.toInt) ∧ u < v := by
  intro u v
  have hu : u.kind? = some .timeReordered := by decide
  have hv : v.kind? = some .timeReordered := by decide
  have hs : u.timestamp = .ok (-8) := by decide
  have ht : v.timestamp = .ok (-1) := by decide
  obtain ⟨s, t, hs', ht', hle, hlt⟩ := timestamp_sorts (.inl rfl) hu hv
  obtain rfl : -8 = s := Except.ok.inj (hs.symm.trans hs')
  obtain rfl : -1 = t := Except.ok.inj (ht.symm.trans ht')
  exact ⟨hu, hv, hs, ht, hle, hlt (by decide)⟩

end UniqueId.Uuid
