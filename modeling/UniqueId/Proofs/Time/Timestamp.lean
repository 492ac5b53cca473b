import UniqueId.Proofs.Time.Layout
import UniqueId.Proofs.Time.Ticks
import UniqueId.Proofs.Uuid.Codes

/-!
# What a timestamp is read from

A timestamp is read as one of a kind, and the kind settles which bits are looked at
(`Kind.timeBit`): those of the high word around the version for the two kinds that hold ticks, the
upper 48 for the one that holds milliseconds, and none at all for the others. Identifiers that agree
there have the same timestamp as one of the kind, whatever else is in them
(`Uuid.timestampAs_congr`).

Since the ticks have 60 bits, the clock is never asked for more than it can tell: the difference and
the quotient that make milliseconds of them fit their words, and lie between the first tick in 1582
and the last in 5236 (`Time.toInt_millisOfTicks_mem_Icc`).
-/

namespace UniqueId

namespace Time

variable {t : UInt64}

/-- **The ends of time**: 60 bits of ticks are read as milliseconds between those of the first count
and those of the last. -/
theorem toInt_millisOfTicks_mem_Icc (h : t.toNat < 2 ^ 60) :
    -12219292800000 ≤ (millisOfTicks t).toInt ∧ (millisOfTicks t).toInt ≤ 103072857660684 := by
  have hlast : (0x0FFFFFFFFFFFFFFF : UInt64).toNat = 2 ^ 60 - 1 := rfl
  have hle (s : UInt64) (hs : s.toNat ≤ t.toNat) : millisOfTicks s ≤ millisOfTicks t :=
    millisOfTicks_le_millisOfTicks (le_toInt_toInt64_sub_epochTicks (by omega))
      (toInt64_le_toInt64 (by omega) hs)
  have hge : millisOfTicks t ≤ millisOfTicks 0x0FFFFFFFFFFFFFFF :=
    millisOfTicks_le_millisOfTicks (le_toInt_toInt64_sub_epochTicks (by omega))
      (toInt64_le_toInt64 (by omega) (by omega))
  exact ⟨Int64.le_iff_toInt_le.mp (hle 0 (Nat.zero_le _)), Int64.le_iff_toInt_le.mp hge⟩

/-- Nothing overflows on the way to the milliseconds of 60 bits of ticks. -/
theorem checkedMillisOfTicks_of_lt (h : t.toNat < 2 ^ 60) :
    checkedMillisOfTicks t = some (millisOfTicks t) :=
  checkedMillisOfTicks_eq_some (le_toInt_toInt64_sub_epochTicks (by omega))

end Time

/-- Whether a bit of the high word belongs to the time of a kind. -/
def Kind.timeBit (kind : Kind) (i : Nat) : Prop :=
  match kind with
  | .timeBased | .timeReordered => i < 12 ∨ 16 ≤ i
  | .timeEpoch => 16 ≤ i
  | .unknown | .dce | .nameBasedMd5 | .random | .nameBasedSha1 | .freeForm => False

namespace Uuid

variable {u v : Uuid} {kind : Kind}

/-! ### The bits that are looked at -/

/-- The high word without its version is the bits around the version. -/
theorem highWithoutVersion_eq_iff :
    u.highWithoutVersion = v.highWithoutVersion ↔
      ∀ i, i < 12 ∨ 16 ≤ i → u.high.toNat.testBit i = v.high.toNat.testBit i := by
  have hparts : u.highWithoutVersion = v.highWithoutVersion ↔
      u.high.toNat % 2 ^ 12 = v.high.toNat % 2 ^ 12 ∧
        u.high.toNat / 2 ^ 16 = v.high.toNat / 2 ^ 16 := by
    rw [← UInt64.toNat_inj, toNat_highWithoutVersion, toNat_highWithoutVersion]
    omega
  rw [hparts, Bits.mod_two_pow_eq_iff, Bits.div_two_pow_eq_iff]
  exact ⟨fun h i hi => hi.elim (h.1 i) (h.2 i), fun h => ⟨fun i hi => h i (.inl hi),
    fun i hi => h i (.inr hi)⟩⟩

/-- The milliseconds are the bits above the version. -/
theorem millis_eq_iff :
    u.millis = v.millis ↔ ∀ i, 16 ≤ i → u.high.toNat.testBit i = v.high.toNat.testBit i := by
  rw [← UInt64.toNat_inj, toNat_millis, toNat_millis, Bits.div_two_pow_eq_iff]

/-- **Nothing else is looked at**: identifiers that agree in the bits that belong to the time of a
kind have the same timestamp as one of this kind. -/
theorem timestampAs_congr
    (h : ∀ i, kind.timeBit i → u.high.toNat.testBit i = v.high.toNat.testBit i) :
    u.timestampAs kind = v.timestampAs kind := by
  cases kind with
  | timeBased => rw [timestampAs, timestampAs, ticks, ticks, highWithoutVersion_eq_iff.mpr h]
  | timeReordered =>
    rw [timestampAs, timestampAs, reorderedTicks, reorderedTicks, highWithoutVersion_eq_iff.mpr h]
  | timeEpoch => rw [timestampAs, timestampAs, millis_eq_iff.mpr h]
  | unknown | dce | nameBasedMd5 | random | nameBasedSha1 | freeForm => rfl

/-- The same, asked for by the code of the kind. -/
theorem timestampWithCode_congr (kind : Kind)
    (h : ∀ i, kind.timeBit i → u.high.toNat.testBit i = v.high.toNat.testBit i) :
    u.timestampWithCode (some kind.code) = v.timestampWithCode (some kind.code) := by
  rw [timestampWithCode_code, timestampWithCode_code, timestampAs_congr h]

/-! ### What it can be -/

/-- A kind that holds ticks tells their milliseconds, computed without overflow. -/
theorem exists_timestampWithCode_eq_ok_of_ticks (kind : Kind) {t : UInt64} (h : t.toNat < 2 ^ 60)
    (hkind : u.timestampAs kind = (Time.millisOfTicks t).toUInt64) :
    ∃ w, u.timestampWithCode (some kind.code) = .ok w ∧
      Time.checkedMillisOfTicks t = some w.toInt64 ∧
      -12219292800000 ≤ w.toInt64.toInt ∧ w.toInt64.toInt ≤ 103072857660684 := by
  refine ⟨_, timestampWithCode_code kind u, ?_⟩
  rw [hkind, Int64.toInt64_toUInt64]
  exact ⟨Time.checkedMillisOfTicks_of_lt h, Time.toInt_millisOfTicks_mem_Icc h⟩

/-- A kind that holds no time tells zero. -/
theorem timestampWithCode_eq_zero {code : Int32} (hlo : 0 ≤ code.toInt) (hhi : code.toInt ≤ 8)
    (h : code ∉ [1, 6, 7]) : u.timestampWithCode (some code) = .ok 0 := by
  obtain ⟨kind, rfl⟩ := Kind.exists_code_eq_code hlo hhi
  rw [timestampWithCode_code]
  cases kind with
  | timeBased | timeReordered | timeEpoch => exact absurd (by decide) h
  | unknown | dce | nameBasedMd5 | random | nameBasedSha1 | freeForm => rfl

/-- **Timestamps are read from the time alone.** Asked for by a code, a timestamp is refused exactly
if no kind has the code, and asked for by the kind that the identifier tells it is never refused. As
one of the two kinds that hold ticks it is computed without overflow, lies between the ends of 60
bits of ticks, and depends on the bits of the high word around the version alone. As one of the kind
that holds milliseconds it is below `2 ^ 48` and depends on the upper 48 bits alone. As one of any
other kind, or of none, it is zero. -/
theorem timestamp_reads_time_alone :
    (∀ (code : Option Int32) (u : Uuid) (fault : ArgumentFault),
      u.timestampWithCode code = .error fault ↔
        ∃ c, code = some c ∧ (c.toInt < 0 ∨ 8 < c.toInt) ∧ fault = .unknownKind c) ∧
    (∀ u : Uuid, ∃ w, u.timestamp = .ok w) ∧
    (∀ layout ∈ [((1 : Int32), ticks), (6, reorderedTicks)],
      (∀ u : Uuid, ∃ w, u.timestampWithCode (some layout.1) = .ok w ∧
        Time.checkedMillisOfTicks (layout.2 u) = some w.toInt64 ∧
        -12219292800000 ≤ w.toInt64.toInt ∧ w.toInt64.toInt ≤ 103072857660684) ∧
      ∀ u v : Uuid,
        (∀ i, i < 12 ∨ 16 ≤ i → u.high.toNat.testBit i = v.high.toNat.testBit i) →
          u.timestampWithCode (some layout.1) = v.timestampWithCode (some layout.1)) ∧
    ((∀ u : Uuid, ∃ w, u.timestampWithCode (some 7) = .ok w ∧ w.toNat < 2 ^ 48) ∧
      ∀ u v : Uuid, (∀ i, 16 ≤ i → u.high.toNat.testBit i = v.high.toNat.testBit i) →
        u.timestampWithCode (some 7) = v.timestampWithCode (some 7)) ∧
    ∀ u : Uuid, u.timestampWithCode none = .ok 0 ∧
      ∀ code : Int32, 0 ≤ code.toInt → code.toInt ≤ 8 → code ∉ [1, 6, 7] →
        u.timestampWithCode (some code) = .ok 0 := by
  refine ⟨fun code u fault => timestampWithCode_eq_error_iff, fun u => ⟨_, u.timestamp_eq_ok⟩,
    ?_, ⟨fun u => ?_, fun u v => timestampWithCode_congr .timeEpoch⟩,
    fun u => ⟨rfl, fun code => timestampWithCode_eq_zero⟩⟩
  · rw [List.forall_mem_cons, List.forall_mem_singleton]
    exact ⟨⟨fun u => exists_timestampWithCode_eq_ok_of_ticks .timeBased u.toNat_ticks_lt rfl,
        fun u v => timestampWithCode_congr .timeBased⟩,
      ⟨fun u => exists_timestampWithCode_eq_ok_of_ticks .timeReordered u.toNat_reorderedTicks_lt rfl,
        fun u v => timestampWithCode_congr .timeReordered⟩⟩
  · exact ⟨_, timestampWithCode_code .timeEpoch u, u.toNat_millis_lt⟩

/-- The last tick of all in both layouts, in identifiers that differ in the version and in the low
word; identifiers of one millisecond; and codes on both sides of those that kinds have. -/
theorem timestamp_reads_time_alone_of_ends :
    let u : Uuid := ⟨0xFFFFFFFFFFFF1FFF, 0⟩
    let v : Uuid := ⟨0xFFFFFFFFFFFF6FFF, 0xFFFFFFFFFFFFFFFF⟩
    let w : Uuid := ⟨0xFFFFFFFFFFFF7000, 5⟩
    (∀ i, i < 12 ∨ 16 ≤ i → u.high.toNat.testBit i = v.high.toNat.testBit i) ∧
      u.timestampWithCode (some 1) = v.timestampWithCode (some 1) ∧
      u.timestampWithCode (some 6) = v.timestampWithCode (some 6) ∧
      (∀ i, 16 ≤ i → v.high.toNat.testBit i = w.high.toNat.testBit i) ∧
      v.timestampWithCode (some 7) = w.timestampWithCode (some 7) ∧
      u.timestampWithCode (some 9) = .error (.unknownKind 9) ∧
      u.timestampWithCode (some (-1)) = .error (.unknownKind (-1)) ∧
      u.timestampWithCode (some 8) = .ok 0 := by
  intro u v w
  have hticks : ∀ i, i < 12 ∨ 16 ≤ i → u.high.toNat.testBit i = v.high.toNat.testBit i :=
    highWithoutVersion_eq_iff.mp (by decide)
  have hmillis : ∀ i, 16 ≤ i → v.high.toNat.testBit i = w.high.toNat.testBit i :=
    millis_eq_iff.mp (by decide)
  obtain ⟨herror, -, hlayouts, ⟨-, hepoch⟩, hzero⟩ := timestamp_reads_time_alone
  exact ⟨hticks, (hlayouts (1, ticks) (by simp)).2 u v hticks,
    (hlayouts (6, reorderedTicks) (by simp)).2 u v hticks, hmillis, hepoch v w hmillis,
    (herror (some 9) u _).mpr ⟨9, rfl, by decide, rfl⟩,
    (herror (some (-1)) u _).mpr ⟨-1, rfl, by decide, rfl⟩,
    (hzero u).2 8 (by decide) (by decide) (by decide)⟩

end Uuid

end UniqueId
