import UniqueId.Proofs.Uuid.Kind
import UniqueId.Time.Timestamp
import UniqueId.Uuid.Stamp

/-!
# What a stamp tells, and what it leaves alone

A stamp is read back by classification: what was stamped with the code of a kind other than
`unknown` is of that kind (`Uuid.kind?_stamp_of_code`).

The time stands in the bits around the version, which a stamp does not touch
(`Uuid.highWithoutVersion_stamp`). So an identifier stamped with a kind has the timestamp that its
raw bits hold in the layout of that kind (`Uuid.exists_stampWithCode_and_timestamp`).
-/

namespace UniqueId.Uuid

variable {u v : Uuid} {kind : Kind} {code : Int32}

/-! ### Codes that fit -/

/-- A code from zero to fifteen is a version. -/
theorem exists_version_eq (hlo : 0 ≤ code.toInt) (hhi : code.toInt ≤ 15) :
    ∃ version : Fin 16, code.toInt = (version : Nat) :=
  ⟨⟨code.toInt.toNat, by omega⟩, (Int.toNat_of_nonneg hlo).symm⟩

/-- Stamping a code that fits is stamping the version. -/
theorem stampWithCode_eq_ok {version : Fin 16} (h : code.toInt = (version : Nat)) (u : Uuid) :
    u.stampWithCode code = .ok (u.stamp version) := by
  rw [stampWithCode, versionOfCode_eq_ok_iff.mpr h]
  rfl

theorem stampWithCode_eq_ok_iff :
    u.stampWithCode code = .ok v ↔ ∃ version : Fin 16, code.toInt = (version : Nat) ∧
      u.stamp version = v := by
  constructor
  · intro h
    cases hversion : versionOfCode code with
    | error fault =>
      rw [stampWithCode, hversion] at h
      contradiction
    | ok version =>
      rw [stampWithCode, hversion] at h
      exact ⟨version, versionOfCode_eq_ok_iff.mp hversion, Except.ok.inj h⟩
  · rintro ⟨version, hcode, rfl⟩
    exact stampWithCode_eq_ok hcode u

/-- The same on the high word. -/
theorem stampHighWithCode_eq_ok {version : Fin 16} (h : code.toInt = (version : Nat))
    (high : UInt64) : stampHighWithCode code high = .ok (stampHigh version high) := by
  rw [stampHighWithCode, versionOfCode_eq_ok_iff.mpr h]
  rfl

/-! ### The kind -/

/-- **Stamped kinds are told**, all of them but `unknown`. -/
theorem kind?_stamp_of_code {version : Fin 16} (hkind : kind ≠ .unknown)
    (hcode : kind.code.toInt = (version : Nat)) (u : Uuid) : (u.stamp version).kind? = some kind := by
  have htold : Kind.ofVersion? (u.stamp version).version = some kind := by
    rw [version_stamp]
    exact Kind.ofVersion?_eq_some_iff.mpr hcode
  rw [kind?, htold]
  split
  · next hunknown => exact absurd (Option.some.inj hunknown) hkind
  · rfl

/-- Every kind's code can be stamped. -/
theorem exists_stampWithCode_code_eq (kind : Kind) (u : Uuid) :
    ∃ version : Fin 16, kind.code.toInt = (version : Nat) ∧
      u.stampWithCode kind.code = .ok (u.stamp version) := by
  have hlo : 0 ≤ kind.code.toInt := by cases kind <;> decide
  have hhi := kind.code_le
  obtain ⟨version, hcode⟩ := exists_version_eq hlo (by omega)
  exact ⟨version, hcode, stampWithCode_eq_ok hcode u⟩

/-! ### The time -/

/-- **A stamp leaves the time alone**: the bits around the version are those of the raw word. -/
@[simp] theorem highWithoutVersion_stamp (version : Fin 16) (u : Uuid) :
    (u.stamp version).highWithoutVersion = u.highWithoutVersion := by
  have hversion : (version : Nat) < 16 := version.isLt
  rw [← UInt64.toNat_inj, toNat_highWithoutVersion, toNat_highWithoutVersion, stamp,
    toNat_stampHigh]
  omega

@[simp] theorem timestampAs_stamp (kind : Kind) (version : Fin 16) (u : Uuid) :
    (u.stamp version).timestampAs kind = u.timestampAs kind := by
  simp only [timestampAs, ticks, reorderedTicks, millis, highWithoutVersion_stamp]

theorem timestamp_of_kind?_eq_some (h : u.kind? = some kind) :
    u.timestamp = .ok (u.timestampAs kind) := by
  rw [timestamp_eq_ok, h]
  rfl

/-- **The time of a stamped identifier** is the one that its raw bits hold in the layout of the
kind stamped. -/
theorem exists_stampWithCode_and_timestamp (hkind : kind ≠ .unknown) (u : Uuid) :
    ∃ v, u.stampWithCode kind.code = .ok v ∧ v.kind? = some kind ∧
      v.timestamp = .ok (u.timestampAs kind) := by
  obtain ⟨version, hcode, hstamp⟩ := exists_stampWithCode_code_eq kind u
  have htold : (u.stamp version).kind? = some kind := kind?_stamp_of_code hkind hcode u
  refine ⟨u.stamp version, hstamp, htold, ?_⟩
  rw [timestamp_of_kind?_eq_some htold, timestampAs_stamp]

end UniqueId.Uuid
