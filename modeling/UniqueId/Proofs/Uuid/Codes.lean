import UniqueId.Proofs.Uuid.Stamp
import UniqueId.Proofs.Uuid.Stamping

/-!
# Codes after a stamp

Three parts of the library take codes, and each knows other ones: a stamp takes those from zero to
fifteen, the kind is told by those from one to eight and by the zeros of the nil identifier, and the
time can be asked for by those from zero to eight. After a stamp they fit together:

* **The kind** (`Uuid.kind?_stamp_of_code`, `Uuid.kind?_stamp_eq_none`): the code of a kind is told
  again. All others are not, and neither is zero, for a stamped identifier is never nil.
* **The time** (`Uuid.timestamp_stamp`): a stamped identifier tells the time that its raw bits hold
  in the layout of the kind stamped.
* **The way back** (`Uuid.stampWithCode_of_kind?_eq_some`): stamping an identifier of the standard
  variant with the kind it tells changes nothing.
-/

namespace UniqueId

namespace Kind

variable {kind : Kind} {code : Int32}

/-- A code from zero to eight is the code of a kind. -/
theorem exists_code_eq_code (hlo : 0 ≤ code.toInt) (hhi : code.toInt ≤ 8) :
    ∃ kind : Kind, kind.code = code := by
  obtain ⟨kind, hkind⟩ := exists_code_eq (v := code.toInt.toNat) (by omega)
  refine ⟨kind, Int32.toInt_inj.mp ?_⟩
  rw [hkind, Int.toNat_of_nonneg hlo]

end Kind

namespace Uuid

variable {u v : Uuid} {kind : Kind} {code : Int32} {version : Fin 16}

/-! ### The kind -/

theorem stamp_ne_nil (version : Fin 16) (u : Uuid) : u.stamp version ≠ nil := by
  intro h
  have hvariant := congrArg variant h
  rw [variant_stamp] at hvariant
  exact absurd hvariant (by decide)

/-- Stamped versions that no kind but `unknown` has are not told. -/
theorem kind?_stamp_eq_none (h : (version : Nat) = 0 ∨ 8 < (version : Nat)) (u : Uuid) :
    (u.stamp version).kind? = none := by
  obtain hzero | habove := h
  · rw [kind?_of_version_eq_zero (by rw [version_stamp, hzero]), if_neg (stamp_ne_nil version u)]
  · exact kind?_eq_none (by rwa [version_stamp])

/-! ### The time -/

/-- **Codes that no kind has** are all that the time cannot be asked for by. -/
theorem timestampWithCode_eq_error_iff {code : Option Int32} {fault : ArgumentFault} :
    u.timestampWithCode code = .error fault ↔
      ∃ c, code = some c ∧ (c.toInt < 0 ∨ 8 < c.toInt) ∧ fault = .unknownKind c := by
  cases code with
  | none => simp [timestampWithCode]
  | some c =>
    simp only [timestampWithCode, Option.some.injEq, exists_eq_left', ← Kind.ofCode?_eq_none_iff]
    cases Kind.ofCode? c with
    | none => simp [eq_comm]
    | some kind => simp

theorem timestampWithCode_code (kind : Kind) (u : Uuid) :
    u.timestampWithCode (some kind.code) = .ok (u.timestampAs kind) := by
  rw [timestampWithCode, Kind.ofCode?_code]

/-- **The time of a stamped identifier** is the one that its raw bits hold in the layout of the
kind. -/
theorem timestamp_stamp (h : kind.code.toInt = (version : Nat)) (u : Uuid) :
    (u.stamp version).timestamp = .ok (u.timestampAs kind) := by
  by_cases hkind : kind = .unknown
  · subst hkind
    have hcode : Kind.unknown.code.toInt = 0 := rfl
    have hzero : (version : Nat) = 0 := by omega
    rw [timestamp_eq_ok, kind?_stamp_eq_none (.inl hzero)]
    rfl
  · rw [timestamp_of_kind?_eq_some (kind?_stamp_of_code hkind h u), timestampAs_stamp]

/-- Kinds above eight have no time, and stamped with them an identifier tells none. -/
theorem timestamp_stamp_of_lt (h : 8 < (version : Nat)) (u : Uuid) :
    (u.stamp version).timestamp = .ok 0 := by
  rw [timestamp_eq_ok, kind?_stamp_eq_none (.inr h)]
  rfl

/-! ### The way back -/

/-- **Stamping what is told** changes nothing, where the variant is standard. -/
theorem stampWithCode_of_kind?_eq_some (hkind : u.kind? = some kind) (hvariant : u.variant = 2) :
    u.stampWithCode kind.code = .ok u := by
  have hcode : kind.code.toInt = ((⟨u.version, u.version_lt⟩ : Fin 16) : Nat) :=
    version_of_kind?_eq_some hkind
  rw [stampWithCode_eq_ok hcode, stamp_eq_self_iff.mpr ⟨rfl, hvariant⟩]

/-! ### Together -/

/-- **Stamped codes are told.** A stamp takes the codes from zero to fifteen. Of these the codes of
kinds are told by the stamped identifier, and its timestamp is the one that the raw identifier has
when asked with the code; zero is not told, and the timestamp is the same all the same; and codes
above eight are not told, leave the timestamp zero, and cannot be asked with. The other way round,
an identifier of the standard variant is what stamping it with its own kind makes of it. -/
theorem stamped_code_is_told (u : Uuid) :
    (∀ code : Int32,
      ((∃ v, u.stampWithCode code = .ok v) ↔ 0 ≤ code.toInt ∧ code.toInt ≤ 15) ∧
        ∀ v, u.stampWithCode code = .ok v →
          (1 ≤ code.toInt → code.toInt ≤ 8 → ∃ kind, kind.code = code ∧ v.kind? = some kind) ∧
          (code.toInt = 0 ∨ 9 ≤ code.toInt → v.kind? = none) ∧
          (code.toInt ≤ 8 →
            ∃ millis, v.timestamp = .ok millis ∧ u.timestampWithCode (some code) = .ok millis) ∧
          (9 ≤ code.toInt → v.timestamp = .ok 0 ∧
            u.timestampWithCode (some code) = .error (.unknownKind code))) ∧
      ∀ kind, u.kind? = some kind → u.variant = 2 → u.stampWithCode kind.code = .ok u := by
  refine ⟨fun code => ⟨?_, ?_⟩, fun kind => stampWithCode_of_kind?_eq_some⟩
  · constructor
    · rintro ⟨v, hv⟩
      obtain ⟨version, hcode, -⟩ := stampWithCode_eq_ok_iff.mp hv
      have hlt : (version : Nat) < 16 := version.isLt
      omega
    · rintro ⟨hlo, hhi⟩
      obtain ⟨version, hcode⟩ := exists_version_eq hlo hhi
      exact ⟨u.stamp version, stampWithCode_eq_ok hcode u⟩
  · intro v hv
    obtain ⟨version, hcode, rfl⟩ := stampWithCode_eq_ok_iff.mp hv
    refine ⟨fun hlo hhi => ?_, fun h => ?_, fun hhi => ?_, fun h => ⟨?_, ?_⟩⟩
    · obtain ⟨kind, rfl⟩ := Kind.exists_code_eq_code (by omega) hhi
      have hkind : kind ≠ .unknown := by
        rintro rfl
        exact absurd hlo (by decide)
      exact ⟨kind, rfl, kind?_stamp_of_code hkind hcode u⟩
    · exact kind?_stamp_eq_none (by omega) u
    · obtain ⟨kind, rfl⟩ := Kind.exists_code_eq_code (by omega) hhi
      exact ⟨_, timestamp_stamp hcode u, timestampWithCode_code kind u⟩
    · exact timestamp_stamp_of_lt (by omega) u
    · rw [timestampWithCode, Kind.ofCode?_eq_none_iff.mpr (by omega)]

/-- Raw bits with a time seven milliseconds before 1970, stamped with the code of a kind, with zero,
and with a code that no kind has; and what the first of these stamps made, stamped with its own
kind. -/
theorem stamped_code_is_told_before_1970 :
    let u : Uuid := ⟨0x1B21DD213800FFFF, 0xFFFFFFFFFFFFFFFF⟩
    let v : Uuid := ⟨0x1B21DD2138006FFF, 0xBFFFFFFFFFFFFFFF⟩
    u.stampWithCode 6 = .ok v ∧
      (1 ≤ (6 : Int32).toInt ∧ (6 : Int32).toInt ≤ 8) ∧
      (∃ kind, kind.code = 6 ∧ v.kind? = some kind) ∧
      (v.timestamp = .ok (Int64.ofInt (-7)).toUInt64 ∧
        u.timestampWithCode (some 6) = .ok (Int64.ofInt (-7)).toUInt64 ∧
        (Int64.ofInt (-7)).toUInt64 = 0xFFFFFFFFFFFFFFF9) ∧
      (∃ w, u.stampWithCode 0 = .ok w ∧ w.kind? = none) ∧
      9 ≤ (11 : Int32).toInt ∧
      (∃ w, u.stampWithCode 11 = .ok w ∧ w.kind? = none ∧ w.timestamp = .ok 0 ∧
        u.timestampWithCode (some 11) = .error (.unknownKind 11)) ∧
      v.kind? = some .timeReordered ∧ v.variant = 2 ∧ v.stampWithCode 6 = .ok v := by
  intro u v
  have hv : u.stampWithCode 6 = .ok v := by decide
  have hsix : 1 ≤ (6 : Int32).toInt ∧ (6 : Int32).toInt ≤ 8 := by decide
  have heleven : 9 ≤ (11 : Int32).toInt := by decide
  have hkind : v.kind? = some .timeReordered := by decide
  have hvariant : v.variant = 2 := by decide
  obtain ⟨htold, -⟩ := stamped_code_is_told u
  obtain ⟨hkindSix, -, htimeSix, -⟩ := (htold 6).2 v hv
  obtain ⟨millis, htimestamp, hasked⟩ := htimeSix hsix.2
  have hseven : v.timestamp = .ok (Int64.ofInt (-7)).toUInt64 := by decide
  obtain rfl := Except.ok.inj (htimestamp.symm.trans hseven)
  obtain ⟨x, hx⟩ := (htold 0).1.mpr (by decide)
  obtain ⟨-, hkindZero, -⟩ := (htold 0).2 x hx
  obtain ⟨y, hy⟩ := (htold 11).1.mpr (by decide)
  obtain ⟨-, hkindEleven, -, htimeEleven⟩ := (htold 11).2 y hy
  exact ⟨hv, hsix, hkindSix hsix.1 hsix.2, ⟨htimestamp, hasked, by decide⟩,
    ⟨x, hx, hkindZero (.inl rfl)⟩, heleven,
    ⟨y, hy, hkindEleven (.inr heleven), htimeEleven heleven⟩, hkind, hvariant,
    (stamped_code_is_told v).2 .timeReordered hkind hvariant⟩

end Uuid

end UniqueId
