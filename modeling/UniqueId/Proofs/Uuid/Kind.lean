import Mathlib.Tactic.IntervalCases
import UniqueId.Uuid.Kind

/-!
# The kind by the version

The codes of the kinds are the numbers from zero to eight (`Kind.exists_code_eq`), while the version
field reaches up to fifteen. So there are three cases: a version from one to eight is the code of
the kind it tells, a greater one tells nothing, and zero tells only the nil identifier.
-/

namespace UniqueId

namespace Kind

/-- Kinds and the numbers from zero to eight are the same thing. -/
theorem ofVersion?_eq_some_iff {v : Nat} {kind : Kind} :
    ofVersion? v = some kind ↔ kind.code.toInt = v := by
  constructor
  · intro h
    rw [ofVersion?.eq_def] at h
    split at h <;> first | contradiction | (obtain rfl := Option.some.inj h; rfl)
  · intro h
    have hv : v = kind.code.toInt.toNat := by omega
    subst hv
    cases kind <;> rfl

theorem code_le (kind : Kind) : kind.code.toInt ≤ 8 := by
  cases kind <;> decide

/-- Every number from zero to eight is the code of a kind. -/
theorem exists_code_eq {v : Nat} (h : v ≤ 8) : ∃ kind : Kind, kind.code.toInt = v := by
  have hsome : (ofVersion? v).isSome := by interval_cases v <;> rfl
  obtain ⟨kind, hkind⟩ := Option.isSome_iff_exists.mp hsome
  exact ⟨kind, ofVersion?_eq_some_iff.mp hkind⟩

theorem ofVersion?_eq_none {v : Nat} (h : 8 < v) : ofVersion? v = none := by
  refine Option.eq_none_iff_forall_ne_some.mpr fun kind hkind => ?_
  have hcode := ofVersion?_eq_some_iff.mp hkind
  have hle := kind.code_le
  omega

/-- The codes of kinds are those from zero to eight. -/
theorem ofCode?_eq_none_iff {code : Int32} :
    ofCode? code = none ↔ code.toInt < 0 ∨ 8 < code.toInt := by
  rw [ofCode?]
  by_cases hneg : 0 ≤ code
  · rw [if_pos hneg]
    have hcode : code.toInt = code.toNatClampNeg := Int32.toInt_eq_toNatClampNeg hneg
    constructor
    · intro hnone
      by_contra hrange
      obtain ⟨kind, hkind⟩ := exists_code_eq (v := code.toNatClampNeg) (by omega)
      rw [ofVersion?_eq_some_iff.mpr hkind] at hnone
      contradiction
    · intro hrange
      exact ofVersion?_eq_none (by omega)
  · rw [if_neg hneg]
    refine iff_of_true rfl (.inl ?_)
    rwa [Int32.le_iff_toInt_le, Int32.toInt_zero, Int.not_le] at hneg

end Kind

namespace Uuid

variable {u : Uuid}

/-- Versions from one to eight tell the kind with that code. -/
theorem exists_kind?_eq_some (hlo : 1 ≤ u.version) (hhi : u.version ≤ 8) :
    ∃ kind, u.kind? = some kind ∧ kind.code.toInt = u.version := by
  obtain ⟨kind, hcode⟩ := Kind.exists_code_eq hhi
  have hkind : Kind.ofVersion? u.version = some kind := Kind.ofVersion?_eq_some_iff.mpr hcode
  refine ⟨kind, ?_, hcode⟩
  rw [kind?, hkind]
  split
  · next hunknown =>
    obtain rfl := Option.some.inj hunknown
    have hzero : (u.version : Int) = 0 := hcode.symm
    omega
  · rfl

/-- Version zero tells the nil identifier, and no other. -/
theorem kind?_of_version_eq_zero (h : u.version = 0) :
    u.kind? = if u = nil then some .unknown else none := by
  rw [kind?, h]
  rfl

/-- Versions above eight tell nothing. -/
theorem kind?_eq_none (h : 8 < u.version) : u.kind? = none := by
  rw [kind?, Kind.ofVersion?_eq_none h]

/-- A kind is told by its code alone. -/
theorem version_of_kind?_eq_some {kind : Kind} (h : u.kind? = some kind) :
    kind.code.toInt = u.version := by
  refine Kind.ofVersion?_eq_some_iff.mp ?_
  rw [kind?] at h
  split at h
  · next hunknown =>
    split at h
    · rw [hunknown, h]
    · contradiction
  · exact h

end Uuid

end UniqueId
