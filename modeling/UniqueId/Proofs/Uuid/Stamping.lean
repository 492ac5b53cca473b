import Mathlib.Algebra.Ring.Nat
import UniqueId.Proofs.Uuid.Stamp

/-!
# Stamping as a projection

An identifier is three things side by side: a version of four bits, a variant of two, and a **rest**
of 122. Identifiers that agree in all three are equal (`Uuid.eq_iff_sameRest`), and a stamp replaces
the first two, whatever they were, and keeps the third (`Uuid.stamp_eq_iff`). So stamping is a
projection:

* an earlier stamp is forgotten (`Uuid.stamp_stamp`);
* a stamp leaves alone the identifiers that it could have made (`Uuid.stamp_eq_self_iff`);
* a stamp tells identifiers apart by their rests alone (`Uuid.stamp_eq_stamp_iff`).

The version and the variant can also be stamped one at a time. However such **stampings** follow one
another, the rest stays, the last code stands in the version, and the variant is standard as soon as
it has been stamped at all (`Stamping.exists_run_eq_ok`).
-/

namespace UniqueId

namespace Uuid

variable {u v w : Uuid}

/-! ### The rest -/

/-- Identifiers have the **same rest** if they agree in every bit but bits 12 to 15 of the high word
and bits 62 and 63 of the low word. -/
structure SameRest (u v : Uuid) : Prop where
  testBit_high : ∀ i < 64, i < 12 ∨ 16 ≤ i → u.high.toNat.testBit i = v.high.toNat.testBit i
  testBit_low : ∀ i < 62, u.low.toNat.testBit i = v.low.toNat.testBit i

theorem SameRest.refl (u : Uuid) : SameRest u u :=
  ⟨fun _ _ _ => rfl, fun _ _ => rfl⟩

theorem SameRest.symm (h : SameRest u v) : SameRest v u :=
  ⟨fun i hi hrest => (h.testBit_high i hi hrest).symm, fun i hi => (h.testBit_low i hi).symm⟩

theorem SameRest.trans (huv : SameRest u v) (hvw : SameRest v w) : SameRest u w :=
  ⟨fun i hi hrest => (huv.testBit_high i hi hrest).trans (hvw.testBit_high i hi hrest),
    fun i hi => (huv.testBit_low i hi).trans (hvw.testBit_low i hi)⟩

/-- The rest as numbers: what stands above the version, below the version, and below the variant. -/
theorem sameRest_iff :
    SameRest u v ↔
      u.high.toNat / 2 ^ 16 = v.high.toNat / 2 ^ 16 ∧
        u.high.toNat % 2 ^ 12 = v.high.toNat % 2 ^ 12 ∧
        u.low.toNat % 2 ^ 62 = v.low.toNat % 2 ^ 62 := by
  rw [Bits.div_two_pow_eq_iff, Bits.mod_two_pow_eq_iff, Bits.mod_two_pow_eq_iff]
  constructor
  · intro h
    refine ⟨fun i hi => ?_, fun i hi => h.testBit_high i (by omega) (.inl hi), h.testBit_low⟩
    obtain hword | hbeyond := Nat.lt_or_ge i 64
    · exact h.testBit_high i hword (.inr hi)
    · have hzero (x : UInt64) : x.toNat.testBit i = false :=
        Nat.testBit_lt_two_pow
          (Nat.lt_of_lt_of_le x.toNat_lt (Nat.pow_le_pow_right (by decide) hbeyond))
      rw [hzero, hzero]
  · rintro ⟨habove, hbelow, hlow⟩
    exact ⟨fun i _ hrest => hrest.elim (hbelow i) (habove i), hlow⟩

/-- **Three parts**: an identifier is its version, its variant and its rest. -/
theorem eq_iff_sameRest : u = v ↔ SameRest u v ∧ u.version = v.version ∧ u.variant = v.variant := by
  rw [sameRest_iff, version_eq, version_eq, variant_eq, variant_eq, Uuid.ext_iff,
    ← UInt64.toNat_inj, ← UInt64.toNat_inj]
  omega

/-! ### Laws of the stamp -/

section Laws

variable {t : Fin 16}

/-- Stamping the high word keeps the rest. -/
theorem sameRest_stampHigh (version : Fin 16) (u : Uuid) :
    SameRest { u with high := stampHigh version u.high } u := by
  have hversion : (version : Nat) < 16 := version.isLt
  have hhigh := toNat_stampHigh version u.high
  rw [sameRest_iff]
  dsimp only
  omega

/-- Stamping the low word keeps the rest. -/
theorem sameRest_stampLow (u : Uuid) : SameRest { u with low := stampLow u.low } u := by
  have hlow := toNat_stampLow u.low
  rw [sameRest_iff]
  dsimp only
  omega

/-- A stamp keeps the rest. -/
theorem sameRest_stamp (version : Fin 16) (u : Uuid) : SameRest (u.stamp version) u :=
  (sameRest_stampLow { u with high := stampHigh version u.high }).trans
    (sameRest_stampHigh version u)

/-- **What a stamp makes** is known by its three parts. -/
theorem stamp_eq_iff : u.stamp t = v ↔ SameRest u v ∧ v.version = t ∧ v.variant = 2 := by
  have hrest : SameRest (u.stamp t) v ↔ SameRest u v :=
    ⟨(sameRest_stamp t u).symm.trans, (sameRest_stamp t u).trans⟩
  rw [eq_iff_sameRest, hrest, version_stamp, variant_stamp, eq_comm, @eq_comm _ 2]

/-- **Last writer wins**: an earlier stamp is forgotten. -/
theorem stamp_stamp (s t : Fin 16) (u : Uuid) : (u.stamp s).stamp t = u.stamp t :=
  stamp_eq_iff.mpr ⟨(sameRest_stamp s u).trans (sameRest_stamp t u).symm, version_stamp t u,
    variant_stamp t u⟩

/-- **Fixed points**: a stamp leaves alone what it could have made. -/
theorem stamp_eq_self_iff : u.stamp t = u ↔ u.version = t ∧ u.variant = 2 := by
  rw [stamp_eq_iff, and_iff_right (SameRest.refl u)]

/-- **Kernel**: a stamp tells identifiers apart by their rests alone. -/
theorem stamp_eq_stamp_iff : u.stamp t = v.stamp t ↔ SameRest u v := by
  rw [stamp_eq_iff, version_stamp, variant_stamp, and_iff_left ⟨rfl, rfl⟩]
  exact ⟨fun h => h.trans (sameRest_stamp t v), fun h => h.trans (sameRest_stamp t v).symm⟩

end Laws

end Uuid

/-! ### Stampings -/

/-- A **stamping** of an identifier: of the whole, or of one of its words. -/
inductive Stamping where
  /-- Stamps a code on the identifier. -/
  | both (code : Int32)
  /-- Stamps a code on the high word. -/
  | high (code : Int32)
  /-- Stamps the standard variant on the low word. -/
  | low
deriving DecidableEq, Repr

namespace Stamping

open Uuid (SameRest)

variable {s : Stamping} {stampings : List Stamping}

/-- The identifier after a stamping, or the fault it ends in. -/
def apply (u : Uuid) : Stamping → Except ArgumentFault Uuid
  | both code => u.stampWithCode code
  | high code => (Uuid.stampHighWithCode code u.high).map fun high => { u with high }
  | low => .ok { u with low := Uuid.stampLow u.low }

/-- The identifier after one stamping after another, or the first fault. -/
def run (u : Uuid) (stampings : List Stamping) : Except ArgumentFault Uuid :=
  stampings.foldlM apply u

/-- The code that a stamping writes to the version. -/
def code? : Stamping → Option Int32
  | both code => some code
  | high code => some code
  | low => none

/-- A stamping writes the variant. -/
def stampsVariant : Stamping → Bool
  | both _ => true
  | high _ => false
  | low => true

/-- A stamping **fits** if its code, where it has one, is among those from zero to fifteen. -/
def Fits (s : Stamping) : Prop :=
  ∀ code ∈ s.code?, 0 ≤ code.toInt ∧ code.toInt ≤ 15

/-- The version after some stampings: the code of the last one that has a code, and what it was at
first if none has. -/
def lastCode (initial : Int) (stampings : List Stamping) : Int :=
  ((stampings.filterMap code?).map Int32.toInt).getLastD initial

theorem lastCode_cons (initial : Int) (s : Stamping) (stampings : List Stamping) :
    lastCode initial (s :: stampings) =
      lastCode ((s.code?.map Int32.toInt).getD initial) stampings := by
  cases s with
  | both code => exact List.getLastD_cons
  | high code => exact List.getLastD_cons
  | low => rfl

/-- **One stamping**: what fits succeeds, and writes its fields and nothing else. -/
theorem exists_apply_eq_ok (h : s.Fits) (u : Uuid) :
    ∃ v, s.apply u = .ok v ∧ SameRest v u ∧
      (v.version : Int) = (s.code?.map Int32.toInt).getD u.version ∧
      v.variant = if s.stampsVariant then 2 else u.variant := by
  cases s with
  | both code =>
    obtain ⟨hlo, hhi⟩ := h code rfl
    obtain ⟨version, hcode⟩ := Uuid.exists_version_eq hlo hhi
    refine ⟨u.stamp version, Uuid.stampWithCode_eq_ok hcode u, Uuid.sameRest_stamp version u, ?_,
      Uuid.variant_stamp version u⟩
    rw [Uuid.version_stamp]
    exact hcode.symm
  | high code =>
    obtain ⟨hlo, hhi⟩ := h code rfl
    obtain ⟨version, hcode⟩ := Uuid.exists_version_eq hlo hhi
    refine ⟨{ u with high := Uuid.stampHigh version u.high }, ?_, Uuid.sameRest_stampHigh version u,
      ?_, rfl⟩
    · rw [apply, Uuid.stampHighWithCode_eq_ok hcode]
      rfl
    · exact (congrArg Nat.cast (Uuid.version_stamp version u)).trans hcode.symm
  | low => exact ⟨_, rfl, Uuid.sameRest_stampLow u, rfl, Uuid.variant_stamp 0 u⟩

/-- **Any number of stampings**: the rest stays, the last code stands in the version, and the
variant is standard once it has been stamped. -/
theorem exists_run_eq_ok (h : ∀ s ∈ stampings, s.Fits) (u : Uuid) :
    ∃ v, run u stampings = .ok v ∧ SameRest v u ∧
      (v.version : Int) = lastCode u.version stampings ∧
      v.variant = if stampings.any stampsVariant then 2 else u.variant := by
  induction stampings generalizing u with
  | nil => exact ⟨u, rfl, SameRest.refl u, rfl, rfl⟩
  | cons s rest ih =>
    obtain ⟨v, hv, hvrest, hvversion, hvvariant⟩ := exists_apply_eq_ok (h s List.mem_cons_self) u
    obtain ⟨w, hw, hwrest, hwversion, hwvariant⟩ :=
      ih (fun t ht => h t (List.mem_cons_of_mem s ht)) v
    refine ⟨w, ?_, hwrest.trans hvrest, ?_, ?_⟩
    · rw [run, List.foldlM_cons, hv]
      exact hw
    · rw [hwversion, lastCode_cons, hvversion]
    · rw [hwvariant, hvvariant, List.any_cons]
      cases s.stampsVariant <;> simp

/-- **Stamping is a projection.** A second stamp makes the first forgotten. What a code has been
stamped on has it for its version, and the standard variant; the identifiers that have these already
are those that the stamp leaves alone; and it makes one of two identifiers exactly if they have the
same rest. After any number of stampings the rest is the one at first, the version is the last code
stamped, and the variant is standard if it was ever stamped. -/
theorem last_stamping_wins :
    (∀ (u v : Uuid) (s t : Int32), 0 ≤ s.toInt → s.toInt ≤ 15 → 0 ≤ t.toInt → t.toInt ≤ 15 →
      ∃ us ut vt, u.stampWithCode s = .ok us ∧ u.stampWithCode t = .ok ut ∧
        v.stampWithCode t = .ok vt ∧ us.stampWithCode t = .ok ut ∧
        ((ut.version : Int) = t.toInt ∧ ut.variant = 2) ∧
        (ut = u ↔ (u.version : Int) = t.toInt ∧ u.variant = 2) ∧
        (ut = vt ↔ SameRest u v)) ∧
    ∀ (u : Uuid) (stampings : List Stamping), (∀ s ∈ stampings, s.Fits) →
      ∃ v, run u stampings = .ok v ∧ SameRest v u ∧
        (v.version : Int) = lastCode u.version stampings ∧
        v.variant = if stampings.any stampsVariant then 2 else u.variant := by
  refine ⟨?_, fun u stampings h => exists_run_eq_ok h u⟩
  intro u v s t hslo hshi htlo hthi
  obtain ⟨x, hx⟩ := Uuid.exists_version_eq hslo hshi
  obtain ⟨y, hy⟩ := Uuid.exists_version_eq htlo hthi
  refine ⟨u.stamp x, u.stamp y, v.stamp y, Uuid.stampWithCode_eq_ok hx u,
    Uuid.stampWithCode_eq_ok hy u, Uuid.stampWithCode_eq_ok hy v, ?_, ?_, ?_,
    Uuid.stamp_eq_stamp_iff⟩
  · rw [Uuid.stampWithCode_eq_ok hy, Uuid.stamp_stamp]
  · rw [Uuid.version_stamp, Uuid.variant_stamp, hy]
    exact ⟨rfl, rfl⟩
  · rw [Uuid.stamp_eq_self_iff, hy, Int.natCast_inj]

/-- Two identifiers that differ in all six bits, a code that no kind has, and stampings of every
sort. -/
theorem last_stamping_wins_of_foreign_code :
    let u : Uuid := ⟨0x0123456789AB0DEF, 0x0123456789ABCDEF⟩
    let v : Uuid := ⟨0x0123456789ABFDEF, 0xC123456789ABCDEF⟩
    let stampings : List Stamping := [.high 3, .both 7, .low, .high 15]
    (0 ≤ (4 : Int32).toInt ∧ (4 : Int32).toInt ≤ 15) ∧
      (0 ≤ (11 : Int32).toInt ∧ (11 : Int32).toInt ≤ 15) ∧
      (∃ us ut, u.stampWithCode 4 = .ok us ∧ us.stampWithCode 11 = .ok ut ∧
        v.stampWithCode 11 = .ok ut ∧ (ut.version : Int) = 11 ∧ ut ≠ u) ∧
      (∀ s ∈ stampings, s.Fits) ∧
      ∃ w, run u stampings = .ok w ∧ SameRest w u ∧ (w.version : Int) = 15 ∧ w.variant = 2 := by
  intro u v stampings
  have hfour : 0 ≤ (4 : Int32).toInt ∧ (4 : Int32).toInt ≤ 15 := by decide
  have heleven : 0 ≤ (11 : Int32).toInt ∧ (11 : Int32).toInt ≤ 15 := by decide
  have hstamps : u.stamp 0 = v.stamp 0 := by decide
  have hrest : SameRest u v := Uuid.stamp_eq_stamp_iff.mp hstamps
  have hfits : ∀ s ∈ stampings, s.Fits := by
    simp only [stampings, List.forall_mem_cons, List.not_mem_nil, false_imp_iff, implies_true,
      and_true]
    refine ⟨?_, ?_, ?_, ?_⟩ <;> rintro code ⟨⟩ <;> decide
  obtain ⟨hstamp, hrun⟩ := last_stamping_wins
  obtain ⟨us, ut, vt, hus, -, hvt, husut, ⟨hversion, -⟩, hfixed, hsame⟩ :=
    hstamp u v 4 11 hfour.1 hfour.2 heleven.1 heleven.2
  obtain rfl := hsame.mpr hrest
  obtain ⟨w, hw, hwrest, hwversion, hwvariant⟩ := hrun u stampings hfits
  have hchanged : ut ≠ u := fun h => absurd (hfixed.mp h).1 (by decide)
  exact ⟨hfour, heleven, ⟨us, ut, hus, husut, hvt, hversion, hchanged⟩, hfits, w, hw, hwrest,
    hwversion, hwvariant⟩

end Stamping

end UniqueId
