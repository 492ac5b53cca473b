import UniqueId.Proofs.Lexicographic
import UniqueId.Proofs.Sorting
import UniqueId.Proofs.Text.Writing

/-!
# One order in every form

An identifier can be compared as a pair of words, as one number, as sixteen bytes and as a text of
either letter case. All of these are the order of the number, read in another base:

* the **bytes** are its digits in base 256 (`lt_iff_precedes_toBytes`);
* the **texts** are its digits in base 16, with hyphens that stand in the same places in every text
  (`lt_iff_precedes_toText`).

So identifiers come out of a sort in one sequence, whichever form it compares (`sortsAlike`).
-/

namespace UniqueId.Uuid

open Bytes (Precedes)
open Text (digits)

variable {u v : Uuid}

/-- The order of identifiers is strict and total, as the order of their numbers is. -/
instance : IsStrictTotalOrder Uuid (· < ·) where
  irrefl u h := Nat.lt_irrefl _ (lt_iff_toNat_lt.mp h)
  trans u v w huv hvw :=
    lt_iff_toNat_lt.mpr (Nat.lt_trans (lt_iff_toNat_lt.mp huv) (lt_iff_toNat_lt.mp hvw))
  trichotomous u v huv hvu := by
    rw [lt_iff_toNat_lt, Nat.not_lt] at huv hvu
    exact toNat_inj.mp (Nat.le_antisymm hvu huv)

/-- Bytes in order, identifiers in order. -/
theorem lt_iff_precedes_toBytes : u < v ↔ Precedes u.toBytes v.toBytes := by
  rw [Bytes.precedes_iff_toNat_lt (by rw [length_toBytes, length_toBytes]), toNat_toBytes,
    toNat_toBytes, lt_iff_toNat_lt]

/-- Texts of one letter case in order, identifiers in order. -/
theorem lt_iff_precedes_toText (letters : LetterCase) :
    u < v ↔ Precedes (u.toText letters) (v.toText letters) := by
  have hu := canonical_toText letters u
  have hv := canonical_toText letters v
  have hdigits : Precedes (u.toText letters) (v.toText letters) ↔
      List.Lex (· < ·) (digits (u.toText letters)) (digits (v.toText letters)) :=
    Text.precedes_iff_lex_digits letters hu.fitsFrom hv.fitsFrom
      (by rw [length_toText, length_toText]) (map_fold_toText letters u) (map_fold_toText letters v)
  rw [hdigits, Numeral.lex_iff_value_lt (by norm_num) (by rw [hu.length_digits, hv.length_digits])
    (fun _ => Text.lt_of_mem_digits) (fun _ => Text.lt_of_mem_digits), value_digits_toText,
    value_digits_toText, lt_iff_toNat_lt]

/-! ### Sorting -/

/-- An order on a form of identifiers **sorts alike** if sorting identifiers by their forms gives
the sequence of sorted identifiers, and sorting the forms themselves gives the forms of that
sequence. -/
def SortsAlike {α : Type} (r : α → α → Prop) [DecidableRel r] (form : Uuid → α) : Prop :=
  ∀ us : List Uuid,
    UniqueId.sortDistinct (fun u v => decide (r (form u) (form v))) us = sortDistinct us ∧
      UniqueId.sortDistinct (fun x y => decide (r x y)) (us.map form) = (sortDistinct us).map form

/-- An order that agrees with the order of identifiers sorts alike. -/
theorem sortsAlike {α : Type} {r : α → α → Prop} [DecidableRel r] {form : Uuid → α}
    (h : ∀ u v, u < v ↔ r (form u) (form v)) : SortsAlike r form := by
  have hcompare : (fun u v => decide (r (form u) (form v))) = fun u v : Uuid => decide (u < v) :=
    funext fun u => funext fun v => decide_eq_decide.mpr (h u v).symm
  intro us
  have hsort :
      UniqueId.sortDistinct (fun u v => decide (r (form u) (form v))) us = sortDistinct us := by
    rw [hcompare]
    rfl
  refine ⟨hsort, ?_⟩
  rw [← hsort, map_sortDistinct form fun x y => decide (r x y)]

/-- **One order.** Identifiers compare as their 128-bit numbers, as their bytes, and as their texts
of either letter case. Of any two distinct ones exactly one comes first, and coming first is
transitive. Hence a list of identifiers has one ascending sequence of its elements, and sorting
finds it, whichever form it compares. -/
theorem orders_agree :
    (∀ u v : Uuid,
      (u < v ↔ u.high.toNat * 2 ^ 64 + u.low.toNat < v.high.toNat * 2 ^ 64 + v.low.toNat) ∧
        (u < v ↔ Precedes u.toBytes v.toBytes) ∧
        ∀ letters, u < v ↔ Precedes (u.toText letters) (v.toText letters)) ∧
      (∀ u v : Uuid,
        u < v ∧ u ≠ v ∧ ¬ v < u ∨ ¬ u < v ∧ u = v ∧ ¬ v < u ∨ ¬ u < v ∧ u ≠ v ∧ v < u) ∧
      (∀ u v w : Uuid, u < v → v < w → u < w) ∧
      (∀ us vs : List Uuid,
        vs = sortDistinct us ↔ vs.Pairwise (· < ·) ∧ ∀ u, u ∈ vs ↔ u ∈ us) ∧
      SortsAlike (· < ·) toNat ∧ SortsAlike Precedes toBytes ∧
        ∀ letters, SortsAlike Precedes (toText letters) := by
  refine ⟨fun u v => ⟨lt_iff_toNat_lt, lt_iff_precedes_toBytes, lt_iff_precedes_toText⟩, ?_,
    fun u v w => IsTrans.trans u v w, fun us vs => eq_sortDistinct_iff,
    sortsAlike fun u v => lt_iff_toNat_lt, sortsAlike fun u v => lt_iff_precedes_toBytes,
    fun letters => sortsAlike fun u v => lt_iff_precedes_toText letters⟩
  intro u v
  rw [lt_iff_toNat_lt, lt_iff_toNat_lt, ne_eq, ← toNat_inj]
  omega

/-- With the top bit set in either word, words still compare as unsigned numbers. -/
theorem orders_agree_of_top_bits :
    let u : Uuid := ⟨0x7FFFFFFFFFFFFFFF, 0x8000000000000000⟩
    let v : Uuid := ⟨0x8000000000000000, 0x7FFFFFFFFFFFFFFF⟩
    let w : Uuid := ⟨0x8000000000000000, 0x8000000000000000⟩
    u < v ∧ v < w ∧ u < w ∧ Precedes (v.toText .upper) (w.toText .upper) := by
  intro u v w
  obtain ⟨hforms, -, htrans, -⟩ := orders_agree
  have huv : u < v := by decide
  have hvw : v < w := by decide
  exact ⟨huv, hvw, htrans u v w huv hvw, ((hforms v w).2.2 .upper).mp hvw⟩

end UniqueId.Uuid
