import UniqueId.Proofs.Text.Canonical
import UniqueId.Text.Printer

/-!
# The digits of a written text

The five fields of the text form are cut from the two words by shifts and masks. As numbers they
are quotients and remainders (`textFields_map_toNat`), and put side by side they are all 128 bits:
an identifier is known by its fields (`textFields_map_toNat_inj`), the digits of a written text
denote it (`value_digits_toText`), and they stand where the canonical form wants them
(`canonical_toText`).
-/

namespace UniqueId.Uuid

open Numeral (isHexDigit value fixedHex)
open Text (hyphen digits FitsFrom Canonical)

/-- The fields of the text form as numbers. -/
theorem textFields_map_toNat (u : Uuid) :
    u.textFields.map (fun (width, field) => (width, field.toNat)) =
      [(8, u.high.toNat / 2 ^ 32), (4, u.high.toNat / 2 ^ 16 % 2 ^ 16), (4, u.high.toNat % 2 ^ 16),
        (4, u.low.toNat / 2 ^ 48), (12, u.low.toNat % 2 ^ 48)] := by
  have hmask16 : (0xFFFF : UInt64).toNat = 2 ^ 16 - 1 := rfl
  have hmask48 : (0xFFFFFFFFFFFF : UInt64).toNat = 2 ^ 48 - 1 := rfl
  simp only [textFields, List.map_cons, List.map_nil, UInt64.toNat_shiftRight, UInt64.toNat_and,
    hmask16, hmask48, Nat.and_two_pow_sub_one_eq_mod, Nat.shiftRight_eq_div_pow]
  rfl

/-- Each field fits the number of digits it is written with. -/
theorem textFields_fit (u : Uuid) {p : Nat × UInt64} (hp : p ∈ u.textFields) :
    0 < p.1 ∧ p.2.toNat < 16 ^ p.1 := by
  have hhigh : u.high.toNat < 2 ^ 64 := u.high.toNat_lt
  have hlow : u.low.toNat < 2 ^ 64 := u.low.toNat_lt
  have hmem : (p.1, p.2.toNat) ∈ u.textFields.map fun (width, field) => (width, field.toNat) :=
    List.mem_map_of_mem hp
  rw [textFields_map_toNat] at hmem
  simp only [List.mem_cons, List.not_mem_nil, or_false, Prod.mk.injEq] at hmem
  obtain ⟨hwidth, hfield⟩ | ⟨hwidth, hfield⟩ | ⟨hwidth, hfield⟩ | ⟨hwidth, hfield⟩ |
    ⟨hwidth, hfield⟩ := hmem <;> rw [hwidth, hfield] <;> omega

/-- An identifier is known by its fields. -/
theorem textFields_map_toNat_inj {u v : Uuid} :
    u.textFields.map (fun (width, field) => (width, field.toNat)) =
      v.textFields.map (fun (width, field) => (width, field.toNat)) ↔ u = v := by
  refine ⟨fun h => ?_, fun h => by rw [h]⟩
  rw [textFields_map_toNat, textFields_map_toNat] at h
  simp only [List.cons.injEq, Prod.mk.injEq, true_and, and_true] at h
  have hhigh : u.high.toNat = v.high.toNat := by omega
  have hlow : u.low.toNat = v.low.toNat := by omega
  exact Uuid.ext (UInt64.toNat_inj.mp hhigh) (UInt64.toNat_inj.mp hlow)

theorem eq_nil_of_forall_mem_textFields {u : Uuid} (h : ∀ p ∈ u.textFields, p.2 = 0) :
    u = nil := by
  have hzero : u.textFields.map (fun (width, field) => (width, field.toNat)) =
      u.textFields.map fun (width, _) => (width, 0) :=
    List.map_congr_left fun p hp => Prod.ext rfl (congrArg UInt64.toNat (h p hp))
  exact textFields_map_toNat_inj.mp hzero

/-- Whatever the fields are moved to, if it fits, are the fields of an identifier. -/
theorem exists_textFields_eq {move : Nat → Nat → Nat}
    (hmove : ∀ width n, n < 16 ^ width → move width n < 16 ^ width) (u : Uuid) :
    ∃ v : Uuid, v.textFields.map (fun (width, field) => (width, field.toNat)) =
      u.textFields.map fun (width, field) => (width, move width field.toNat) := by
  have hhigh : u.high.toNat < 2 ^ 64 := u.high.toNat_lt
  have hlow : u.low.toNat < 2 ^ 64 := u.low.toNat_lt
  have hmap : u.textFields.map (fun (width, field) => (width, move width field.toNat)) =
      (u.textFields.map fun (width, field) => (width, field.toNat)).map
        fun (width, field) => (width, move width field) := by
    rw [List.map_map]
    rfl
  have h₁ := hmove 8 (u.high.toNat / 2 ^ 32) (by omega)
  have h₂ := hmove 4 (u.high.toNat / 2 ^ 16 % 2 ^ 16) (by omega)
  have h₃ := hmove 4 (u.high.toNat % 2 ^ 16) (by omega)
  have h₄ := hmove 4 (u.low.toNat / 2 ^ 48) (by omega)
  have h₅ := hmove 12 (u.low.toNat % 2 ^ 48) (by omega)
  rw [hmap, textFields_map_toNat]
  simp only [List.map_cons, List.map_nil]
  generalize move 8 _ = a, move 4 (u.high.toNat / 2 ^ 16 % 2 ^ 16) = b,
    move 4 (u.high.toNat % 2 ^ 16) = c, move 4 (u.low.toNat / 2 ^ 48) = d, move 12 _ = e at *
  refine ⟨⟨UInt64.ofNat (a * 2 ^ 32 + b * 2 ^ 16 + c), UInt64.ofNat (d * 2 ^ 48 + e)⟩, ?_⟩
  rw [textFields_map_toNat]
  simp only [UInt64.toNat_ofNat', List.cons.injEq, Prod.mk.injEq, true_and, and_true]
  omega

/-- A written text, field by field. -/
theorem toText_eq (letters : LetterCase) (u : Uuid) :
    u.toText letters = fixedHex letters 8 (u.high.toNat / 2 ^ 32) ++ hyphen ::
      (fixedHex letters 4 (u.high.toNat / 2 ^ 16 % 2 ^ 16) ++ hyphen ::
      (fixedHex letters 4 (u.high.toNat % 2 ^ 16) ++ hyphen ::
      (fixedHex letters 4 (u.low.toNat / 2 ^ 48) ++ hyphen ::
      fixedHex letters 12 (u.low.toNat % 2 ^ 48)))) := by
  have hmap : u.textFields.map (fun (width, field) => fixedHex letters width field.toNat) =
      (u.textFields.map fun (width, field) => (width, field.toNat)).map
        fun (width, field) => fixedHex letters width field := by
    rw [List.map_map]
    rfl
  rw [toText, hmap, textFields_map_toNat]
  simp [List.intercalate, List.intersperse]

theorem isHexDigit_of_mem_fixedHex {letters : LetterCase} {width n : Nat} {b : UInt8}
    (h : b ∈ fixedHex letters width n) : isHexDigit b := by
  obtain ⟨d, hd, rfl⟩ := Numeral.exists_of_mem_fixedHex h
  exact Numeral.isHexDigit_digitByte letters hd

theorem canonical_toText (letters : LetterCase) (u : Uuid) : Canonical (u.toText letters) := by
  have hfield : ∀ i width n, (∀ k < width, ¬ Text.isHyphenIndex (i + k)) →
      FitsFrom i (fixedHex letters width n) := fun i width n hplaces =>
    Text.fitsFrom_of_forall_isHexDigit (by rwa [Numeral.length_fixedHex])
      fun b hb => isHexDigit_of_mem_fixedHex hb
  refine Text.canonical_iff_fitsFrom.mpr ⟨length_toText letters u, ?_⟩
  rw [toText_eq]
  simp only [Text.fitsFrom_append, FitsFrom, Numeral.length_fixedHex]
  exact ⟨hfield _ _ _ (by decide), by decide, hfield _ _ _ (by decide), by decide,
    hfield _ _ _ (by decide), by decide, hfield _ _ _ (by decide), by decide,
    hfield _ _ _ (by decide)⟩

/-- The digits of a written text denote the identifier: the five fields are its 128 bits. -/
theorem value_digits_toText (letters : LetterCase) (u : Uuid) :
    value 16 (digits (u.toText letters)) = u.toNat := by
  have hhigh : u.high.toNat < 2 ^ 64 := u.high.toNat_lt
  have hlow : u.low.toNat < 2 ^ 64 := u.low.toNat_lt
  have hhyphen : ∀ bs, digits (hyphen :: bs) = digits bs := fun bs => by simp [Text.digits_cons]
  have hvalue : ∀ width n, value 16 (digits (fixedHex letters width n)) = n % 16 ^ width :=
    Numeral.value_fixedHex letters
  have hlength : ∀ width n, (digits (fixedHex letters width n)).length = width :=
    Numeral.length_filterMap_fixedHex letters
  rw [toText_eq]
  simp only [Text.digits_append, hhyphen, Numeral.value_append, List.length_append, hvalue,
    hlength, toNat]
  omega

/-- A written text is folded to its case already: its digits are, and hyphens have no case. -/
theorem map_fold_toText (letters : LetterCase) (u : Uuid) :
    (u.toText letters).map letters.fold = u.toText letters := by
  have hfield : ∀ width n, (fixedHex letters width n).map letters.fold =
      fixedHex letters width n := by
    intro width n
    refine (List.map_congr_left fun b hb => ?_).trans (List.map_id _)
    obtain ⟨d, hd, rfl⟩ := Numeral.exists_of_mem_fixedHex hb
    exact Numeral.fold_digitByte letters hd
  have hhyphen : letters.fold hyphen = hyphen := by cases letters <;> rfl
  rw [toText_eq]
  simp only [List.map_append, List.map_cons, hfield, hhyphen]

end UniqueId.Uuid
