import UniqueId.Proofs.Stream.Frame
import UniqueId.Proofs.Text.Writing

/-!
# Identifiers on an output stream

Inserting an identifier sets the base, the fill and the widths, and leaves the other flags to the
caller. On every stream its text is that of the five fields, with hyphens between them
(`Format.insertUuid_fst_eq_intercalate`). Where bases are not shown and items are not adjusted to
the left, every field is filled up with zeros in front, and the stream shows the canonical text in
the letter case of its flags (`Format.insertUuid_eq_toText`). A fresh stream is such a stream
(`Format.fresh_insertUuid`).
-/

namespace UniqueId.Stream

/-- A stream on which nothing has been set but the case of letters. -/
def Format.fresh (letters : LetterCase) : Format where
  flags := { uppercase := letters == .upper }

@[simp] theorem Format.letters_fresh (letters : LetterCase) :
    (fresh letters).flags.letters = letters := by
  cases letters <;> rfl

/-- A text stands as it is while no width is pending. -/
theorem Format.text_of_width_eq_zero {f : Format} (t : Bytes) (h : f.width = 0) :
    f.text t = t := by
  rw [text, field_of_width_le (by rw [h]; exact Int.natCast_nonneg _), List.nil_append]

/-- A stream set up for the fields of an identifier: hexadecimal without a mark, and filled up
with zeros in front. -/
structure Format.ZeroFilled (f : Format) : Prop where
  base_eq : f.flags.base = .hexadecimal
  showBase_eq : f.flags.showBase = false
  adjustment_ne : f.flags.adjustment ≠ some .left
  fill_eq : f.fill = 48

/-- A hexadecimal number without a mark is its numeral, with zeros at one side of it up to the
width. -/
theorem Format.number_eq_ite {f : Format} {n : UInt64} {width : Nat}
    (hbase : f.flags.base = .hexadecimal) (hshow : f.flags.showBase = false) (hfill : f.fill = 48)
    (hwidth : f.width = width) :
    let digits := Numeral.numeral f.flags.letters 16 n.toNat
    let zeros := List.replicate (width - digits.length) 48
    f.number n = if f.flags.adjustment = some .left then digits ++ zeros else zeros ++ digits := by
  intro digits zeros
  have hmark : f.flags.mark n = [] := by simp [Flags.mark, hshow]
  have hbody : f.flags.body n = digits := by
    simp [Flags.body, hshow, hbase, Base.radix, digits]
  have hpadding : f.padding digits.length = zeros := by
    rw [padding, hwidth, hfill, Int.toNat_sub]
  rw [number, field, hmark, hbody, List.length_nil, Nat.zero_add, hpadding]
  -- With no mark, filling inside the item and filling in front of it are the same.
  split
  · next hleft => rw [if_pos hleft, List.nil_append]
  · next hinternal => rw [if_neg (by simp [hinternal]), List.nil_append]
  · next hright => rw [if_neg (by simp [hright]), List.append_nil]
  · next hnone => rw [if_neg (by simp [hnone]), List.append_nil]

/-- **One field**: a number filled up with zeros in front is a fixed-width numeral. -/
theorem Format.ZeroFilled.number_eq {f : Format} (hf : f.ZeroFilled) {n : UInt64} {width : Nat}
    (hwidth : f.width = width) (hpos : 0 < width) (hn : n.toNat < 16 ^ width) :
    f.number n = Numeral.fixedHex f.flags.letters width n.toNat := by
  rw [number_eq_ite hf.base_eq hf.showBase_eq hf.fill_eq hwidth, if_neg hf.adjustment_ne,
    Numeral.fixedHex_eq_replicate_append_numeral _ hpos hn]

/-! ### All fields -/

/-- The text of a field, which comes with its own width. -/
def Format.fieldText (f : Format) (p : Nat × UInt64) : Bytes :=
  ({ f with width := p.1 } : Format).number p.2

theorem Format.applyAll_fieldSteps_fst (f : Format) (p : Nat × UInt64) :
    (f.applyAll (fieldSteps p)).1 = f.fieldText p := by
  simp only [fieldSteps, applyAll, apply, fieldText, List.append_nil, List.nil_append]

/-- The texts of the fields stand with hyphens between them. A width pending before is of no
account, since every field comes with its own. -/
theorem Format.applyAll_fields_fst (f : Format) {fields : List (Nat × UInt64)}
    (hne : fields ≠ []) :
    (f.applyAll ([Step.text [Text.hyphen]].intercalate (fields.map fieldSteps))).1 =
      [Text.hyphen].intercalate (fields.map f.fieldText) := by
  induction fields generalizing f with
  | nil => exact absurd rfl hne
  | cons p rest ih =>
    have hfirst := f.applyAll_fieldSteps_fst p
    cases rest with
    | nil => simpa using hfirst
    | cons q rest =>
      have hrest := ih { f with width := 0 } (List.cons_ne_nil q rest)
      have hhyphen := text_of_width_eq_zero (f := { f with width := 0 }) [Text.hyphen] rfl
      have htail : ({ f with width := 0 } : Format).fieldText = f.fieldText := rfl
      rw [htail] at hrest
      simp only [List.map_cons, List.intercalate_cons_cons] at hrest ⊢
      simp only [applyAll_append, hfirst, applyAll_fieldSteps_snd, applyAll, apply, hhyphen, hrest,
        List.append_nil]

/-- An identifier's text, field by field. -/
theorem Format.insertUuid_fst_eq_intercalate (f : Format) (u : Uuid) :
    (f.insertUuid u).1 =
      [Text.hyphen].intercalate (u.textFields.map f.forFields.fieldText) := by
  have hne : u.textFields ≠ [] := List.cons_ne_nil _ _
  rw [insertUuid_fst, applyAll_fields_fst _ hne]

/-- **The canonical text.** A stream that shows no bases and does not adjust to the left shows an
identifier as its canonical text. -/
theorem Format.insertUuid_eq_toText {f : Format} (u : Uuid) (hshow : f.flags.showBase = false)
    (hadjust : f.flags.adjustment ≠ some .left) :
    (f.insertUuid u).1 = u.toText f.flags.letters := by
  rw [insertUuid_fst_eq_intercalate, Uuid.toText]
  congr 1
  refine List.map_congr_left fun p hp => ?_
  have hzero : ({ f.forFields with width := p.1 } : Format).ZeroFilled :=
    ⟨rfl, hshow, hadjust, rfl⟩
  obtain ⟨hpos, hfits⟩ := u.textFields_fit hp
  exact hzero.number_eq rfl hpos hfits

theorem Format.fresh_insertUuid (letters : LetterCase) (u : Uuid) :
    ((fresh letters).insertUuid u).1 = u.toText letters := by
  rw [insertUuid_eq_toText u rfl (by simp [fresh, Flags.adjustment]), letters_fresh]

end UniqueId.Stream
