import UniqueId.Proofs.Stream.Identifier
import UniqueId.Proofs.Text.RoundTrip

/-!
# What streams show of identifiers

Inserting an identifier leaves two groups of flags to the caller that reach its text.

* **Shown bases** mark every field other than zero. A mark is no part of a canonical text, so the
  text is canonical exactly if there is nothing to mark (`Format.canonical_insertUuid_iff`).
* **Adjustment to the left** fills fields up with zeros behind. What is shown is a canonical text,
  but that of the identifier whose fields are moved to the left
  (`Format.exists_insertUuid_eq_toText_of_left`).

Together they say on which streams an identifier is shown by its own text
(`Format.insertUuid_eq_toText_iff`), and what a reader gets back from any stream
(`Format.parse_insertUuid`).
-/

namespace UniqueId.Stream

open Numeral (alignLeft fixedHex isHexDigit)
open Text (Canonical hyphen isCanonical)

/-! ### Shown bases -/

@[simp] theorem Flags.mark_zero (flags : Flags) : flags.mark 0 = [] := by
  simp [mark]

theorem Flags.body_zero (flags : Flags) :
    flags.body 0 = Numeral.numeral flags.letters flags.base.radix 0 := by
  simp [body]

/-- The byte in a mark that tells it from digits. -/
theorem Flags.exists_mem_mark {n : UInt64} (flags : Flags) (hbase : flags.base = .hexadecimal)
    (hshow : flags.showBase = true) (hn : n ≠ 0) :
    ∃ b ∈ flags.mark n, ¬ (b = hyphen ∨ isHexDigit b) := by
  rw [mark, if_pos ⟨hshow, hn, hbase⟩]
  cases flags.uppercase
  · exact ⟨120, by decide, by decide⟩
  · exact ⟨88, by decide, by decide⟩

namespace Format

variable {f : Format} {u : Uuid}

/-- Wherever an item stands in its field, its mark is shown. -/
theorem mark_subset_number (f : Format) (n : UInt64) : f.flags.mark n ⊆ f.number n := by
  intro b hb
  rw [number, field]
  split <;> simp [hb]

/-- A stream that is set not to show bases. -/
def hideBase (f : Format) : Format :=
  { f with flags := { f.flags with showBase := false } }

theorem number_zero_hideBase (f : Format) : f.hideBase.number 0 = f.number 0 := by
  rw [number, number, Flags.mark_zero, Flags.mark_zero, Flags.body_zero, Flags.body_zero]
  rfl

/-- A stream shows no bases if it is not set to, or if all fields are zero. -/
theorem insertUuid_hideBase (h : f.flags.showBase = false ∨ u = Uuid.nil) :
    (f.hideBase.insertUuid u).1 = (f.insertUuid u).1 := by
  rcases h with hshow | rfl
  · have hkept : f.hideBase = f := by rw [hideBase, ← hshow]
    rw [hkept]
  · have hfields : ∀ p ∈ Uuid.nil.textFields, p.2 = 0 := by decide
    rw [insertUuid_fst_eq_intercalate, insertUuid_fst_eq_intercalate]
    congr 1
    refine List.map_congr_left fun p hp => ?_
    rw [fieldText, fieldText, hfields p hp]
    exact number_zero_hideBase { f.forFields with width := p.1 }

/-- What is in a field is in the text. -/
theorem mem_insertUuid {p : Nat × UInt64} {b : UInt8} (hp : p ∈ u.textFields)
    (hb : b ∈ f.forFields.fieldText p) : b ∈ (f.insertUuid u).1 := by
  have htexts : f.forFields.fieldText p ∈ u.textFields.map f.forFields.fieldText :=
    List.mem_map_of_mem hp
  obtain ⟨i, hi, htext⟩ := List.mem_iff_getElem.mp htexts
  rw [insertUuid_fst_eq_intercalate, List.intercalate, List.mem_flatten]
  refine ⟨f.forFields.fieldText p, ?_, hb⟩
  rw [← htext, List.getElem_eq_getElem_intersperse_two_mul]
  exact List.getElem_mem _

/-- **A mark spoils the text**: where bases are shown, a canonical text has no field to mark. -/
theorem eq_nil_of_canonical_insertUuid (hshow : f.flags.showBase = true)
    (h : Canonical (f.insertUuid u).1) : u = Uuid.nil := by
  refine Uuid.eq_nil_of_forall_mem_textFields fun p hp => ?_
  by_contra hne
  obtain ⟨b, hb, hbad⟩ := f.forFields.flags.exists_mem_mark rfl hshow hne
  have hfield : b ∈ f.forFields.fieldText p :=
    mark_subset_number { f.forFields with width := p.1 } p.2 hb
  exact hbad (h.eq_hyphen_or_isHexDigit (mem_insertUuid hp hfield))

/-! ### Adjustment -/

/-- On a stream that does not adjust to the left, an identifier without marks is shown as it is. -/
theorem insertUuid_eq_toText_of_ne_left (h : f.flags.showBase = false ∨ u = Uuid.nil)
    (hadjust : f.flags.adjustment ≠ some .left) :
    (f.insertUuid u).1 = u.toText f.flags.letters := by
  rw [← insertUuid_hideBase h, f.hideBase.insertUuid_eq_toText u rfl hadjust]
  rfl

/-- **One field**: a number filled up with zeros behind is the numeral of the number moved to the
left. -/
theorem number_eq_of_left {n : UInt64} {width : Nat} (hbase : f.flags.base = .hexadecimal)
    (hshow : f.flags.showBase = false) (hleft : f.flags.adjustment = some .left)
    (hfill : f.fill = 48) (hwidth : f.width = width) (hpos : 0 < width)
    (hn : n.toNat < 16 ^ width) :
    f.number n = fixedHex f.flags.letters width (alignLeft width n.toNat) := by
  rw [number_eq_ite hbase hshow hfill hwidth, if_pos hleft,
    Numeral.numeral_append_replicate _ hpos hn]

/-- **All fields**: on a stream that adjusts to the left, an identifier without marks is shown as
the one whose fields are moved to the left. -/
theorem exists_insertUuid_eq_toText_of_left (h : f.flags.showBase = false ∨ u = Uuid.nil)
    (hleft : f.flags.adjustment = some .left) :
    ∃ v : Uuid, (f.insertUuid u).1 = v.toText f.flags.letters ∧
      v.textFields.map (fun (width, field) => (width, field.toNat)) =
        u.textFields.map fun (width, field) => (width, alignLeft width field.toNat) := by
  obtain ⟨v, hv⟩ := u.exists_textFields_eq fun _ _ => Numeral.alignLeft_lt
  refine ⟨v, ?_, hv⟩
  have hnumerals := congrArg
    (List.map fun (width, field) => fixedHex f.flags.letters width field) hv
  rw [List.map_map, List.map_map] at hnumerals
  rw [← insertUuid_hideBase h, insertUuid_fst_eq_intercalate, Uuid.toText]
  congr 1
  refine Eq.trans (List.map_congr_left fun p hp => ?_) hnumerals.symm
  obtain ⟨hpos, hfits⟩ := u.textFields_fit hp
  exact number_eq_of_left (f := { f.hideBase.forFields with width := p.1 }) rfl rfl hleft rfl rfl
    hpos hfits

/-- Fields moved to the left are the fields of the same identifier if each is zero or fills its
places. -/
theorem eq_iff_of_textFields_eq {v : Uuid}
    (hv : v.textFields.map (fun (width, field) => (width, field.toNat)) =
      u.textFields.map fun (width, field) => (width, alignLeft width field.toNat)) :
    v = u ↔ ∀ p ∈ u.textFields, p.2 = 0 ∨ p.2.toNat / 16 ^ (p.1 - 1) ≠ 0 := by
  rw [← Uuid.textFields_map_toNat_inj, hv, List.map_inj_left]
  refine forall₂_congr fun p hp => ?_
  have hzero : p.2 = 0 ↔ p.2.toNat = 0 := UInt64.toNat_inj.symm
  rw [Prod.mk.injEq, eq_self_iff_true, true_and,
    Numeral.alignLeft_eq_self_iff (u.textFields_fit hp).1, hzero]

/-- **Without marks**, some identifier is shown. It is the one inserted, unless fields are adjusted to
the left and one of them moves. -/
theorem exists_insertUuid_eq_toText (h : f.flags.showBase = false ∨ u = Uuid.nil) :
    ∃ v : Uuid, (f.insertUuid u).1 = v.toText f.flags.letters ∧
      (v = u ↔ f.flags.adjustment ≠ some .left ∨
        ∀ p ∈ u.textFields, p.2 = 0 ∨ p.2.toNat / 16 ^ (p.1 - 1) ≠ 0) := by
  by_cases hleft : f.flags.adjustment = some .left
  · obtain ⟨v, htext, hv⟩ := exists_insertUuid_eq_toText_of_left h hleft
    rw [or_iff_right (not_not.mpr hleft)]
    exact ⟨v, htext, eq_iff_of_textFields_eq hv⟩
  · exact ⟨u, insertUuid_eq_toText_of_ne_left h hleft, iff_of_true rfl (.inl hleft)⟩

/-- **Canonical texts** are shown by the streams that have no field to mark. -/
theorem canonical_insertUuid_iff (f : Format) (u : Uuid) :
    Canonical (f.insertUuid u).1 ↔ f.flags.showBase = false ∨ u = Uuid.nil := by
  constructor
  · intro h
    cases hshow : f.flags.showBase with
    | false => exact .inl rfl
    | true => exact .inr (eq_nil_of_canonical_insertUuid hshow h)
  · intro h
    obtain ⟨v, htext, -⟩ := exists_insertUuid_eq_toText h
    rw [htext]
    exact Uuid.canonical_toText _ v

/-! ### Together -/

/-- **Which streams show the canonical text of an identifier**: those on which no field is marked,
and where fields are adjusted to the left, every field is zero or fills its places. -/
theorem insertUuid_eq_toText_iff (f : Format) (u : Uuid) :
    (f.insertUuid u).1 = u.toText f.flags.letters ↔
      (f.flags.showBase = false ∨ u = Uuid.nil) ∧
        (f.flags.adjustment ≠ some .left ∨
          ∀ p ∈ u.textFields, p.2 = 0 ∨ p.2.toNat / 16 ^ (p.1 - 1) ≠ 0) := by
  constructor
  · intro h
    have hcanonical : Canonical (f.insertUuid u).1 := by
      rw [h]
      exact Uuid.canonical_toText _ u
    have hmarks := (canonical_insertUuid_iff f u).mp hcanonical
    obtain ⟨v, htext, hv⟩ := exists_insertUuid_eq_toText hmarks
    exact ⟨hmarks, hv.mp (Uuid.toText_inj.mp (htext.symm.trans h))⟩
  · rintro ⟨hmarks, hfields⟩
    obtain ⟨v, htext, hv⟩ := exists_insertUuid_eq_toText hmarks
    rw [htext, hv.mpr hfields]

/-- Adjusted to the left, and nevertheless the canonical text: every field fills its places. -/
theorem insertUuid_eq_toText_iff_of_max :
    let left : Format := { flags := { left := true } }
    (left.flags.showBase = false ∧ ∀ p ∈ Uuid.max.textFields, p.2.toNat / 16 ^ (p.1 - 1) ≠ 0) ∧
      (left.insertUuid Uuid.max).1 = Uuid.max.toText .lower := by
  intro left
  have hfills : ∀ p ∈ Uuid.max.textFields, p.2.toNat / 16 ^ (p.1 - 1) ≠ 0 := by decide
  exact ⟨⟨rfl, hfills⟩, (insertUuid_eq_toText_iff left Uuid.max).mpr
    ⟨.inl rfl, .inr fun p hp => .inr (hfills p hp)⟩⟩

/-- With bases shown the marks stand among the digits, and adjusted to the left the digits are
followed by zeros. -/
theorem insertUuid_ne_toText_of_inherited_flags :
    let u : Uuid := ⟨0x0000000100020003, 0x0004000000000005⟩
    let marked : Format := { flags := { showBase := true } }
    let left : Format := { flags := { left := true } }
    u.toText .lower = Bytes.ascii "00000001-0002-0003-0004-000000000005" ∧
      (marked.insertUuid u).1 = Bytes.ascii "000000x1-00x2-00x3-00x4-0000000000x5" ∧
      (left.insertUuid u).1 = Bytes.ascii "10000000-2000-3000-4000-500000000000" ∧
      (marked.insertUuid u).1 ≠ u.toText marked.flags.letters ∧
      (left.insertUuid u).1 ≠ u.toText left.flags.letters := by
  decide

/-- **What a reader gets back** from a stream. The text of an identifier is canonical if no field is
marked. It is then read as the identifier itself where fields are not adjusted to the left; where
they are, as the one each of whose fields is multiplied by sixteen as often as it has fewer digits
than places. That is the identifier itself if every field is zero or fills its places. -/
theorem parse_insertUuid (f : Format) (u : Uuid) :
    (isCanonical (f.insertUuid u).1 = true ↔ f.flags.showBase = false ∨ u = Uuid.nil) ∧
    (isCanonical (f.insertUuid u).1 = true → f.flags.adjustment ≠ some .left →
      Text.parse (f.insertUuid u).1 = .ok u) ∧
    (isCanonical (f.insertUuid u).1 = true → f.flags.adjustment = some .left →
      ∃ v, Text.parse (f.insertUuid u).1 = .ok v ∧
        v.textFields.map (fun (width, field) => (width, field.toNat)) =
          u.textFields.map (fun (width, field) =>
            (width, field.toNat * 16 ^ (width - (Nat.digits 16 field.toNat).length))) ∧
        (v = u ↔ ∀ p ∈ u.textFields, p.2 = 0 ∨ p.2.toNat / 16 ^ (p.1 - 1) ≠ 0)) := by
  have hcanonical : isCanonical (f.insertUuid u).1 = true ↔
      f.flags.showBase = false ∨ u = Uuid.nil :=
    Text.isCanonical_iff.trans (canonical_insertUuid_iff f u)
  refine ⟨hcanonical, fun h hadjust => ?_, fun h hleft => ?_⟩
  · rw [insertUuid_eq_toText_of_ne_left (hcanonical.mp h) hadjust]
    exact Uuid.parse_toText _ u
  · obtain ⟨v, htext, hv⟩ := exists_insertUuid_eq_toText_of_left (hcanonical.mp h) hleft
    refine ⟨v, ?_, hv, eq_iff_of_textFields_eq hv⟩
    rw [htext]
    exact Uuid.parse_toText _ v

/-- Fill inside the item and capital letters do no harm; adjusted to the left, all fields but the
one that fills its places are read as other numbers. -/
theorem parse_insertUuid_of_adjusted :
    let u : Uuid := ⟨0x0000000100020003, 0x800400000000ABCD⟩
    let inside : Format := { flags := { internal := true, uppercase := true } }
    let left : Format := { flags := { left := true } }
    (isCanonical (inside.insertUuid u).1 = true ∧ inside.flags.adjustment ≠ some .left ∧
      Text.parse (inside.insertUuid u).1 = .ok u) ∧
    isCanonical (left.insertUuid u).1 = true ∧ left.flags.adjustment = some .left ∧
      ∃ v, Text.parse (left.insertUuid u).1 = .ok v ∧
        v.textFields.map (fun (width, field) => (width, field.toNat)) =
          [(8, 0x10000000), (4, 0x2000), (4, 0x3000), (4, 0x8004), (12, 0xABCD00000000)] ∧
        v ≠ u := by
  intro u inside left
  obtain ⟨hinside, hsame, -⟩ := parse_insertUuid inside u
  obtain ⟨hleft, -, hmoved⟩ := parse_insertUuid left u
  have hcanonical := hinside.mpr (.inl rfl)
  have hcanonicalLeft := hleft.mpr (.inl rfl)
  have hadjust : inside.flags.adjustment ≠ some .left := by decide
  obtain ⟨v, hparse, hfields, heq⟩ := hmoved hcanonicalLeft rfl
  refine ⟨⟨hcanonical, hadjust, hsame hcanonical hadjust⟩, hcanonicalLeft, rfl, v, hparse, ?_, ?_⟩
  · rw [hfields]
    simp [u, Uuid.textFields]
  · rw [Ne, heq]
    decide

end Format

end UniqueId.Stream
