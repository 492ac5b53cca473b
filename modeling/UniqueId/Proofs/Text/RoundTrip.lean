import UniqueId.Proofs.Stream.Identifier
import UniqueId.Proofs.Text.Reading

/-!
# Writing and reading are inverse

A written text is canonical and its digits denote the identifier, so it is read back
(`Uuid.parse_toText`). In the other direction letter case is all that is lost: the text that was
read and the text that is written hold the same digits at the same places, hence are equal once
folded to one case, and a written text is folded already (`toText_of_parse_eq_ok`).
-/

namespace UniqueId

/-- **What is written is read back**, in either case. -/
theorem Uuid.parse_toText (letters : LetterCase) (u : Uuid) :
    Text.parse (u.toText letters) = .ok u :=
  Text.parse_eq_ok_iff.mpr ⟨canonical_toText letters u, (value_digits_toText letters u).symm⟩

theorem Uuid.toText_inj {letters : LetterCase} {u v : Uuid} :
    u.toText letters = v.toText letters ↔ u = v := by
  refine ⟨fun h => ?_, fun h => by rw [h]⟩
  have hparse := parse_toText letters u
  rw [h, parse_toText, Except.ok.injEq] at hparse
  exact hparse.symm

namespace Text

variable {s t : Bytes} {u v : Uuid}

/-- Texts are read as one identifier exactly if they hold the same digits. -/
theorem digits_eq_iff_of_parse_eq_ok (hs : parse s = .ok u) (ht : parse t = .ok v) :
    digits s = digits t ↔ u = v := by
  obtain ⟨hs, hu⟩ := parse_eq_ok_iff.mp hs
  obtain ⟨ht, hv⟩ := parse_eq_ok_iff.mp ht
  rw [← Uuid.toNat_inj, hu, hv]
  exact (Numeral.value_inj (by norm_num) (hs.length_digits.trans ht.length_digits.symm)
    (fun _ => lt_of_mem_digits) fun _ => lt_of_mem_digits).symm

/-- Texts are read as one identifier exactly if they are equal up to letter case. -/
theorem eq_iff_map_fold_eq_of_parse_eq_ok (letters : LetterCase) (hs : parse s = .ok u)
    (ht : parse t = .ok v) : u = v ↔ s.map letters.fold = t.map letters.fold := by
  have hscanonical := canonical_of_parse_eq_ok hs
  have htcanonical := canonical_of_parse_eq_ok ht
  have hlen : s.length = t.length := hscanonical.length_eq.trans htcanonical.length_eq.symm
  rw [← digits_eq_iff_of_parse_eq_ok hs ht,
    digits_eq_iff_map_fold_eq letters hscanonical.fitsFrom htcanonical.fitsFrom hlen]

/-- **What is read is written back** with its letters folded to the case asked for. -/
theorem toText_of_parse_eq_ok (letters : LetterCase) (hs : parse s = .ok u) :
    u.toText letters = s.map letters.fold := by
  rw [← Uuid.map_fold_toText]
  exact (eq_iff_map_fold_eq_of_parse_eq_ok letters (Uuid.parse_toText letters u) hs).mp rfl

/-- **Writing and reading are inverse.** What a fresh stream shows of an identifier is its written
text. Every written text is canonical and is read back; every text that is read is written back up
to the case of its letters; and two texts that are read show one identifier exactly if they are
equal up to the case of their letters. -/
theorem toText_parse_inverse :
    (∀ letters (u : Uuid), ((Stream.Format.fresh letters).insertUuid u).1 = u.toText letters) ∧
    (∀ letters (u : Uuid), isCanonical (u.toText letters) = true ∧
      parse (u.toText letters) = .ok u) ∧
    (∀ text u, parse text = .ok u →
      u.toText .lower = text.map LetterCase.lower.fold ∧
        u.toText .upper = text.map LetterCase.upper.fold) ∧
    ∀ s t u v, parse s = .ok u → parse t = .ok v →
      (parse s = parse t ↔ s.map LetterCase.lower.fold = t.map LetterCase.lower.fold) := by
  refine ⟨Stream.Format.fresh_insertUuid, fun letters u => ⟨?_, Uuid.parse_toText letters u⟩,
    fun text u h => ⟨toText_of_parse_eq_ok .lower h, toText_of_parse_eq_ok .upper h⟩,
    fun s t u v hs ht => ?_⟩
  · exact isCanonical_iff.mpr (Uuid.canonical_toText letters u)
  · rw [← eq_iff_map_fold_eq_of_parse_eq_ok .lower hs ht, hs, ht, Except.ok.injEq]

/-- Two spellings of one identifier, and the spellings it is written in. -/
theorem toText_parse_inverse_of_mixed_case :
    parse (Bytes.ascii "017F22E2-79b0-7cc3-98C4-dc0c0c07398f")
        = .ok ⟨0x017F22E279B07CC3, 0x98C4DC0C0C07398F⟩ ∧
      parse (Bytes.ascii "017f22e2-79B0-7CC3-98c4-DC0C0C07398F")
        = .ok ⟨0x017F22E279B07CC3, 0x98C4DC0C0C07398F⟩ ∧
      (⟨0x017F22E279B07CC3, 0x98C4DC0C0C07398F⟩ : Uuid).toText .upper
        = (Bytes.ascii "017F22E2-79b0-7cc3-98C4-dc0c0c07398f").map LetterCase.upper.fold ∧
      (Bytes.ascii "017F22E2-79b0-7cc3-98C4-dc0c0c07398f").map LetterCase.lower.fold
        = (Bytes.ascii "017f22e2-79B0-7CC3-98c4-DC0C0C07398F").map LetterCase.lower.fold := by
  have hs : parse (Bytes.ascii "017F22E2-79b0-7cc3-98C4-dc0c0c07398f")
      = .ok ⟨0x017F22E279B07CC3, 0x98C4DC0C0C07398F⟩ := by decide
  have ht : parse (Bytes.ascii "017f22e2-79B0-7CC3-98c4-DC0C0C07398F")
      = .ok ⟨0x017F22E279B07CC3, 0x98C4DC0C0C07398F⟩ := by decide
  obtain ⟨-, -, hback, heq⟩ := toText_parse_inverse
  exact ⟨hs, ht, (hback _ _ hs).2, (heq _ _ _ _ hs ht).mp (hs.trans ht.symm)⟩

end Text

end UniqueId
