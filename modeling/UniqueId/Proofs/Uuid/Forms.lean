import UniqueId.Proofs.Text.InMemory
import UniqueId.Proofs.Uuid.Stamp

/-!
# The fields in every form

The place of the version is said four times: by a mask, by a shift, by the offset of a byte, and by
the widths of the fields that the text is written in. So is the place of the variant. All of them
are one place, because every character of the text shows one nibble of the identifier
(`getElem?_toText`), and every byte is two:

* the version is the character at index 14, and the high nibble of the byte at 6;
* the variant is the upper half of the character at index 19, and the top of the byte at 8.

So a stamp, which leaves all nibbles but two alone (`nibble_stamp_of_ne`), is seen at two places of
every form and nowhere else: `stamp_is_local`.
-/

namespace UniqueId.Uuid

open Numeral (hexDigit? digitByte)
open Text (hyphen isHyphenIndex digitPlaces)

variable {i : Nat}

/-! ### Characters -/

/-- **A character is a nibble**, or a hyphen where one is due. -/
theorem getElem?_toText (letters : LetterCase) (u : Uuid) (hi : i < Text.canonicalLength) :
    (u.toText letters)[i]? =
      some (if isHyphenIndex i then hyphen
        else digitByte letters (u.nibble (digitPlaces 0 i))) := by
  have hlen : i < (u.toText letters).length := by rwa [length_toText]
  rw [List.getElem?_eq_getElem hlen, Option.some.injEq]
  split
  · next hplace =>
    exact (Text.admits_of_isHyphenIndex hplace _).mp
      ((canonical_toText letters u).admits_getElem i hlen)
  · next hplace =>
    have hdigit := Text.hexDigit?_getElem_of_parse_eq_ok (parse_toText letters u) hlen hplace
    -- what is written is folded to its case already
    have hfold := List.getElem_of_eq (map_fold_toText letters u).symm hlen
    rw [List.getElem_map] at hfold
    rw [Numeral.digitByte_of_hexDigit? letters hdigit, ← hfold]

theorem getElem?_toText_of_digitPlaces (letters : LetterCase) (u : Uuid) {k : Nat}
    (hi : i < Text.canonicalLength) (hplace : ¬ isHyphenIndex i) (hk : digitPlaces 0 i = k) :
    (u.toText letters)[i]? = some (digitByte letters (u.nibble k)) := by
  rw [getElem?_toText letters u hi, if_neg hplace, hk]

/-- The character that shows the version. -/
theorem getElem?_toText_fourteen (letters : LetterCase) (u : Uuid) :
    (u.toText letters)[14]? = some (digitByte letters u.version) := by
  rw [version_eq_nibble]
  exact getElem?_toText_of_digitPlaces letters u (by decide) (by decide) (by decide)

/-- The character that shows the variant. -/
theorem getElem?_toText_nineteen (letters : LetterCase) (u : Uuid) :
    (u.toText letters)[19]? = some (digitByte letters (u.nibble 16)) :=
  getElem?_toText_of_digitPlaces letters u (by decide) (by decide) (by decide)

theorem bind_hexDigit?_getElem?_toText_fourteen (letters : LetterCase) (u : Uuid) :
    (u.toText letters)[14]?.bind hexDigit? = some u.version := by
  rw [getElem?_toText_fourteen, Option.bind_some, Numeral.hexDigit?_digitByte letters u.version_lt]

theorem bind_hexDigit?_getElem?_toText_nineteen (letters : LetterCase) (u : Uuid) :
    (u.toText letters)[19]?.bind hexDigit? = some (u.nibble 16) := by
  rw [getElem?_toText_nineteen, Option.bind_some,
    Numeral.hexDigit?_digitByte letters (u.nibble_lt 16)]

/-! ### Stamped characters -/

/-- Nowhere else does the text show either of the two nibbles. -/
private theorem digitPlaces_of_not_isHyphenIndex :
    ∀ i < Text.canonicalLength, ¬ isHyphenIndex i → digitPlaces 0 i < 32 ∧
      (digitPlaces 0 i = 12 → i = 14) ∧ (digitPlaces 0 i = 16 → i = 19) := by
  decide

/-- Only the characters of the version and of the variant are stamped. -/
theorem getElem?_toText_stamp_of_ne (letters : LetterCase) (version : Fin 16) (u : Uuid)
    (hversion : i ≠ 14) (hvariant : i ≠ 19) :
    ((u.stamp version).toText letters)[i]? = (u.toText letters)[i]? := by
  obtain hi | hi := Nat.lt_or_ge i Text.canonicalLength
  · rw [getElem?_toText letters _ hi, getElem?_toText letters _ hi]
    split
    · rfl
    · next hplace =>
      obtain ⟨hlt, htwelve, hsixteen⟩ := digitPlaces_of_not_isHyphenIndex i hi hplace
      rw [nibble_stamp_of_ne version u hlt (mt htwelve hversion) (mt hsixteen hvariant)]
  · rw [List.getElem?_eq_none (by rwa [length_toText]),
      List.getElem?_eq_none (by rwa [length_toText])]

/-- The stamped character of the variant shows from eight to eleven, and what it showed before up to
a multiple of four. -/
theorem exists_getElem?_toText_stamp_nineteen (letters : LetterCase) (version : Fin 16)
    (u : Uuid) :
    ∃ b ∈ (Bytes.ascii "89ab").map letters.fold, ∃ x y,
      ((u.stamp version).toText letters)[19]? = some b ∧ hexDigit? b = some y ∧
        (u.toText letters)[19]?.bind hexDigit? = some x ∧ y % 4 = x % 4 := by
  have hfour : ∀ d < 4, digitByte letters (8 + d) ∈ (Bytes.ascii "89ab").map letters.fold := by
    cases letters <;> decide
  have hlt : u.nibble 16 % 4 < 4 := Nat.mod_lt _ (by decide)
  refine ⟨_, hfour _ hlt, u.nibble 16, 8 + u.nibble 16 % 4, ?_,
    Numeral.hexDigit?_digitByte letters (by omega),
    bind_hexDigit?_getElem?_toText_nineteen letters u, by omega⟩
  rw [getElem?_toText_nineteen, nibble_stamp_variant]

/-! ### Every form at once -/

/-- **A stamp is local in every form.** Whatever code from zero to fifteen an identifier is stamped
with, its text in either case changes at the indexes 14 and 19 only: the former shows the code, the
latter one of `8`, `9`, `a` and `b`, the same as before up to a multiple of four. Its bytes change
at 6 and 8 only. In any identifier the version is at once the character at 14 and the high nibble
of its byte, and the variant is at once the upper half of the character at 19 and the top of its
byte. -/
theorem stamp_is_local (u : Uuid) :
    (∀ code : Int32, 0 ≤ code.toInt → code.toInt ≤ 15 →
      ∃ r, u.stampWithCode code = .ok r ∧
        (∀ letters i, i ≠ 14 → i ≠ 19 → (r.toText letters)[i]? = (u.toText letters)[i]?) ∧
        (∀ letters, (r.toText letters)[14]? = some (digitByte letters code.toInt.toNat)) ∧
        (∀ letters : LetterCase, ∃ b ∈ (Bytes.ascii "89ab").map letters.fold, ∃ x y,
          (r.toText letters)[19]? = some b ∧ hexDigit? b = some y ∧
            (u.toText letters)[19]?.bind hexDigit? = some x ∧ y % 4 = x % 4) ∧
        ∀ i, i ≠ 6 → i ≠ 8 → r.toBytes[i]? = u.toBytes[i]?) ∧
    (∀ letters, (u.toText letters)[14]?.bind hexDigit? = some u.version ∧
      ((u.toText letters)[19]?.bind hexDigit?).map (· / 4) = some u.variant) ∧
    u.toBytes[versionOffset]?.map (fun b => b.toNat / 16) = some u.version ∧
    u.toBytes[variantOffset]?.map (fun b => b.toNat / 64) = some u.variant := by
  refine ⟨fun code hlo hhi => ?_, fun letters => ⟨?_, ?_⟩, toBytes_versionOffset u,
    toBytes_variantOffset u⟩
  · obtain ⟨version, hcode⟩ := exists_version_eq hlo hhi
    refine ⟨u.stamp version, stampWithCode_eq_ok hcode u, fun letters i => ?_, fun letters => ?_,
      fun letters => exists_getElem?_toText_stamp_nineteen letters version u, fun i => ?_⟩
    · exact getElem?_toText_stamp_of_ne letters version u
    · rw [getElem?_toText_fourteen, version_stamp, hcode, Int.toNat_natCast]
    · exact getElem?_toBytes_stamp_of_ne version u
  · exact bind_hexDigit?_getElem?_toText_fourteen letters u
  · rw [bind_hexDigit?_getElem?_toText_nineteen, Option.map_some, variant_eq_nibble]

/-- Ones in every bit, stamped with a code that no kind has: in upper case, the characters at 14
and 19 become `B`; next to them nothing changes. -/
theorem stamp_is_local_of_foreign_code :
    let u := Uuid.max
    (0 ≤ (11 : Int32).toInt ∧ (11 : Int32).toInt ≤ 15) ∧
      ∃ r, u.stampWithCode 11 = .ok r ∧ (r.toText .upper)[14]? = some 66 ∧
        (r.toText .upper)[15]? = some 70 ∧ r.toBytes[7]? = some 0xFF ∧ r.version = 11 := by
  intro u
  have hfits : 0 ≤ (11 : Int32).toInt ∧ (11 : Int32).toInt ≤ 15 := by decide
  obtain ⟨r, hr, htext, hversion, -, hbytes⟩ := (stamp_is_local u).1 11 hfits.1 hfits.2
  have hcharacter := htext .upper 15 (by decide) (by decide)
  have hbyte := hbytes 7 (by decide) (by decide)
  obtain ⟨htold, -⟩ := (stamp_is_local r).2.1 .upper
  refine ⟨hfits, r, hr, hversion .upper, hcharacter.trans (by decide), hbyte.trans (by decide), ?_⟩
  rw [hversion .upper] at htold
  exact (Option.some.inj htold).symm

end UniqueId.Uuid
