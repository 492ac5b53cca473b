import UniqueId.Proofs.Region.Window
import UniqueId.Proofs.Text.RoundTrip
import UniqueId.Proofs.Uuid.Kind
import UniqueId.Proofs.Uuid.Nibble
import UniqueId.Time.Timestamp

/-!
# Texts in memory

The 32 digits of a canonical text are the nibbles of the identifier that it is read as
(`getElem?_digits_of_parse_eq_ok`). So what is read from a text and written to memory can be told
from the text without any identifier in between:

* each byte is a pair of digits (`toNat_getElem_toBytes_of_parse_eq_ok`);
* the version is the digit at index 14 of the text (`hexDigit?_getElem_fourteen`), and with it the
  kind is known, except that a zero there also asks whether all digits are zero.
-/

namespace UniqueId

namespace Text

open Numeral (hexDigit? value)

variable {text : Bytes} {u : Uuid}

/-! ### Digits by index -/

/-- Counted without the hyphens, the bytes of a run that fits show its digits one by one. -/
theorem bind_hexDigit?_getElem?_unhyphenated {i : Nat} {bs : Bytes} (h : FitsFrom i bs) (k : Nat) :
    (unhyphenated bs)[k]?.bind hexDigit? = (digits bs)[k]? := by
  have hmap := congrArg (·[k]?) (map_hexDigit?_unhyphenated h)
  simp only [List.getElem?_map] at hmap
  cases hb : (unhyphenated bs)[k]? with
  | none =>
    rw [hb] at hmap
    exact (Option.map_eq_none_iff.mp hmap.symm).symm
  | some b =>
    rw [hb, Option.map_some] at hmap
    obtain ⟨d, hd, hbd⟩ := Option.map_eq_some_iff.mp hmap.symm
    rw [Option.bind_some, hd, hbd]

/-- Counted with the hyphens, the digit shown by a byte comes after those of the places before. -/
theorem getElem?_digits_of_fitsFrom {i : Nat} {bs : Bytes} (h : FitsFrom i bs) {k : Nat}
    (hk : k < bs.length) {d : Nat} (hd : hexDigit? bs[k] = some d) :
    (digits bs)[digitPlaces i k]? = some d := by
  have hsplit : bs = bs.take k ++ bs[k] :: bs.drop (k + 1) := by
    rw [← List.drop_eq_getElem_cons hk, List.take_append_drop]
  have htake : FitsFrom i (bs.take k) := by
    rw [hsplit, fitsFrom_append] at h
    exact h.1
  have hlen : (digits (bs.take k)).length = digitPlaces i k := by
    rw [length_digits_of_fitsFrom htake, List.length_take, Nat.min_eq_left hk.le]
  rw [hsplit, digits_append, List.getElem?_append_right hlen.le, hlen, Nat.sub_self, digits_cons,
    hd]
  rfl

/-- **The digits are the nibbles.** -/
theorem getElem?_digits_of_parse_eq_ok (h : parse text = .ok u) {k : Nat} (hk : k < 32) :
    (digits text)[k]? = some (u.nibble k) := by
  obtain ⟨hcanonical, hvalue⟩ := parse_eq_ok_iff.mp h
  have hlen : (digits text).length = 32 := hcanonical.length_digits
  rw [List.getElem?_eq_getElem (by omega), Numeral.getElem_eq_value_div_mod (by norm_num)
    fun _ => lt_of_mem_digits, hlen, ← hvalue, Uuid.nibble]

/-- Where no hyphen is due, the byte shows the nibble that comes after those of the places before. -/
theorem hexDigit?_getElem_of_parse_eq_ok (h : parse text = .ok u) {i : Nat} (hi : i < text.length)
    (hplace : ¬ isHyphenIndex i) : hexDigit? text[i] = some (u.nibble (digitPlaces 0 i)) := by
  have hcanonical := canonical_of_parse_eq_ok h
  obtain ⟨d, hd⟩ := Numeral.isHexDigit_iff_exists.mp <|
    (admits_of_not_isHyphenIndex hplace _).mp (hcanonical.admits_getElem i hi)
  have hdigit := getElem?_digits_of_fitsFrom hcanonical.fitsFrom hi hd
  have hlt : digitPlaces 0 i < 32 := by
    rw [← hcanonical.length_digits]
    exact (List.getElem?_eq_some_iff.mp hdigit).1
  rw [hd, ← hdigit, getElem?_digits_of_parse_eq_ok h hlt]

/-! ### Pairs of digits are bytes -/

/-- **Pairs of digits are bytes**: the byte at an index is the pair of digits at twice the index. -/
theorem toNat_getElem_toBytes_of_parse_eq_ok (h : parse text = .ok u) {k : Nat}
    (hk : k < u.toBytes.length) :
    ∃ x y, (digits text)[2 * k]? = some x ∧ (digits text)[2 * k + 1]? = some y ∧
      u.toBytes[k].toNat = 16 * x + y := by
  have hsixteen : k < 16 := by rwa [Uuid.length_toBytes] at hk
  have hfirst := u.toBytes_div_eq_nibble hsixteen
  have hsecond := u.toBytes_mod_eq_nibble hsixteen
  rw [List.getElem?_eq_getElem hk, Option.map_some, Option.some.injEq] at hfirst hsecond
  refine ⟨_, _, getElem?_digits_of_parse_eq_ok h (by omega),
    getElem?_digits_of_parse_eq_ok h (by omega), ?_⟩
  rw [← hfirst, ← hsecond, Nat.div_add_mod]

/-! ### The kind, read from the text -/

/-- The version is the digit at index 14. -/
theorem hexDigit?_getElem_fourteen (h : parse text = .ok u) (hlen : 14 < text.length) :
    hexDigit? text[14] = some u.version := by
  have hplaces : digitPlaces 0 14 = 12 := by decide
  rw [hexDigit?_getElem_of_parse_eq_ok h hlen (by decide), hplaces, Uuid.version_eq_nibble]

/-- A digit below ten is a decimal one. -/
theorem hexDigit?_eq_some_iff_of_lt {b : UInt8} {v : Nat} (hv : v < 10) :
    hexDigit? b = some v ↔ b.toNat = 48 + v := by
  rw [Numeral.hexDigit?_eq_some_iff]
  omega

/-- A version below ten is the decimal digit at index 14. -/
theorem version_eq_iff_of_parse_eq_ok (h : parse text = .ok u) (hlen : 14 < text.length) {v : Nat}
    (hv : v < 10) : u.version = v ↔ text[14].toNat = 48 + v := by
  rw [← hexDigit?_eq_some_iff_of_lt hv, hexDigit?_getElem_fourteen h hlen, Option.some.injEq]

/-- The nil identifier is the one whose digits are all `0`. -/
theorem eq_nil_iff_of_parse_eq_ok (h : parse text = .ok u) :
    u = Uuid.nil ↔ ∀ b ∈ unhyphenated text, b = 48 := by
  obtain ⟨hcanonical, hvalue⟩ := parse_eq_ok_iff.mp h
  calc u = Uuid.nil
      ↔ value 16 (digits text) = 0 := by
        rw [← Uuid.toNat_inj, hvalue, show Uuid.nil.toNat = 0 from rfl]
    _ ↔ ∀ d? ∈ (digits text).map some, d? = some 0 := by
        rw [Numeral.value_eq_zero_iff (by norm_num), List.forall_mem_map]
        simp only [Option.some.injEq]
    _ ↔ ∀ b ∈ unhyphenated text, b = 48 := by
        rw [← map_hexDigit?_unhyphenated hcanonical.fitsFrom, List.forall_mem_map]
        simp only [hexDigit?_eq_some_iff_of_lt (show 0 < 10 by norm_num), ← UInt8.toNat_inj]
        rfl

/-- **The kind is read from the text**, off the character at index 14: from `1` to `8` it is the code
of the kind, `0` asks for the other digits as well, and nothing is told otherwise. -/
theorem kind?_of_parse_eq_ok (h : parse text = .ok u) :
    ∃ c, text[14]? = some c ∧
      (∀ v : Nat, 1 ≤ v → v ≤ 8 → c.toNat = 48 + v →
        ∃ kind, u.kind? = some kind ∧ kind.code.toInt = v) ∧
      (c.toNat = 48 → (∀ b ∈ unhyphenated text, b = 48) → u.kind? = some .unknown) ∧
      (c.toNat = 48 → ¬ (∀ b ∈ unhyphenated text, b = 48) → u.kind? = none) ∧
      (c.toNat < 48 ∨ 56 < c.toNat → u.kind? = none) := by
  have hlen : 14 < text.length := by
    rw [(canonical_of_parse_eq_ok h).length_eq]
    decide
  refine ⟨text[14], List.getElem?_eq_getElem hlen, ?_, ?_, ?_, ?_⟩
  · intro v hlo hhi hc
    have hversion : u.version = v := (version_eq_iff_of_parse_eq_ok h hlen (by omega)).mpr hc
    subst hversion
    exact Uuid.exists_kind?_eq_some hlo hhi
  · intro hc hall
    have hversion : u.version = 0 := (version_eq_iff_of_parse_eq_ok h hlen (by norm_num)).mpr hc
    rw [Uuid.kind?_of_version_eq_zero hversion, if_pos ((eq_nil_iff_of_parse_eq_ok h).mpr hall)]
  · intro hc hnotall
    have hversion : u.version = 0 := (version_eq_iff_of_parse_eq_ok h hlen (by norm_num)).mpr hc
    rw [Uuid.kind?_of_version_eq_zero hversion, if_neg (mt (eq_nil_iff_of_parse_eq_ok h).mp hnotall)]
  · intro hc
    refine Uuid.kind?_eq_none (Nat.lt_of_not_le fun hle => ?_)
    have hdigit : text[14].toNat = 48 + u.version :=
      (version_eq_iff_of_parse_eq_ok h hlen (by omega)).mp rfl
    omega

/-! ### End to end -/

/-- Written to memory, the identifier that a text shows is the text's pairs of digits. -/
theorem getElem?_contents_write_of_parse_eq_ok {r : Region} {o : Int64} (h : parse text = .ok u)
    (hb : r.Backed) (ho : r.InReach o) {k : Nat} (hk : k < 16) :
    ∃ x y b, (unhyphenated text)[2 * k]?.bind hexDigit? = some x ∧
      (unhyphenated text)[2 * k + 1]?.bind hexDigit? = some y ∧
      (r.write o u).contents[o.toNatClampNeg + k]? = some b ∧ b.toNat = 16 * x + y := by
  have hfits : FitsFrom 0 text := (canonical_of_parse_eq_ok h).fitsFrom
  have hindex : k < u.toBytes.length := by rwa [Uuid.length_toBytes]
  obtain ⟨x, y, hx, hy, hbyte⟩ := toNat_getElem_toBytes_of_parse_eq_ok h hindex
  refine ⟨x, y, u.toBytes[k], ?_, ?_, ?_, hbyte⟩
  · rw [bind_hexDigit?_getElem?_unhyphenated hfits, hx]
  · rw [bind_hexDigit?_getElem?_unhyphenated hfits, hy]
  · rw [Region.getElem?_contents_write_of_lt ho hb u hk, List.getElem?_eq_getElem hindex]

/-- **Texts in memory.** A text that is read can be written to memory wherever there is room. Each
of the sixteen bytes is then a pair of the text's digits, and nothing else has changed. What is read
back is the identifier, whose lower-case text is the text folded. The character at index 14 tells
the kind: from `1` to `8` it is the kind's code; `0` tells the nil identifier if all digits are `0`;
and nothing is told otherwise. The timestamp read with the kind told always exists, and is the
identifier's own. -/
theorem encode_parse_end_to_end {r : Region} {o : Int64} (h : parse text = .ok u) (hb : r.Backed)
    (ho : r.InReach o) :
    ∃ next, r.encode o u = .ok next ∧
      (∀ k < 16, ∃ x y b, (unhyphenated text)[2 * k]?.bind hexDigit? = some x ∧
        (unhyphenated text)[2 * k + 1]?.bind hexDigit? = some y ∧
        next.contents[o.toNatClampNeg + k]? = some b ∧ b.toNat = 16 * x + y) ∧
      (∀ k, k < o.toNatClampNeg ∨ o.toNatClampNeg + 16 ≤ k →
        next.contents[k]? = r.contents[k]?) ∧
      next.contents.length = r.contents.length ∧ next.length = r.length ∧
      next.decode o = .ok u ∧ u.toText .lower = text.map LetterCase.lower.fold ∧
      (∃ c, text[14]? = some c ∧
        (∀ v : Nat, 1 ≤ v → v ≤ 8 → c.toNat = 48 + v →
          ∃ kind, u.kind? = some kind ∧ kind.code.toInt = v) ∧
        (c.toNat = 48 → (∀ b ∈ unhyphenated text, b = 48) → u.kind? = some .unknown) ∧
        (c.toNat = 48 → ¬ (∀ b ∈ unhyphenated text, b = 48) → u.kind? = none) ∧
        (c.toNat < 48 ∨ 56 < c.toNat → u.kind? = none)) ∧
      ∃ millis, u.timestampWithCode (u.kind?.map Kind.code) = .ok millis ∧
        u.timestamp = .ok millis := by
  refine ⟨r.write o u, Region.encode_of_inReach ho u, ?_, ?_, Region.length_contents_write ho hb u,
    rfl, Region.decode_write_self ho hb u, toText_of_parse_eq_ok .lower h, kind?_of_parse_eq_ok h,
    ?_⟩
  · intro k hk
    exact getElem?_contents_write_of_parse_eq_ok h hb ho hk
  · intro k hk
    exact Region.getElem?_contents_write ho hb u hk
  · exact ⟨u.kind?.elim 0 u.timestampAs, u.timestamp_eq_ok, u.timestamp_eq_ok⟩

/-- A text in both letter cases, written in the middle of twenty-four bytes. -/
theorem encode_parse_end_to_end_of_mixed_case :
    let r := Region.ofBytes (List.replicate 24 0xAB)
    let u : Uuid := ⟨0x017F22E279B07CC3, 0x98C4DC0C0C07398F⟩
    parse (Bytes.ascii "017F22E2-79b0-7cc3-98C4-dc0c0c07398f") = .ok u ∧ r.Backed ∧ r.InReach 5 ∧
      ∃ next, r.encode 5 u = .ok next ∧ next.decode 5 = .ok u ∧
        ∃ kind, u.kind? = some kind ∧ kind.code.toInt = 7 := by
  intro r u
  have hparse : parse (Bytes.ascii "017F22E2-79b0-7cc3-98C4-dc0c0c07398f") = .ok u := by decide
  have hb : r.Backed := Region.backed_ofBytes _
  have ho : r.InReach 5 := ⟨by decide, by decide, by decide⟩
  obtain ⟨next, hencode, -, -, -, -, hdecode, -, ⟨c, hc, hkind, -⟩, -⟩ :=
    encode_parse_end_to_end hparse hb ho
  obtain rfl : 55 = c := Option.some.inj hc
  exact ⟨hparse, hb, ho, next, hencode, hdecode, hkind 7 (by decide) (by decide) rfl⟩

end Text

end UniqueId
