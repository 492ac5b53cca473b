import UniqueId.Proofs.Text.Canonical
import UniqueId.Text.Reader

/-!
# What the reader accepts, and what it reads

The reader walks over a text with an index and a half-built identifier. One induction along the
walk (`readCharacters_eq_ok_iff`) says everything about a walk that succeeds: the bytes passed fit
from the index on, and the identifier built is the one begun with, the digits passed pushed into
it. At index zero, over the whole text, that is the canonical form and the number it denotes
(`parse_eq_ok_iff`).
-/

namespace UniqueId.Text

open Numeral (hexDigit? isHexDigit value)

/-! ### One character -/

/-- A character that is let pass contributes the digit it shows, if it shows one. -/
theorem eq_hexDigit?_of_readCharacter_eq_ok {i : Nat} {b : UInt8} {digit? : Option Nat}
    (h : readCharacter i b = .ok digit?) : digit? = hexDigit? b := by
  rw [readCharacter] at h
  split at h
  · split at h
    · next hb =>
      rw [hb, hexDigit?_hyphen]
      exact (Except.ok.inj h).symm
    · contradiction
  · split at h
    · contradiction
    · split at h
      · next digit hdigit =>
        rw [hdigit]
        exact (Except.ok.inj h).symm
      · contradiction

theorem admits_of_readCharacter_eq_ok {i : Nat} {b : UInt8} {digit? : Option Nat}
    (h : readCharacter i b = .ok digit?) : admits i b := by
  rw [← readCharacter_isOk, h]
  rfl

theorem not_admits_of_readCharacter_eq_error {i : Nat} {b : UInt8} {kind : CharacterFault}
    (h : readCharacter i b = .error kind) : ¬ admits i b := by
  rw [← readCharacter_isOk, h]
  exact Bool.false_ne_true

/-! ### The walk -/

/-- **The walk.** It succeeds on the runs that fit from its index, and pushes their digits. -/
theorem readCharacters_eq_ok_iff {i : Nat} {read u : Uuid} {bs : Bytes} :
    readCharacters i read bs = .ok u ↔ FitsFrom i bs ∧ u = (digits bs).foldl Uuid.push read := by
  induction bs generalizing i read with
  | nil =>
    rw [readCharacters, Except.ok.injEq]
    exact ⟨fun h => ⟨trivial, h.symm⟩, fun h => h.2.symm⟩
  | cons b rest ih =>
    rw [readCharacters, FitsFrom, digits_cons, List.foldl_append]
    cases hchar : readCharacter i b with
    | error kind =>
      exact iff_of_false (by simp) fun h => not_admits_of_readCharacter_eq_error hchar h.1.1
    | ok digit? =>
      have hadmits := admits_of_readCharacter_eq_ok hchar
      rw [← eq_hexDigit?_of_readCharacter_eq_ok hchar]
      cases digit? with
      | none => simpa [hadmits] using ih
      | some digit => simpa [hadmits] using ih

/-- Digits pushed into the nil identifier are its number, as long as there is room for them. -/
theorem toNat_foldl_push_nil {bs : Bytes} (h : value 16 (digits bs) < 2 ^ 128) :
    ((digits bs).foldl Uuid.push Uuid.nil).toNat = value 16 (digits bs) := by
  have hpush := Numeral.foldl_push Uuid.push Uuid.toNat id Uuid.nil (digits bs) (Uuid.toNat_lt _)
    fun u d hd => u.toNat_push (lt_of_mem_digits hd)
  rw [hpush, List.map_id, show Uuid.nil.toNat = 0 from rfl, Nat.zero_mul, Nat.zero_add,
    Nat.mod_eq_of_lt h]

theorem parse_eq_ok_of_canonical {text : Bytes} (h : Canonical text) :
    parse text = .ok ((digits text).foldl Uuid.push Uuid.nil) := by
  have hlen : text.length = canonicalLength := h.length_eq
  rw [parse, List.take_of_length_le hlen.le, readCharacters_eq_ok_iff.mpr ⟨h.fitsFrom, rfl⟩]
  exact if_pos hlen

theorem canonical_of_parse_eq_ok {text : Bytes} {u : Uuid} (h : parse text = .ok u) :
    Canonical text := by
  rw [parse] at h
  split at h
  · contradiction
  · next read hread =>
    split at h
    · next hlen =>
      rw [List.take_of_length_le hlen.le] at hread
      exact canonical_iff_fitsFrom.mpr ⟨hlen, (readCharacters_eq_ok_iff.mp hread).1⟩
    · contradiction

/-- **Reading.** A text is read if it is canonical, and then as the number its digits denote. -/
theorem parse_eq_ok_iff {text : Bytes} {u : Uuid} :
    parse text = .ok u ↔ Canonical text ∧ u.toNat = value 16 (digits text) := by
  constructor
  · intro h
    have hcanonical := canonical_of_parse_eq_ok h
    rw [parse_eq_ok_of_canonical hcanonical, Except.ok.injEq] at h
    exact ⟨hcanonical, by rw [← h, toNat_foldl_push_nil hcanonical.value_digits_lt]⟩
  · rintro ⟨hcanonical, hvalue⟩
    rw [parse_eq_ok_of_canonical hcanonical, Except.ok.injEq, ← Uuid.toNat_inj, hvalue,
      toNat_foldl_push_nil hcanonical.value_digits_lt]

theorem exists_parse_eq_ok_iff {text : Bytes} : (∃ u, parse text = .ok u) ↔ Canonical text :=
  ⟨fun ⟨_, h⟩ => canonical_of_parse_eq_ok h, fun h => ⟨_, parse_eq_ok_of_canonical h⟩⟩

theorem exists_parse_eq_error_iff {text : Bytes} :
    (∃ fault, parse text = .error fault) ↔ ¬ Canonical text := by
  rw [← exists_parse_eq_ok_iff]
  cases parse text <;> simp

/-- **Reading is exact.** A text is read exactly if it has the canonical form, which is what
`isCanonical` decides; every other text ends in a text fault. The identifier read is the number
that the 32 digits denote, read from the left with the hyphens dropped. A digit is a byte from `0`
to `9`, from `a` to `f` or from `A` to `F`, and its value is its place in the range, ten more for a
letter. -/
theorem parse_exact (text : Bytes) :
    (Canonical text ↔ text.length = 36 ∧ ∀ i (h : i < text.length),
      (text[i] = hyphen ↔ i ∈ [8, 13, 18, 23]) ∧
        (i ∉ [8, 13, 18, 23] →
          48 ≤ text[i].toNat ∧ text[i].toNat ≤ 57 ∨ 97 ≤ text[i].toNat ∧ text[i].toNat ≤ 102 ∨
            65 ≤ text[i].toNat ∧ text[i].toNat ≤ 70)) ∧
    ((∃ u, parse text = .ok u) ↔ Canonical text) ∧
    (isCanonical text = true ↔ Canonical text) ∧
    ((∃ fault, parse text = .error fault) ↔ ¬ Canonical text) ∧
    (∀ (b : UInt8) (d : Nat), hexDigit? b = some d ↔
      48 ≤ b.toNat ∧ b.toNat ≤ 57 ∧ d = b.toNat - 48 ∨
        97 ≤ b.toNat ∧ b.toNat ≤ 102 ∧ d = b.toNat - 97 + 10 ∨
          65 ≤ b.toNat ∧ b.toNat ≤ 70 ∧ d = b.toNat - 65 + 10) ∧
    ∀ u, parse text = .ok u →
      (unhyphenated text).map hexDigit? = (digits text).map some ∧ (digits text).length = 32 ∧
        u.high.toNat * 2 ^ 64 + u.low.toNat = value 16 (digits text) := by
  refine ⟨?_, exists_parse_eq_ok_iff, isCanonical_iff, exists_parse_eq_error_iff,
    fun b d => Numeral.hexDigit?_eq_some_iff, fun u h => ?_⟩
  · simp only [← Numeral.isHexDigit_iff]
    exact canonical_iff_forall
  · obtain ⟨hcanonical, hvalue⟩ := parse_eq_ok_iff.mp h
    exact ⟨map_hexDigit?_unhyphenated hcanonical.fitsFrom, hcanonical.length_digits, hvalue⟩

/-- A text in both letter cases, the letters in it, and the number that its digits denote. -/
theorem parse_exact_of_mixed_case :
    let text := Bytes.ascii "017F22E2-79b0-7cc3-98C4-dc0cAa07398f"
    parse text = .ok ⟨0x017F22E279B07CC3, 0x98C4DC0CAA07398F⟩ ∧
      (hexDigit? 97 = some 10 ∧ hexDigit? 65 = some 10) ∧
      (digits text).length = 32 ∧
      value 16 (digits text) = 0x017F22E279B07CC398C4DC0CAA07398F := by
  intro text
  have hparse : parse text = .ok ⟨0x017F22E279B07CC3, 0x98C4DC0CAA07398F⟩ := by decide
  obtain ⟨-, -, -, -, hdigit, hread⟩ := parse_exact text
  obtain ⟨-, hlen, hvalue⟩ := hread _ hparse
  exact ⟨hparse, ⟨(hdigit 97 10).mpr (by decide), (hdigit 65 10).mpr (by decide)⟩, hlen,
    hvalue.symm.trans (by decide)⟩

end UniqueId.Text
