import UniqueId.Proofs.Text.Canonical
import UniqueId.Proofs.Uuid.Binary

/-!
# Numerals in lexicographic order

Runs of digits of one length are in the order of the numbers they denote, most significant digit
first (`Numeral.lex_iff_value_lt`). Two further comparisons come down to this one:

* **Bytes** (`Bytes.precedes_iff_toNat_lt`): runs of bytes of one length are digits in base 256.
* **Texts** (`Text.precedes_iff_lex_digits`): in texts that fit the canonical form from some index
  on, hyphens meet hyphens and decide nothing, and digits of one letter case are in the order of
  their values, because the letters of either case follow the figures in the alphabet of bytes.
-/

namespace UniqueId

/-! ### Runs of digits -/

namespace Numeral

variable {base : Nat} {ds es : List Nat}

theorem value_cons (base d : Nat) (ds : List Nat) :
    value base (d :: ds) = d * base ^ ds.length + value base ds := by
  have hone : value base [d] = d := by
    rw [← List.nil_append [d], value_append_singleton, value_nil, Nat.zero_mul, Nat.zero_add]
  rw [← List.singleton_append, value_append, hone]

/-- Above a common range the first digits decide, and below it the rest does. -/
private theorem mul_add_lt_mul_add_iff {range d e x y : Nat} (hx : x < range) (hy : y < range) :
    d * range + x < e * range + y ↔ d < e ∨ d = e ∧ x < y := by
  obtain hlt | rfl | hgt := Nat.lt_trichotomy d e
  · have hstep : (d + 1) * range ≤ e * range := Nat.mul_le_mul_right range hlt
    rw [Nat.succ_mul] at hstep
    exact iff_of_true (by omega) (.inl hlt)
  · omega
  · have hstep : (e + 1) * range ≤ d * range := Nat.mul_le_mul_right range hgt
    rw [Nat.succ_mul] at hstep
    exact iff_of_false (by omega) (by omega)

/-- **Digits in order, numbers in order**, for runs of one length. -/
theorem lex_iff_value_lt (hbase : 1 < base) (hlen : ds.length = es.length)
    (hds : ∀ d ∈ ds, d < base) (hes : ∀ d ∈ es, d < base) :
    List.Lex (· < ·) ds es ↔ value base ds < value base es := by
  induction ds generalizing es with
  | nil =>
    obtain rfl := List.eq_nil_of_length_eq_zero hlen.symm
    exact iff_of_false List.not_lex_nil (Nat.lt_irrefl _)
  | cons d ds ih =>
    obtain ⟨e, es, rfl⟩ := List.exists_cons_of_length_eq_add_one hlen.symm
    have hlen : ds.length = es.length := Nat.succ.inj hlen
    have hds := List.forall_mem_cons.mp hds
    have hes := List.forall_mem_cons.mp hes
    have hrest : value base ds < base ^ es.length := by
      rw [← hlen]
      exact value_lt hbase hds.2
    rw [List.cons_lex_cons_iff, ih hlen hds.2 hes.2, value_cons, value_cons, hlen,
      mul_add_lt_mul_add_iff hrest (value_lt hbase hes.2)]

/-- In either case the bytes of digits are in the order of the digits. -/
theorem digitByte_lt_iff (letters : LetterCase) {d e : Nat} (hd : d < 16) (he : e < 16) :
    digitByte letters d < digitByte letters e ↔ d < e := by
  have hall : ∀ d < 16, ∀ e < 16, (digitByte letters d < digitByte letters e ↔ d < e) := by
    cases letters <;> decide
  exact hall d hd e he

theorem digitByte_inj (letters : LetterCase) {d e : Nat} (hd : d < 16) (he : e < 16) :
    digitByte letters d = digitByte letters e ↔ d = e := by
  refine ⟨fun h => ?_, fun h => by rw [h]⟩
  have hread := congrArg hexDigit? h
  rwa [hexDigit?_digitByte letters hd, hexDigit?_digitByte letters he, Option.some.injEq] at hread

end Numeral

/-! ### Runs of bytes -/

namespace Bytes

/-- A run of bytes **precedes** another if it is less in the lexicographic order of unsigned
bytes. -/
def Precedes (bs cs : Bytes) : Prop :=
  List.Lex (· < ·) bs cs

instance : DecidableRel Precedes := fun bs cs =>
  inferInstanceAs (Decidable (List.Lex (· < ·) bs cs))

theorem cons_precedes_cons_iff {b c : UInt8} {bs cs : Bytes} :
    Precedes (b :: bs) (c :: cs) ↔ b < c ∨ b = c ∧ Precedes bs cs :=
  List.cons_lex_cons_iff

theorem precedes_iff_lex_map_toNat {bs cs : Bytes} :
    Precedes bs cs ↔ List.Lex (· < ·) (bs.map UInt8.toNat) (cs.map UInt8.toNat) := by
  induction bs generalizing cs with
  | nil => cases cs <;> simp [Precedes]
  | cons b bs ih =>
    cases cs with
    | nil => exact iff_of_false List.not_lex_nil List.not_lex_nil
    | cons c cs =>
      rw [cons_precedes_cons_iff, List.map_cons, List.map_cons, List.cons_lex_cons_iff, ih,
        UInt8.lt_iff_toNat_lt, UInt8.toNat_inj]

/-- Runs of one length are in the order of the numbers they denote. -/
theorem precedes_iff_toNat_lt {bs cs : Bytes} (hlen : bs.length = cs.length) :
    Precedes bs cs ↔ bs.toNat < cs.toNat := by
  rw [precedes_iff_lex_map_toNat, Numeral.lex_iff_value_lt (by norm_num) (by simpa using hlen)
    (forall_mem_map_toNat_lt bs) (forall_mem_map_toNat_lt cs)]
  rfl

end Bytes

/-! ### Texts -/

namespace Text

open Bytes (Precedes)

/-- **Texts in order, digits in order**: hyphens decide nothing, and digits of one case compare by
their values. -/
theorem precedes_iff_lex_digits (letters : LetterCase) {i : Nat} {bs cs : Bytes}
    (hbs : FitsFrom i bs) (hcs : FitsFrom i cs) (hlen : bs.length = cs.length)
    (hbsFolded : bs.map letters.fold = bs) (hcsFolded : cs.map letters.fold = cs) :
    Precedes bs cs ↔ List.Lex (· < ·) (digits bs) (digits cs) := by
  induction bs generalizing i cs with
  | nil =>
    obtain rfl := List.eq_nil_of_length_eq_zero hlen.symm
    exact iff_of_false List.not_lex_nil List.not_lex_nil
  | cons b bs ih =>
    obtain ⟨c, cs, rfl⟩ := List.exists_cons_of_length_eq_add_one hlen.symm
    obtain ⟨hb, hbs⟩ := hbs
    obtain ⟨hc, hcs⟩ := hcs
    obtain ⟨hbFolded, hbsFolded⟩ := List.cons_eq_cons.mp hbsFolded
    obtain ⟨hcFolded, hcsFolded⟩ := List.cons_eq_cons.mp hcsFolded
    have ih := ih hbs hcs (Nat.succ.inj hlen) hbsFolded hcsFolded
    rw [Bytes.cons_precedes_cons_iff, digits_cons, digits_cons, ih]
    by_cases hi : isHyphenIndex i
    · rw [(admits_of_isHyphenIndex hi b).mp hb, (admits_of_isHyphenIndex hi c).mp hc]
      simp
    · obtain ⟨d, hd⟩ := Numeral.isHexDigit_iff_exists.mp ((admits_of_not_isHyphenIndex hi b).mp hb)
      obtain ⟨e, he⟩ := Numeral.isHexDigit_iff_exists.mp ((admits_of_not_isHyphenIndex hi c).mp hc)
      have hbByte := Numeral.digitByte_of_hexDigit? letters hd
      have hcByte := Numeral.digitByte_of_hexDigit? letters he
      have hdlt := Numeral.hexDigit?_lt hd
      have helt := Numeral.hexDigit?_lt he
      rw [hd, he, ← hbFolded, ← hcFolded, ← hbByte, ← hcByte,
        Numeral.digitByte_lt_iff letters hdlt helt, Numeral.digitByte_inj letters hdlt helt]
      exact List.cons_lex_cons_iff.symm

end Text

end UniqueId
