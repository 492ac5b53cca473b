import UniqueId.Numeral
import Mathlib.Data.List.Induction
import Mathlib.Data.Nat.Digits.Lemmas

/-!
# Positional notation

The laws of `Numeral.value` that let one number be read as a run of digits in several bases at
once. `value` puts the most significant digit first, `Nat.ofDigits` puts it last; up to that
reversal they are one function (`value_eq_ofDigits_reverse`), and the general laws come from there.

* **Concatenation** (`value_append`): a run followed by `n` more digits is shifted by `base ^ n`.
* **Prefixes** (`value_take`): dividing by a power of the base drops digits at the low end, so
  every digit can be read back from the number (`getElem_eq_value_div_mod`).
* **Uniqueness** (`value_inj`): runs of one length that denote one number are equal.
* **Pushing** (`foldl_push`): a machine word that takes digits in at its low end holds the value
  of everything taken in, modulo its range.

The other sections are about digits as bytes: three ranges of bytes are digits, and each of them
counts up (`isHexDigit_iff`, `hexDigit?_eq_some_iff`); reading a digit and writing it again folds
its letter case and changes nothing else (`digitByte_of_hexDigit?`); a numeral of fixed width is the
shortest one filled up with zeros in front (`fixedHex_eq_replicate_append_numeral`), while zeros
behind it move the number to the left (`numeral_append_replicate`); a number can be read back from
its numeral (`numeral_inj`), whatever else follows it (`numeral_append_cons_inj`); and a decimal
numeral is the text that shows the number (`decimal_eq_ascii`, `signedDecimal_eq_ascii`).
-/

namespace UniqueId.Numeral

/-! ### Runs of digits -/

variable {base : Nat} {ds es : List Nat}

theorem value_eq_ofDigits_reverse (base : Nat) (ds : List Nat) :
    value base ds = Nat.ofDigits base ds.reverse := by
  induction ds using List.reverseRecOn with
  | nil => rfl
  | append_singleton ds d ih =>
    rw [value_append_singleton, List.reverse_concat, Nat.ofDigits_cons, ih, Nat.mul_comm,
      Nat.add_comm]

theorem value_append (base : Nat) (ds es : List Nat) :
    value base (ds ++ es) = value base ds * base ^ es.length + value base es := by
  rw [value_eq_ofDigits_reverse, List.reverse_append, Nat.ofDigits_append, List.length_reverse,
    ← value_eq_ofDigits_reverse, ← value_eq_ofDigits_reverse, Nat.mul_comm, Nat.add_comm]

theorem value_lt (hbase : 1 < base) (hds : ∀ d ∈ ds, d < base) :
    value base ds < base ^ ds.length := by
  rw [value_eq_ofDigits_reverse, ← List.length_reverse]
  exact Nat.ofDigits_lt_base_pow_length hbase fun d hd => hds d (List.mem_reverse.mp hd)

/-- **Uniqueness**: two runs of digits of one length that denote one number are the same run. -/
theorem value_inj (hbase : 1 < base) (hlen : ds.length = es.length) (hds : ∀ d ∈ ds, d < base)
    (hes : ∀ d ∈ es, d < base) : value base ds = value base es ↔ ds = es := by
  refine ⟨fun h => ?_, fun h => by rw [h]⟩
  rw [value_eq_ofDigits_reverse, value_eq_ofDigits_reverse] at h
  exact List.reverse_inj.mp <| Nat.ofDigits_inj_of_len_eq hbase (by simpa using hlen)
    (fun d hd => hds d (List.mem_reverse.mp hd)) (fun d hd => hes d (List.mem_reverse.mp hd)) h

/-- **Prefixes**: dividing by a power of the base drops digits at the low end. -/
theorem value_take (hbase : 1 < base) (hds : ∀ d ∈ ds, d < base) (k : Nat) :
    value base (ds.take k) = value base ds / base ^ (ds.length - k) := by
  have hdrop : value base (ds.drop k) < base ^ (ds.length - k) := by
    rw [← List.length_drop]
    exact value_lt hbase fun d hd => hds d (List.mem_of_mem_drop hd)
  have hsplit : value base ds =
      value base (ds.take k) * base ^ (ds.length - k) + value base (ds.drop k) := by
    rw [← List.length_drop, ← value_append, List.take_append_drop]
  rw [hsplit, Nat.mul_comm, Nat.mul_add_div (by positivity), Nat.div_eq_of_lt hdrop,
    Nat.add_zero]

theorem value_take_succ {k : Nat} (hk : k < ds.length) :
    value base (ds.take (k + 1)) = value base (ds.take k) * base + ds[k] := by
  rw [List.take_succ_eq_append_getElem hk, value_append_singleton]

/-- Every digit of a run can be read back from the number that the run denotes. -/
theorem getElem_eq_value_div_mod (hbase : 1 < base) (hds : ∀ d ∈ ds, d < base) {k : Nat}
    (hk : k < ds.length) : ds[k] = value base ds / base ^ (ds.length - 1 - k) % base := by
  have hdigit : ds[k] < base := hds _ (List.getElem_mem hk)
  rw [show ds.length - 1 - k = ds.length - (k + 1) by omega, ← value_take hbase hds,
    value_take_succ hk, Nat.mul_comm, Nat.mul_add_mod, Nat.mod_eq_of_lt hdigit]

theorem value_eq_zero_iff (hbase : 0 < base) : value base ds = 0 ↔ ∀ d ∈ ds, d = 0 := by
  induction ds using List.reverseRecOn with
  | nil => exact iff_of_true rfl fun d hd => absurd hd List.not_mem_nil
  | append_singleton ds d ih =>
    rw [value_append_singleton, Nat.add_eq_zero_iff, Nat.mul_eq_zero, ih, List.forall_mem_append,
      List.forall_mem_singleton, or_iff_left hbase.ne']

/-- **Pushing**: whatever takes digits in at its low end, modulo some range, holds the value of
all the digits taken in, modulo that range. -/
theorem foldl_push {α β : Type} {range : Nat} (push : α → β → α) (view : α → Nat)
    (digit : β → Nat) (a : α) (bs : List β) (ha : view a < range)
    (hpush : ∀ a, ∀ b ∈ bs, view (push a b) = (view a * base + digit b) % range) :
    view (bs.foldl push a) =
      (view a * base ^ bs.length + value base (bs.map digit)) % range := by
  induction bs using List.reverseRecOn with
  | nil => simp [Nat.mod_eq_of_lt ha]
  | append_singleton bs b ih =>
    have ih := ih fun a c hc => hpush a c (List.mem_append_left _ hc)
    rw [List.foldl_append, List.foldl_cons, List.foldl_nil, hpush _ b (by simp), ih,
      List.map_append, List.map_singleton, value_append_singleton, List.length_append,
      List.length_singleton, Nat.pow_succ]
    conv_lhs => rw [Nat.add_mod, Nat.mod_mul_mod, ← Nat.add_mod]
    congr 1
    ring

/-! ### Digits as bytes -/

/-- Reading a digit and writing it again folds its case. -/
theorem digitByte_of_hexDigit? (letters : LetterCase) {b : UInt8} {d : Nat}
    (h : hexDigit? b = some d) : digitByte letters d = letters.fold b := by
  have hall : ∀ n < 256, ∀ d ∈ hexDigit? (UInt8.ofNat n),
      digitByte letters d = letters.fold (UInt8.ofNat n) := by
    cases letters <;> decide +kernel
  have hb := hall b.toNat b.toNat_lt d
  rw [UInt8.ofNat_toNat] at hb
  exact hb h

/-- Folding the case of a byte does not change the digit it shows, if it shows one. -/
@[simp] theorem hexDigit?_fold (letters : LetterCase) (b : UInt8) :
    hexDigit? (letters.fold b) = hexDigit? b := by
  have hall : ∀ n < 256, hexDigit? (letters.fold (UInt8.ofNat n)) = hexDigit? (UInt8.ofNat n) := by
    cases letters <;> decide +kernel
  have hb := hall b.toNat b.toNat_lt
  rwa [UInt8.ofNat_toNat] at hb

/-- The digits of either case, spelled out: which bytes show one, and its value. -/
theorem hexDigit?_eq_some_iff {b : UInt8} {d : Nat} :
    hexDigit? b = some d ↔
      48 ≤ b.toNat ∧ b.toNat ≤ 57 ∧ d = b.toNat - 48 ∨
        97 ≤ b.toNat ∧ b.toNat ≤ 102 ∧ d = b.toNat - 97 + 10 ∨
          65 ≤ b.toNat ∧ b.toNat ≤ 70 ∧ d = b.toNat - 65 + 10 := by
  simp only [hexDigit?, UInt8.le_iff_toNat_le, UInt8.reduceToNat]
  split
  · rw [Option.some.injEq]
    omega
  split
  · rw [Option.some.injEq]
    omega
  split
  · rw [Option.some.injEq]
    omega
  · exact iff_of_false (by simp) (by omega)

theorem isHexDigit_iff {b : UInt8} :
    isHexDigit b ↔
      48 ≤ b.toNat ∧ b.toNat ≤ 57 ∨ 97 ≤ b.toNat ∧ b.toNat ≤ 102 ∨
        65 ≤ b.toNat ∧ b.toNat ≤ 70 := by
  simp only [isHexDigit, Bool.or_eq_true, Bool.and_eq_true, decide_eq_true_eq,
    UInt8.le_iff_toNat_le, UInt8.reduceToNat, or_assoc]

theorem isHexDigit_iff_exists {b : UInt8} : isHexDigit b ↔ ∃ d, hexDigit? b = some d := by
  rw [← hexDigit?_isSome, Option.isSome_iff_exists]

theorem isHexDigit_digitByte (letters : LetterCase) {d : Nat} (h : d < 16) :
    isHexDigit (digitByte letters d) :=
  isHexDigit_iff_exists.mpr ⟨d, hexDigit?_digitByte letters h⟩

/-- A digit written in a case is already folded to that case. -/
theorem fold_digitByte (letters : LetterCase) {d : Nat} (h : d < 16) :
    letters.fold (digitByte letters d) = digitByte letters d :=
  (digitByte_of_hexDigit? letters (hexDigit?_digitByte letters h)).symm

/-- The bytes of a fixed-width numeral are digits below sixteen, written in the one case. -/
theorem exists_of_mem_fixedHex {letters : LetterCase} {width n : Nat} {b : UInt8}
    (h : b ∈ fixedHex letters width n) : ∃ d < 16, b = digitByte letters d := by
  induction width generalizing n with
  | zero => simp [fixedHex] at h
  | succ width ih =>
    rcases List.mem_append.mp h with h | h
    · exact ih h
    · exact ⟨n % 16, Nat.mod_lt _ (by decide), List.mem_singleton.mp h⟩

/-- Every byte of a fixed-width numeral counts when it is read back. -/
theorem length_filterMap_fixedHex (letters : LetterCase) (width n : Nat) :
    ((fixedHex letters width n).filterMap hexDigit?).length = width := by
  rw [List.length_filterMap_eq_countP, List.countP_eq_length.mpr, length_fixedHex]
  intro b hb
  obtain ⟨d, hd, rfl⟩ := exists_of_mem_fixedHex hb
  simp [hexDigit?_digitByte letters hd]

/-! ### The two printers -/

theorem fixedHex_zero (letters : LetterCase) (width : Nat) :
    fixedHex letters width 0 = List.replicate width 48 := by
  induction width with
  | zero => rfl
  | succ width ih =>
    rw [fixedHex, Nat.zero_div, ih, List.replicate_succ', Nat.zero_mod]
    rfl

/-- A fixed-width numeral is the shortest one, filled up with zeros in front. -/
theorem fixedHex_eq_replicate_append_numeral (letters : LetterCase) {width n : Nat}
    (hwidth : 0 < width) (hn : n < 16 ^ width) : fixedHex letters width n =
      List.replicate (width - (numeral letters 16 n).length) 48 ++ numeral letters 16 n := by
  induction width generalizing n with
  | zero => exact absurd hwidth (Nat.lt_irrefl 0)
  | succ width ih =>
    rw [fixedHex]
    by_cases hsmall : n < 16
    · rw [Nat.div_eq_of_lt hsmall, Nat.mod_eq_of_lt hsmall, fixedHex_zero, numeral,
        digits_of_lt hsmall]
      rfl
    · have hdiv : n / 16 < 16 ^ width := by
        rw [Nat.div_lt_iff_lt_mul (by decide), ← Nat.pow_succ]
        exact hn
      have hwidth : 0 < width := by
        rcases Nat.eq_zero_or_pos width with rfl | h
        · rw [Nat.pow_zero] at hdiv
          omega
        · exact h
      have hnumeral : numeral letters 16 n =
          numeral letters 16 (n / 16) ++ [digitByte letters (n % 16)] := by
        rw [numeral, digits_of_le (by decide) (Nat.le_of_not_lt hsmall), List.map_append]
        rfl
      rw [ih hwidth hdiv, hnumeral, List.length_append, List.length_singleton,
        Nat.add_sub_add_right, List.append_assoc]

/-- The digits of a number other than zero, first to last. -/
theorem digits_eq_reverse {n : Nat} (hbase : 2 ≤ base) (hn : n ≠ 0) :
    digits base n = (Nat.digits base n).reverse := by
  induction n using Nat.strongRecOn with
  | ind n ih =>
    have hpos : 0 < n := Nat.pos_of_ne_zero hn
    by_cases h : n < base
    · rw [digits_of_lt h, Nat.digits_of_lt base n hn h, List.reverse_singleton]
    · have hle : base ≤ n := Nat.le_of_not_lt h
      have hdiv : n / base ≠ 0 := (Nat.div_pos hle (by omega)).ne'
      rw [digits_of_le hbase hle, Nat.digits_def' hbase hpos, List.reverse_cons,
        ih _ (Nat.div_lt_self hpos hbase) hdiv]

theorem length_numeral_of_ne_zero (letters : LetterCase) {n : Nat} (hn : n ≠ 0) :
    (numeral letters 16 n).length = (Nat.digits 16 n).length := by
  rw [numeral, List.length_map, digits_eq_reverse (by decide) hn, List.length_reverse]

/-- A number other than zero fills a fixed-width numeral of as many places as it has digits. -/
theorem numeral_eq_fixedHex (letters : LetterCase) {n : Nat} (hn : n ≠ 0) :
    numeral letters 16 n = fixedHex letters (Nat.digits 16 n).length n := by
  have hlen : 0 < (Nat.digits 16 n).length :=
    List.length_pos_iff.mpr (Nat.digits_ne_nil_iff_ne_zero.mpr hn)
  rw [fixedHex_eq_replicate_append_numeral letters hlen
    (Nat.lt_base_pow_length_digits (by decide)), length_numeral_of_ne_zero letters hn,
    Nat.sub_self, List.replicate_zero, List.nil_append]

/-! ### Numerals read back -/

/-- Nothing but digits stands in a numeral. -/
theorem isHexDigit_of_mem_numeral {letters : LetterCase} {n : Nat} {b : UInt8} (hlo : 2 ≤ base)
    (hhi : base ≤ 16) (h : b ∈ numeral letters base n) : isHexDigit b := by
  obtain ⟨d, hd, rfl⟩ := List.mem_map.mp h
  exact isHexDigit_digitByte letters (Nat.lt_of_lt_of_le (lt_of_mem_digits hlo hd) hhi)

theorem notMem_numeral {letters : LetterCase} {b : UInt8} (hlo : 2 ≤ base) (hhi : base ≤ 16)
    (hb : ¬ isHexDigit b) (n : Nat) : b ∉ numeral letters base n := fun h =>
  hb (isHexDigit_of_mem_numeral hlo hhi h)

theorem notMem_decimal {b : UInt8} (hb : ¬ isHexDigit b) (n : Nat) : b ∉ decimal n :=
  notMem_numeral (by decide) (by decide) hb n

/-- The digits of a numeral can be read back. -/
theorem filterMap_numeral (letters : LetterCase) (n : Nat) (hlo : 2 ≤ base) (hhi : base ≤ 16) :
    (numeral letters base n).filterMap hexDigit? = digits base n := by
  have hdigits : ∀ d ∈ digits base n, (hexDigit? ∘ digitByte letters) d = some d := fun d hd =>
    hexDigit?_digitByte letters (Nat.lt_of_lt_of_le (lt_of_mem_digits hlo hd) hhi)
  rw [numeral, List.filterMap_map, List.filterMap_congr hdigits, List.filterMap_some]

/-- **Different numbers have different numerals.** -/
theorem numeral_inj {letters : LetterCase} {m n : Nat} (hlo : 2 ≤ base) (hhi : base ≤ 16) :
    numeral letters base m = numeral letters base n ↔ m = n := by
  refine ⟨fun h => ?_, fun h => by rw [h]⟩
  rw [← value_digits hlo m, ← value_digits hlo n, ← filterMap_numeral letters m hlo hhi, h,
    filterMap_numeral letters n hlo hhi]

/-- A numeral ends where no digit follows, so it is told from what stands behind it. -/
theorem numeral_append_cons_inj {letters : LetterCase} {m n : Nat} {b c : UInt8} {bs cs : Bytes}
    (hlo : 2 ≤ base) (hhi : base ≤ 16) (hb : ¬ isHexDigit b) (hc : ¬ isHexDigit c) :
    numeral letters base m ++ b :: bs = numeral letters base n ++ c :: cs ↔
      m = n ∧ b :: bs = c :: cs := by
  have htake : ∀ n b bs, ¬ isHexDigit b →
      (numeral letters base n ++ b :: bs).takeWhile isHexDigit = numeral letters base n := by
    intro n b bs hb
    rw [List.takeWhile_append_of_pos fun _ => isHexDigit_of_mem_numeral hlo hhi,
      List.takeWhile_cons_of_neg hb, List.append_nil]
  constructor
  · intro h
    have hnumeral := congrArg (List.takeWhile isHexDigit) h
    rw [htake m b bs hb, htake n c cs hc] at hnumeral
    rw [hnumeral] at h
    exact ⟨(numeral_inj hlo hhi).mp hnumeral, List.append_cancel_left h⟩
  · rintro ⟨rfl, h⟩
    rw [h]

/-! ### Zeros behind a numeral -/

/-- Zeros behind a numeral multiply. -/
theorem fixedHex_mul_pow (letters : LetterCase) (width k n : Nat) :
    fixedHex letters (width + k) (n * 16 ^ k) =
      fixedHex letters width n ++ List.replicate k 48 := by
  induction k with
  | zero => rw [Nat.pow_zero, Nat.mul_one, Nat.add_zero, List.replicate_zero, List.append_nil]
  | succ k ih =>
    have hdigit : digitByte letters 0 = 48 := rfl
    rw [← Nat.add_assoc, fixedHex, Nat.pow_succ, ← Nat.mul_assoc,
      Nat.mul_div_cancel _ (by decide), Nat.mul_mod_left, ih, hdigit, List.append_assoc,
      List.replicate_succ']

/-- A number moved up in so many places until a digit other than zero stands in the first of them.
Zero stays zero. -/
def alignLeft (width n : Nat) : Nat :=
  n * 16 ^ (width - (Nat.digits 16 n).length)

theorem alignLeft_lt {width n : Nat} (h : n < 16 ^ width) : alignLeft width n < 16 ^ width := by
  have hlen : (Nat.digits 16 n).length ≤ width := (Nat.digits_length_le_iff (by decide) n).mpr h
  calc alignLeft width n
      < 16 ^ (Nat.digits 16 n).length * 16 ^ (width - (Nat.digits 16 n).length) :=
        Nat.mul_lt_mul_of_pos_right (Nat.lt_base_pow_length_digits (by decide)) (by positivity)
    _ = 16 ^ width := by rw [← Nat.pow_add, Nat.add_sub_cancel' hlen]

/-- A number stays where it is if it is zero, or stands at the left already. -/
theorem alignLeft_eq_self_iff {width n : Nat} (hwidth : 0 < width) :
    alignLeft width n = n ↔ n = 0 ∨ n / 16 ^ (width - 1) ≠ 0 := by
  have hfirst : n / 16 ^ (width - 1) ≠ 0 ↔ width ≤ (Nat.digits 16 n).length := by
    have hlen : width - 1 < (Nat.digits 16 n).length ↔ 16 ^ (width - 1) ≤ n :=
      Nat.lt_digits_length_iff (by decide) n
    rw [Nat.div_ne_zero_iff, and_iff_right (by positivity), ← hlen]
    omega
  rw [alignLeft, hfirst, mul_right_eq_self₀, or_comm, Nat.pow_eq_one,
    or_iff_right (by decide : ¬ 16 = 1), Nat.sub_eq_zero_iff_le]

/-- The shortest numeral filled up with zeros behind is that of the number moved to the left. -/
theorem numeral_append_replicate (letters : LetterCase) {width n : Nat} (hwidth : 0 < width)
    (hn : n < 16 ^ width) :
    numeral letters 16 n ++ List.replicate (width - (numeral letters 16 n).length) 48 =
      fixedHex letters width (alignLeft width n) := by
  rcases eq_or_ne n 0 with rfl | hne
  · have hnumeral : numeral letters 16 0 = [48] := rfl
    rw [alignLeft, Nat.zero_mul, fixedHex_zero, hnumeral, List.length_singleton,
      List.singleton_append, ← List.replicate_succ, Nat.sub_add_cancel hwidth]
  · have hlen : (Nat.digits 16 n).length ≤ width := (Nat.digits_length_le_iff (by decide) n).mpr hn
    have hzeros := fixedHex_mul_pow letters (Nat.digits 16 n).length
      (width - (Nat.digits 16 n).length) n
    rw [Nat.add_sub_cancel' hlen] at hzeros
    rw [alignLeft, hzeros, length_numeral_of_ne_zero letters hne, numeral_eq_fixedHex letters hne]

/-! ### Decimal numerals -/

/-- A decimal digit is the byte of the character that shows it. -/
theorem digitByte_of_lt_ten (letters : LetterCase) {d : Nat} (h : d < 10) :
    digitByte letters d = d.digitChar.toNat.toUInt8 := by
  simp only [digitByte, if_pos h, Nat.toNat_digitChar_of_lt_ten h]

theorem numeral_ten_eq_map_toDigits (letters : LetterCase) (n : Nat) :
    numeral letters 10 n = (Nat.toDigits 10 n).map fun c => c.toNat.toUInt8 := by
  induction n using Nat.strongRecOn with
  | ind n ih =>
    by_cases h : n < 10
    · rw [numeral, digits_of_lt h, Nat.toDigits_of_lt_base h, List.map_singleton,
        List.map_singleton, digitByte_of_lt_ten letters h]
    · have hle : 10 ≤ n := Nat.le_of_not_lt h
      have hdigit : n % 10 < 10 := Nat.mod_lt n (by decide)
      have hrest := ih (n / 10) (Nat.div_lt_self (by omega) (by decide))
      rw [numeral] at hrest
      rw [numeral, digits_of_le (by decide) hle, Nat.toDigits_of_base_le (by decide) hle,
        List.map_append, List.map_append, hrest, List.map_singleton, List.map_singleton,
        digitByte_of_lt_ten letters hdigit]

theorem decimal_eq_ascii (n : Nat) : decimal n = Bytes.ascii (toString n) := by
  rw [decimal, numeral_ten_eq_map_toDigits, Bytes.ascii, Nat.toString_eq_repr, Nat.toList_repr]

theorem signedDecimal_eq_ascii (z : Int) : signedDecimal z = Bytes.ascii (toString z) := by
  cases z with
  | ofNat n => exact decimal_eq_ascii n
  | negSucc n =>
    have hneg : toString (Int.negSucc n) = "-" ++ toString (n + 1) := rfl
    rw [hneg, Bytes.ascii_append, ← decimal_eq_ascii]
    rfl

end UniqueId.Numeral
