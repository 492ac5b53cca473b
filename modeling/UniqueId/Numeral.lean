import UniqueId.Bytes

/-!
# Numerals

Positional numerals as bytes. Two printers share one digit alphabet:

* **shortest** (`numeral`): as many digits as the number needs, at least one;
* **fixed width** (`fixedHex`): exactly so many hexadecimal digits, the leading ones zero.

`hexDigit?` reads one hexadecimal digit of either case, and `value` is the number that a run of
digits denotes.
-/

namespace UniqueId

/-- The case in which the digits above nine are written. -/
inductive LetterCase where
  | lower
  | upper
deriving DecidableEq, Repr

/-- The byte with an ASCII letter brought to the given case; every other byte as it is. -/
def LetterCase.fold : LetterCase → UInt8 → UInt8
  | .lower, b => if 65 ≤ b ∧ b ≤ 90 then b + 32 else b
  | .upper, b => if 97 ≤ b ∧ b ≤ 122 then b - 32 else b

namespace Numeral

-- powers are those of the natural numbers alone, whatever else is in scope
attribute [local instance (high)] instPowNat

/-! ### Digits of a number -/

/-- Digits of `n` in `base`, found within so many divisions. -/
private def digitsWithin (base : Nat) : Nat → Nat → List Nat
  | 0, _ => []
  | steps + 1, n => if n < base then [n] else digitsWithin base steps (n / base) ++ [n % base]

/-- The digits of `n` in `base`, most significant first. Zero has the one digit `0`. -/
def digits (base n : Nat) : List Nat :=
  digitsWithin base (n + 1) n

/-- The number that a run of digits denotes in `base`. -/
def value (base : Nat) (ds : List Nat) : Nat :=
  ds.foldl (fun v d => v * base + d) 0

private theorem digitsWithin_eq {base : Nat} (hb : 2 ≤ base) {s t n : Nat} (hs : n < s)
    (ht : n < t) : digitsWithin base s n = digitsWithin base t n := by
  induction s generalizing t n with
  | zero => omega
  | succ s ih =>
    obtain ⟨t, rfl⟩ : ∃ u, t = u + 1 := ⟨t - 1, by omega⟩
    by_cases hn : n < base
    · simp [digitsWithin, hn]
    · have hdiv : n / base < n := Nat.div_lt_self (by omega) (by omega)
      simp only [digitsWithin, hn, if_false, ih (show n / base < s by omega)
        (show n / base < t by omega)]

theorem digits_of_lt {base n : Nat} (h : n < base) : digits base n = [n] := by
  simp [digits, digitsWithin, h]

theorem digits_of_le {base n : Nat} (hb : 2 ≤ base) (h : base ≤ n) :
    digits base n = digits base (n / base) ++ [n % base] := by
  have hdiv : n / base < n := Nat.div_lt_self (by omega) (by omega)
  rw [digits, digitsWithin, if_neg (by omega), digits,
    digitsWithin_eq hb hdiv (Nat.lt_succ_self _)]

@[simp] theorem value_nil (base : Nat) : value base [] = 0 := rfl

@[simp] theorem value_append_singleton (base : Nat) (ds : List Nat) (d : Nat) :
    value base (ds ++ [d]) = value base ds * base + d := by
  simp [value]

/-- The digits of a number denote it. -/
theorem value_digits {base : Nat} (hb : 2 ≤ base) (n : Nat) : value base (digits base n) = n := by
  induction n using Nat.strongRecOn with
  | ind n ih =>
    by_cases h : n < base
    · simp [digits_of_lt h, value]
    · rw [digits_of_le hb (by omega), value_append_singleton,
        ih _ (Nat.div_lt_self (by omega) (by omega)), Nat.mul_comm, Nat.div_add_mod]

theorem lt_of_mem_digits {base : Nat} (hb : 2 ≤ base) {n d : Nat} (h : d ∈ digits base n) :
    d < base := by
  induction n using Nat.strongRecOn with
  | ind n ih =>
    by_cases hn : n < base
    · rw [digits_of_lt hn, List.mem_singleton] at h
      omega
    · rw [digits_of_le hb (by omega), List.mem_append, List.mem_singleton] at h
      rcases h with h | rfl
      · exact ih _ (Nat.div_lt_self (by omega) (by omega)) h
      · exact Nat.mod_lt _ (by omega)

/-! ### Digits as bytes -/

/-- The byte of one digit below sixteen: `0` to `9`, then letters in the given case. -/
def digitByte (letters : LetterCase) (d : Nat) : UInt8 :=
  if d < 10 then (48 + d).toUInt8
  else match letters with
    | .lower => (87 + d).toUInt8
    | .upper => (55 + d).toUInt8

/-- The value of a byte read as a hexadecimal digit of either case. -/
def hexDigit? (b : UInt8) : Option Nat :=
  if 48 ≤ b ∧ b ≤ 57 then some (b.toNat - 48)
  else if 97 ≤ b ∧ b ≤ 102 then some (b.toNat - 87)
  else if 65 ≤ b ∧ b ≤ 70 then some (b.toNat - 55)
  else none

/-- Whether a byte is an ASCII hexadecimal digit: `0` to `9`, `a` to `f` or `A` to `F`. -/
def isHexDigit (b : UInt8) : Bool :=
  (48 ≤ b && b ≤ 57) || (97 ≤ b && b ≤ 102) || (65 ≤ b && b ≤ 70)

private theorem hexDigit?_digitByte_range (letters : LetterCase) :
    ∀ d ∈ List.range 16, hexDigit? (digitByte letters d) = some d := by
  cases letters <;> decide

/-- A digit is read back from its byte, whatever the case. -/
theorem hexDigit?_digitByte (letters : LetterCase) {d : Nat} (h : d < 16) :
    hexDigit? (digitByte letters d) = some d :=
  hexDigit?_digitByte_range letters d (List.mem_range.mpr h)

theorem hexDigit?_isSome (b : UInt8) : (hexDigit? b).isSome = isHexDigit b := by
  simp only [hexDigit?, isHexDigit]
  split
  · next h => simp [h]
  · next h =>
    split
    · next h' => simp [h']
    · next h' =>
      split
      · next h'' => simp [h'']
      · next h'' =>
        simp only [not_and] at h h' h''
        symm
        simp only [Option.isSome_none, Bool.or_eq_false_iff, Bool.and_eq_false_imp,
          decide_eq_true_eq, decide_eq_false_iff_not]
        exact ⟨⟨h, h'⟩, h''⟩

theorem hexDigit?_lt {b : UInt8} {d : Nat} (h : hexDigit? b = some d) : d < 16 := by
  simp only [hexDigit?, UInt8.le_iff_toNat_le] at h
  split at h
  · next hb =>
    have := hb.2
    simp at h this
    omega
  · split at h
    · next hb =>
      have := hb.2
      simp at h this
      omega
    · split at h
      · next hb =>
        have := hb.2
        simp at h this
        omega
      · simp at h

/-! ### Printers -/

/-- The shortest numeral of `n` in a base of at most sixteen. -/
def numeral (letters : LetterCase) (base n : Nat) : Bytes :=
  (digits base n).map (digitByte letters)

/-- The decimal numeral of a natural number. -/
def decimal (n : Nat) : Bytes :=
  numeral .lower 10 n

/-- The decimal numeral of an integer, a minus sign in front of a negative one. -/
def signedDecimal : Int → Bytes
  | .ofNat n => decimal n
  | .negSucc n => 45 :: decimal (n + 1)

/-- The lowest `width` hexadecimal digits of `n`, leading zeros included. -/
def fixedHex (letters : LetterCase) : Nat → Nat → Bytes
  | 0, _ => []
  | width + 1, n => fixedHex letters width (n / 16) ++ [digitByte letters (n % 16)]

@[simp] theorem length_fixedHex (letters : LetterCase) (width n : Nat) :
    (fixedHex letters width n).length = width := by
  induction width generalizing n with
  | zero => rfl
  | succ width ih => simp [fixedHex, ih]

/-- Reading back a fixed-width numeral gives the number modulo `16 ^ width`. -/
theorem value_fixedHex (letters : LetterCase) (width n : Nat) :
    value 16 ((fixedHex letters width n).filterMap hexDigit?) = n % 16 ^ width := by
  induction width generalizing n with
  | zero => simp [fixedHex, Nat.mod_one]
  | succ width ih =>
    have hd : n % 16 < 16 := Nat.mod_lt _ (by decide)
    rw [fixedHex, List.filterMap_append, List.filterMap_cons_some (hexDigit?_digitByte letters hd),
      List.filterMap_nil, value_append_singleton, ih, Nat.pow_succ', Nat.mod_mul, Nat.add_comm,
      Nat.mul_comm]

end Numeral

end UniqueId
