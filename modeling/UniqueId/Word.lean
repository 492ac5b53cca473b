import UniqueId.Bytes

/-!
# Words as eight bytes

A 64-bit word is laid out most significant byte first. `Word.toBytes` writes it and
`Word.ofBytes` reads it back from the first eight bytes of a run; the two are inverse
(`ofBytes_toBytes`).
-/

namespace UniqueId.Word

-- powers are those of the natural numbers alone, whatever else is in scope
attribute [local instance (high)] instPowNat

/-- The lowest `count` bytes of a word, most significant first. -/
def lowBytes : Nat → UInt64 → Bytes
  | 0, _ => []
  | count + 1, w => lowBytes count (w >>> 8) ++ [w.toUInt8]

/-- The eight bytes of a word, most significant first. -/
def toBytes (w : UInt64) : Bytes :=
  lowBytes 8 w

/-- The word with one more byte moved in at its low end. -/
def shiftIn (w : UInt64) (b : UInt8) : UInt64 :=
  w <<< 8 ||| b.toUInt64

/-- The word in the first eight bytes of a run, most significant first. -/
def ofBytes (bs : Bytes) : UInt64 :=
  (bs.take 8).foldl shiftIn 0

@[simp] theorem length_lowBytes (count : Nat) (w : UInt64) : (lowBytes count w).length = count := by
  induction count generalizing w with
  | zero => rfl
  | succ count ih => simp [lowBytes, ih]

@[simp] theorem length_toBytes (w : UInt64) : (toBytes w).length = 8 :=
  length_lowBytes 8 w

/-- Moving a byte in is multiplication by 256, the top byte lost. -/
theorem toNat_shiftIn (w : UInt64) (b : UInt8) :
    (shiftIn w b).toNat = (w.toNat * 256 + b.toNat) % 2 ^ (64 : Nat) := by
  have hb : b.toNat < 2 ^ 8 := b.toNat_lt
  have hor : w.toNat * 256 % 2 ^ 64 ||| b.toNat = w.toNat * 256 % 2 ^ 64 + b.toNat := by
    have hmul : w.toNat * 256 % 2 ^ 64 = w.toNat % 2 ^ 56 * 2 ^ 8 := by omega
    rw [hmul, ← Nat.shiftLeft_eq, ← Nat.shiftLeft_add_eq_or_of_lt hb]
  simp only [shiftIn, UInt64.toNat_or, UInt64.toNat_shiftLeft, UInt8.toNat_toUInt64]
  rw [show (8 : UInt64).toNat % 64 = 8 from rfl, Nat.shiftLeft_eq, show 2 ^ 8 = 256 from rfl, hor]
  omega

private theorem toNat_foldl_lowBytes (count : Nat) (hc : count ≤ 8) (w : UInt64) :
    ((lowBytes count w).foldl shiftIn 0).toNat = w.toNat % 2 ^ (8 * count) := by
  induction count generalizing w with
  | zero => simp [lowBytes, Nat.mod_one]
  | succ count ih =>
    have hpow : (2 : Nat) ^ (8 * count) ≤ 2 ^ 56 := Nat.pow_le_pow_right (by decide) (by omega)
    have hpos : 0 < (2 : Nat) ^ (8 * count) := Nat.two_pow_pos _
    have hlt : w.toNat / 256 % 2 ^ (8 * count) < 2 ^ (8 * count) := Nat.mod_lt _ hpos
    rw [lowBytes, List.foldl_append, List.foldl_cons, List.foldl_nil, toNat_shiftIn,
      ih (by omega), UInt64.toNat_shiftRight, show (8 : UInt64).toNat % 64 = 8 from rfl,
      Nat.shiftRight_eq_div_pow, show (2 : Nat) ^ 8 = 256 from rfl, UInt64.toNat_toUInt8,
      show (2 : Nat) ^ (8 * (count + 1)) = 256 * 2 ^ (8 * count) by
        rw [Nat.mul_succ, Nat.pow_add, Nat.mul_comm], Nat.mod_mul,
      show (2 : Nat) ^ 8 = 256 from rfl]
    omega

/-- **Round trip**: a word is read back from its bytes, whatever follows them. -/
theorem ofBytes_toBytes_append (w : UInt64) (rest : Bytes) : ofBytes (toBytes w ++ rest) = w := by
  have hw : w.toNat < 2 ^ 64 := w.toNat_lt
  rw [ofBytes, List.take_left' (length_toBytes w), ← UInt64.toNat_inj, toBytes,
    toNat_foldl_lowBytes 8 (Nat.le_refl 8)]
  exact Nat.mod_eq_of_lt hw

@[simp] theorem ofBytes_toBytes (w : UInt64) : ofBytes (toBytes w) = w := by
  simpa using ofBytes_toBytes_append w []

end UniqueId.Word
