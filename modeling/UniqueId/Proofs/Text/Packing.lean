import UniqueId.Proofs.Text.Reading
import UniqueId.Word

/-!
# Packing digits into bytes

An identifier can be read from text without ever moving all of its 128 bits. The digits are paired:
the first of a pair waits for its partner, and the byte that the two make is shifted into a word,
into the high one as long as fewer than eight bytes are packed and into the low one from then on.

`parsePacking` reads in this way. Between two characters it has some bytes packed and perhaps a
digit waiting, and together they always show the number of the digits passed (`Packing.number`):

* **One byte** is shifted into the word in use, which has room for it (`Packing.Fits.fill`).
* **One digit** multiplies the number by sixteen and adds itself, be it that it waits or that it
  completes a byte (`Packing.Holds.push`).
* **Thirty-two digits** leave none waiting, and all of the number in the two words
  (`Packing.Holds.foldl_push`, `Packing.Holds.uuid_eq`).
* **Both readers agree** on every text, faults included (`parsePacking_eq_parse`).
-/

namespace UniqueId.Text

open Numeral (hexDigit?)

-- powers are those of the natural numbers alone, whatever else is in scope
attribute [local instance (high)] instPowNat

/-! ### The loop -/

/-- What a reader that packs digits into bytes has in hand between two characters. -/
structure Packing where
  high : UInt64 := 0
  low : UInt64 := 0
  /-- The number of bytes packed. -/
  bytes : Nat := 0
  /-- The digit that waits for its partner. -/
  pending : Option Nat := none
deriving DecidableEq, Repr

namespace Packing

/-- Packs a byte, and nothing waits any more. -/
def fill (p : Packing) (byte : UInt8) : Packing :=
  if p.bytes < 8 then
    { p with high := Word.shiftIn p.high byte, bytes := p.bytes + 1, pending := none }
  else { p with low := Word.shiftIn p.low byte, bytes := p.bytes + 1, pending := none }

/-- Takes a digit in: it waits, or makes a byte with the one that is waiting. -/
def push (p : Packing) (digit : Nat) : Packing :=
  match p.pending with
  | none => { p with pending := some digit }
  | some first => p.fill (UInt8.ofNat (first <<< 4 ||| digit))

/-- Reads the bytes that stand from index `i` on. -/
def read (i : Nat) (p : Packing) : Bytes → Except TextFault Packing
  | [] => .ok p
  | b :: rest =>
    if isHyphenIndex i then
      if b = hyphen then read (i + 1) p rest else .error (.character .expectedHyphen i b)
    else if b = hyphen then .error (.character .misplacedHyphen i b)
    else
      match hexDigit? b with
      | some digit => read (i + 1) (p.push digit) rest
      | none => .error (.character .nonHex i b)

/-- The identifier in the two words. -/
def uuid (p : Packing) : Uuid :=
  ⟨p.high, p.low⟩

end Packing

/-- Reads a canonical text, packing its digits into bytes. -/
def parsePacking (text : Bytes) : Except TextFault Uuid :=
  match Packing.read 0 {} (text.take canonicalLength) with
  | .error fault => .error fault
  | .ok p =>
    if text.length = canonicalLength then .ok p.uuid
    else .error (.wrongLength text.length text[canonicalLength]?)

namespace Packing

variable {p : Packing} {u : Uuid} {n digit : Nat} {ds : List Nat}

/-! ### One byte -/

/-- The number of the bytes packed. The low word follows the high one as far as it is in use. -/
def packed (p : Packing) : Nat :=
  p.high.toNat * 256 ^ (p.bytes - 8) + p.low.toNat

/-- The words hold no more than the bytes packed into them. -/
structure Fits (p : Packing) : Prop where
  high_lt : p.high.toNat < 256 ^ min p.bytes 8
  low_lt : p.low.toNat < 256 ^ (p.bytes - 8)

/-- A byte shifted into a word that has room for it. -/
theorem toNat_shiftIn_of_lt {w : UInt64} {k : Nat} (hw : w.toNat < 256 ^ k) (hk : k < 8)
    (b : UInt8) :
    (Word.shiftIn w b).toNat = w.toNat * 256 + b.toNat ∧
      (Word.shiftIn w b).toNat < 256 ^ (k + 1) := by
  have hb : b.toNat < 256 := b.toNat_lt
  have hroom : 256 ^ k ≤ 256 ^ 7 := Nat.pow_le_pow_right (by decide) (by omega)
  have hshift : (Word.shiftIn w b).toNat = w.toNat * 256 + b.toNat := by
    rw [Word.toNat_shiftIn]
    omega
  refine ⟨hshift, ?_⟩
  rw [hshift, Nat.pow_succ]
  omega

/-- **One byte**: it follows the bytes packed before, and the words have room for it. -/
theorem Fits.fill (h : p.Fits) (hp : p.bytes < 16) (byte : UInt8) :
    (p.fill byte).Fits ∧ (p.fill byte).packed = p.packed * 256 + byte.toNat := by
  obtain ⟨high, low, bytes, pending⟩ := p
  obtain ⟨hhigh, hlow⟩ := h
  dsimp only at hhigh hlow hp
  by_cases hbytes : bytes < 8
  · -- the low word is not in use yet
    have hmin : min bytes 8 = bytes := by omega
    have hmin' : min (bytes + 1) 8 = bytes + 1 := by omega
    have hsub : bytes - 8 = 0 := by omega
    have hsub' : bytes + 1 - 8 = 0 := by omega
    rw [hmin] at hhigh
    obtain ⟨hshift, hlt⟩ := toNat_shiftIn_of_lt hhigh hbytes byte
    rw [hsub, Nat.pow_zero] at hlow
    rw [Packing.fill, if_pos hbytes, packed, packed]
    refine ⟨⟨?_, ?_⟩, ?_⟩
    · rwa [hmin']
    · rwa [hsub', Nat.pow_zero]
    · rw [hsub, hsub', Nat.pow_zero, hshift]
      dsimp only
      omega
  · -- the high word is full
    obtain ⟨k, rfl⟩ : ∃ k, bytes = 8 + k := ⟨bytes - 8, by omega⟩
    have hmin : min (8 + k) 8 = 8 := by omega
    have hmin' : min (8 + k + 1) 8 = 8 := by omega
    have hsub : 8 + k - 8 = k := by omega
    have hsub' : 8 + k + 1 - 8 = k + 1 := by omega
    rw [hsub] at hlow
    obtain ⟨hshift, hlt⟩ := toNat_shiftIn_of_lt hlow (by omega) byte
    rw [hmin] at hhigh
    rw [Packing.fill, if_neg hbytes, packed, packed]
    refine ⟨⟨?_, ?_⟩, ?_⟩
    · rwa [hmin']
    · rwa [hsub']
    · rw [hsub, hsub', hshift, Nat.pow_succ]
      ring

theorem bytes_fill (p : Packing) (byte : UInt8) : (p.fill byte).bytes = p.bytes + 1 := by
  rw [fill]
  split <;> rfl

theorem pending_fill (p : Packing) (byte : UInt8) : (p.fill byte).pending = none := by
  rw [fill]
  split <;> rfl

/-! ### One digit -/

/-- The number of the digits taken in. -/
def number (p : Packing) : Nat :=
  p.pending.elim p.packed fun first => p.packed * 16 + first

/-- A packing **holds** an identifier in so many digits, which are those taken in. -/
structure Holds (p : Packing) (n : Nat) (u : Uuid) : Prop where
  /-- Two digits make a byte, and at most one is waiting. -/
  count_eq : 2 * p.bytes + p.pending.toList.length = n
  fits : p.Fits
  pending_lt : ∀ first ∈ p.pending, first < 16
  number_eq : p.number = u.toNat
  toNat_lt : u.toNat < 16 ^ n

theorem holds_nil : Holds {} 0 Uuid.nil where
  count_eq := rfl
  fits := ⟨by decide, by decide⟩
  pending_lt := by simp
  number_eq := rfl
  toNat_lt := by decide

/-- The byte that two digits make. -/
theorem toNat_byte {first : Nat} (hfirst : first < 16) (hdigit : digit < 16) :
    (UInt8.ofNat (first <<< 4 ||| digit)).toNat = first * 16 + digit := by
  have hor : first <<< 4 ||| digit = 2 ^ 4 * first + digit := by
    rw [Nat.shiftLeft_eq, Nat.mul_comm, Bits.two_pow_mul_or hdigit]
  rw [hor, UInt8.toNat_ofNat']
  omega

/-- An identifier in fewer than 32 digits has room for one more. -/
theorem toNat_push_of_lt (hu : u.toNat < 16 ^ n) (hn : n < 32) (hdigit : digit < 16) :
    (u.push digit).toNat = u.toNat * 16 + digit ∧ (u.push digit).toNat < 16 ^ (n + 1) := by
  have hroom : 16 ^ n ≤ 16 ^ 31 := Nat.pow_le_pow_right (by decide) (by omega)
  have hpush : (u.push digit).toNat = u.toNat * 16 + digit := by
    rw [u.toNat_push hdigit]
    omega
  refine ⟨hpush, ?_⟩
  rw [hpush, Nat.pow_succ]
  omega

/-- **One digit**: what a packing holds, it still holds when both have taken in a digit more. -/
theorem Holds.push (h : p.Holds n u) (hn : n < 32) (hdigit : digit < 16) :
    (p.push digit).Holds (n + 1) (u.push digit) := by
  obtain ⟨hpush, hlt⟩ := toNat_push_of_lt h.toNat_lt hn hdigit
  have hcount := h.count_eq
  have hnumber := h.number_eq
  rw [number] at hnumber
  rw [Packing.push]
  cases hpending : p.pending with
  | none =>
    rw [hpending] at hcount hnumber
    refine ⟨?_, ⟨h.fits.high_lt, h.fits.low_lt⟩, ?_, ?_, hlt⟩
    · rw [← hcount]
      rfl
    · rintro first ⟨⟩
      exact hdigit
    · rw [hpush, ← hnumber]
      rfl
  | some first =>
    rw [hpending, Option.toList_some, List.length_singleton] at hcount
    rw [hpending] at hnumber
    have hbyte := toNat_byte (h.pending_lt first hpending) hdigit
    obtain ⟨hfits, hpacked⟩ := h.fits.fill (by omega) (UInt8.ofNat (first <<< 4 ||| digit))
    refine ⟨?_, hfits, ?_, ?_, hlt⟩
    · rw [bytes_fill, pending_fill, ← hcount]
      rfl
    · rw [pending_fill]
      simp
    · rw [number, pending_fill, Option.elim_none, hpacked, hbyte, hpush, ← hnumber,
        Option.elim_some]
      ring

/-- **Digits**, as many as there is room for. -/
theorem Holds.foldl_push (h : p.Holds n u) (hn : n + ds.length ≤ 32) (hds : ∀ d ∈ ds, d < 16) :
    (ds.foldl Packing.push p).Holds (n + ds.length) (ds.foldl Uuid.push u) := by
  induction ds generalizing p n u with
  | nil => exact h
  | cons d ds ih =>
    obtain ⟨hd, hds⟩ := List.forall_mem_cons.mp hds
    rw [List.length_cons] at hn
    have hnext := ih (h.push (by omega) hd) (by omega) hds
    rwa [Nat.add_right_comm] at hnext

/-- After 32 digits none is waiting, and the words show them all. -/
theorem Holds.uuid_eq (h : p.Holds 32 u) : p.uuid = u := by
  have hcount := h.count_eq
  have hnumber := h.number_eq
  rw [number] at hnumber
  cases hpending : p.pending with
  | none =>
    rw [hpending, Option.toList_none, List.length_nil] at hcount
    rw [hpending] at hnumber
    have hbytes : p.bytes = 16 := by omega
    rw [← Uuid.toNat_inj, ← hnumber, Option.elim_none, packed, hbytes]
    rfl
  | some first =>
    rw [hpending, Option.toList_some, List.length_singleton] at hcount
    omega

/-! ### All characters -/

/-- **The loop** goes wrong where the walk does, and takes the digits in otherwise. -/
theorem read_eq (i : Nat) (p : Packing) (u : Uuid) (bs : Bytes) :
    read i p bs = (readCharacters i u bs).map fun _ => (digits bs).foldl push p := by
  induction bs generalizing i p u with
  | nil => rfl
  | cons b rest ih =>
    rw [read, readCharacters, readCharacter, digits_cons, List.foldl_append]
    by_cases hi : isHyphenIndex i
    · by_cases hb : b = hyphen
      · rw [if_pos hi, if_pos hi, if_pos hb, if_pos hb, ih _ _ u, hb, hexDigit?_hyphen]
        rfl
      · rw [if_pos hi, if_pos hi, if_neg hb, if_neg hb]
        rfl
    · by_cases hb : b = hyphen
      · rw [if_neg hi, if_neg hi, if_pos hb, if_pos hb]
        rfl
      · rw [if_neg hi, if_neg hi, if_neg hb, if_neg hb]
        cases hexDigit? b with
        | none => rfl
        | some digit => exact ih _ _ _

end Packing

/-- **Both readers agree**: packing digits into bytes reads what moving up all bits does, and ends
in the same fault where a text is not canonical. -/
theorem parsePacking_eq_parse (text : Bytes) : parsePacking text = parse text := by
  rw [parsePacking, parse, Packing.read_eq 0 {} Uuid.nil]
  cases hread : readCharacters 0 Uuid.nil (text.take canonicalLength) with
  | error fault => rfl
  | ok u =>
    by_cases hlen : text.length = canonicalLength
    · rw [List.take_of_length_le hlen.le] at hread ⊢
      obtain ⟨hfits, rfl⟩ := readCharacters_eq_ok_iff.mp hread
      have hdigits : (digits text).length = 32 :=
        (canonical_iff_fitsFrom.mpr ⟨hlen, hfits⟩).length_digits
      have hholds : ((digits text).foldl Packing.push {}).Holds (0 + (digits text).length)
          ((digits text).foldl Uuid.push Uuid.nil) :=
        Packing.holds_nil.foldl_push (by omega) fun _ => lt_of_mem_digits
      rw [hdigits] at hholds
      simp only [Except.map, if_pos hlen, hholds.uuid_eq]
    · simp only [Except.map, if_neg hlen]

end UniqueId.Text
