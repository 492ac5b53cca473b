import UniqueId.Fault
import UniqueId.Text.Canonical
import UniqueId.Uuid.Basic

/-!
# Reading canonical text

The reader passes once over the first 36 bytes, from left to right:

* a hyphen in its place is skipped;
* a digit is moved into the identifier at its low end;
* anything else ends the reading with a fault at that index.

Only then is the length looked at, so a shifted hyphen is reported where it stands and not as a
wrong length.
-/

namespace UniqueId

-- powers are those of the natural numbers alone, whatever else is in scope
attribute [local instance (high)] instPowNat

/-- The identifier moved up by four bits, the digit in the place that becomes free. -/
def Uuid.push (u : Uuid) (digit : Nat) : Uuid :=
  ⟨u.high <<< 4 ||| u.low >>> 60, u.low <<< 4 ||| UInt64.ofNat digit⟩

/-- A digit pushed multiplies by sixteen and adds, the top digit lost. -/
theorem Uuid.toNat_push (u : Uuid) {digit : Nat} (h : digit < 16) :
    (u.push digit).toNat = (u.toNat * 16 + digit) % 2 ^ (128 : Nat) := by
  have hhigh : u.high.toNat < 2 ^ 64 := u.high.toNat_lt
  have hlow : u.low.toNat < 2 ^ 64 := u.low.toNat_lt
  have hfour : (4 : UInt64).toNat % 64 = 4 := rfl
  have hsixty : (60 : UInt64).toNat % 64 = 60 := rfl
  have hhigh' : u.high.toNat * 2 ^ 4 % 2 ^ 64 = 2 ^ 4 * (u.high.toNat % 2 ^ 60) := by omega
  have hlow' : u.low.toNat * 2 ^ 4 % 2 ^ 64 = 2 ^ 4 * (u.low.toNat % 2 ^ 60) := by omega
  have hdigit : (UInt64.ofNat digit).toNat = digit := by
    rw [UInt64.toNat_ofNat']
    omega
  simp only [toNat, push, UInt64.toNat_or, UInt64.toNat_shiftLeft, UInt64.toNat_shiftRight, hfour,
    hsixty, hdigit, Nat.shiftLeft_eq, Nat.shiftRight_eq_div_pow, hhigh', hlow']
  rw [Bits.two_pow_mul_or (show digit < 2 ^ 4 from h), Bits.two_pow_mul_or (by omega)]
  omega

namespace Text

/-- What the byte at an index contributes: nothing for a hyphen in its place, the value of a
digit, or a fault. -/
def readCharacter (i : Nat) (b : UInt8) : Except CharacterFault (Option Nat) :=
  if isHyphenIndex i then
    if b = hyphen then .ok none else .error .expectedHyphen
  else if b = hyphen then .error .misplacedHyphen
  else match Numeral.hexDigit? b with
    | some digit => .ok (some digit)
    | none => .error .nonHex

/-- Reads the bytes that stand from index `i` on, the identifier read so far given. -/
def readCharacters (i : Nat) (read : Uuid) : Bytes → Except TextFault Uuid
  | [] => .ok read
  | b :: rest =>
    match readCharacter i b with
    | .ok none => readCharacters (i + 1) read rest
    | .ok (some digit) => readCharacters (i + 1) (read.push digit) rest
    | .error kind => .error (.character kind i b)

/-- Reads a canonical text. -/
def parse (text : Bytes) : Except TextFault Uuid :=
  match readCharacters 0 Uuid.nil (text.take canonicalLength) with
  | .error fault => .error fault
  | .ok u =>
    if text.length = canonicalLength then .ok u
    else .error (.wrongLength text.length text[canonicalLength]?)

/-- Reads a text that ends at its first NUL, if there is a text. -/
def parseUntilNul : Option Bytes → Except TextFault Uuid
  | none => .error .missing
  | some text => parse text.untilNul

theorem readCharacter_isOk (i : Nat) (b : UInt8) :
    (readCharacter i b).isOk = admits i b := by
  rw [readCharacter, admits]
  split
  · next hi =>
    split
    · next hb => simp [hb, Except.isOk, Except.toBool]
    · next hb => simp [hb, Except.isOk, Except.toBool]
  · next hi =>
    rw [← Numeral.hexDigit?_isSome]
    split
    · next hb => subst hb; rfl
    · next hb => cases Numeral.hexDigit? b <;> rfl

end Text

end UniqueId
