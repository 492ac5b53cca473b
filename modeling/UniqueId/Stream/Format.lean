import UniqueId.Numeral

/-!
# Settings of an output stream

A formatted output stream keeps settings between one insertion and the next:

* **flags**: the base of numbers, the side on which a field is adjusted, whether letters are upper
  case and bases are shown, and others that are merely kept. They stay until changed;
* the **fill** byte, which stays too;
* the **width** of the next field, which every insertion uses up.

`Format.field` is the one rule of padding, for numbers and texts alike.

What else a stream has is left out. Its locale is taken to be the classic one, in which digits are
not grouped. Its error state is taken to be clear and to stay so, whence every insertion writes, and
the exception mask has nothing to raise.
-/

namespace UniqueId.Stream

/-- The base in which numbers are written. -/
inductive Base where
  | decimal
  | hexadecimal
  | octal
deriving DecidableEq, Repr

/-- Where a narrow item stands in its field. -/
inductive Adjustment where
  | left
  | right
  /-- Fill goes between the mark of the base and the digits. -/
  | internal
deriving DecidableEq, Repr

/-- The settings that stay until they are changed. Any number of bases and of sides can be asked
for at once; one that is not asked for alone is not heeded. -/
structure Flags where
  decimal : Bool := true
  hexadecimal : Bool := false
  octal : Bool := false
  left : Bool := false
  right : Bool := false
  internal : Bool := false
  uppercase : Bool := false
  showBase : Bool := false
  /-- The flags that numbers and texts do not look at, as one word. -/
  others : UInt32 := 0
deriving DecidableEq, Repr

/-- The settings of an output stream. A fresh stream fills with blanks and has no width pending. -/
structure Format where
  flags : Flags := {}
  fill : UInt8 := 32
  /-- The least width of the next field. -/
  width : Int := 0
deriving DecidableEq, Repr

/-- The number that a base has as its name in arithmetic. -/
def Base.radix : Base → Nat
  | decimal => 10
  | hexadecimal => 16
  | octal => 8

namespace Flags

/-- The base of numbers, decimal unless another one is asked for alone. -/
def base (flags : Flags) : Base :=
  match flags.decimal, flags.hexadecimal, flags.octal with
  | false, true, false => .hexadecimal
  | false, false, true => .octal
  | _, _, _ => .decimal

/-- The side that items are adjusted to, if one is asked for alone. Where there is none, they are
adjusted to the right. -/
def adjustment (flags : Flags) : Option Adjustment :=
  match flags.left, flags.right, flags.internal with
  | true, false, false => some .left
  | false, true, false => some .right
  | false, false, true => some .internal
  | _, _, _ => none

/-- The flags with one base asked for, and that alone. -/
def withBase (flags : Flags) (base : Base) : Flags :=
  { flags with
    decimal := base == .decimal
    hexadecimal := base == .hexadecimal
    octal := base == .octal }

/-- The flags with one side asked for, and that alone. -/
def withAdjustment (flags : Flags) (side : Adjustment) : Flags :=
  { flags with left := side == .left, right := side == .right, internal := side == .internal }

@[simp] theorem base_withBase (flags : Flags) (base : Base) :
    (flags.withBase base).base = base := by
  cases base <;> rfl

@[simp] theorem adjustment_withAdjustment (flags : Flags) (side : Adjustment) :
    (flags.withAdjustment side).adjustment = some side := by
  cases side <;> rfl

/-- The case of the digits above nine. -/
def letters (flags : Flags) : LetterCase :=
  if flags.uppercase then .upper else .lower

/-- The mark in front of a hexadecimal number other than zero, where bases are shown. -/
def mark (flags : Flags) (n : UInt64) : Bytes :=
  if flags.showBase ∧ n ≠ 0 ∧ flags.base = .hexadecimal then
    if flags.uppercase then Bytes.ascii "0X" else Bytes.ascii "0x"
  else []

/-- The digits of a number. Where bases are shown, an octal number other than zero has a leading
zero among its digits. -/
def body (flags : Flags) (n : UInt64) : Bytes :=
  let digits := Numeral.numeral flags.letters flags.base.radix n.toNat
  if flags.showBase ∧ n ≠ 0 ∧ flags.base = .octal then 48 :: digits else digits

/-- The names of the flags that are set, in alphabetical order. -/
def names (flags : Flags) : List String :=
  [("dec", flags.decimal), ("hex", flags.hexadecimal), ("internal", flags.internal),
    ("left", flags.left), ("oct", flags.octal), ("right", flags.right),
    ("showbase", flags.showBase), ("uppercase", flags.uppercase)].filterMap
    fun (name, isSet) => if isSet then some name else none

end Flags

namespace Format

/-- The fill that an item of the given length needs to reach the width. -/
def padding (f : Format) (length : Nat) : Bytes :=
  List.replicate (f.width - length).toNat f.fill

/-- An item, made of a mark and a body, filled up to the width. -/
def field (f : Format) (mark body : Bytes) : Bytes :=
  let padding := f.padding (mark.length + body.length)
  match f.flags.adjustment with
  | some .left => mark ++ body ++ padding
  | some .internal => mark ++ padding ++ body
  | some .right | none => padding ++ mark ++ body

/-- The text of a number under the current settings. -/
def number (f : Format) (n : UInt64) : Bytes :=
  f.field (f.flags.mark n) (f.flags.body n)

/-- The text of a text under the current settings. -/
def text (f : Format) (t : Bytes) : Bytes :=
  f.field [] t

/-- **No width, no fill**: an item at least as long as the width stands as it is. -/
theorem field_of_width_le {f : Format} {mark body : Bytes}
    (h : f.width ≤ (mark.length + body.length : Nat)) : f.field mark body = mark ++ body := by
  have hpad : f.padding (mark.length + body.length) = [] := by
    rw [padding, Int.toNat_of_nonpos (by omega), List.replicate_zero]
  simp only [field, hpad]
  split <;> simp

theorem length_field (f : Format) (mark body : Bytes) :
    ((f.field mark body).length : Int) = max f.width (mark.length + body.length : Nat) := by
  have hlen : (f.padding (mark.length + body.length)).length =
      (f.width - (mark.length + body.length : Nat)).toNat := by
    rw [padding, List.length_replicate]
  simp only [field]
  split <;> simp only [List.length_append, hlen] <;> omega

end Format

end UniqueId.Stream
