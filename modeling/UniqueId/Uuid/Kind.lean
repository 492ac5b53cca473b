import UniqueId.Uuid.Basic

/-!
# Kinds of identifiers

The version field names the scheme an identifier was generated by. Schemes have **codes**, the
numbers that stand in the field; callers hand codes over as 32-bit integers, so a code need not
belong to any kind.

Classification is advisory: it never fails, and answers `none` where the field tells nothing,
which is when it is above eight, and when it is zero in an identifier that is not nil.
-/

namespace UniqueId

/-- The generation schemes. -/
inductive Kind where
  /-- Only the nil identifier. -/
  | unknown
  /-- Ticks since 1582, the low part first. -/
  | timeBased
  /-- Security identifiers. -/
  | dce
  /-- An MD5 digest of a name. -/
  | nameBasedMd5
  /-- Random bits. -/
  | random
  /-- A SHA-1 digest of a name. -/
  | nameBasedSha1
  /-- Ticks since 1582, the high part first. -/
  | timeReordered
  /-- Milliseconds since 1970. -/
  | timeEpoch
  /-- Whatever the vendor chose. -/
  | freeForm
deriving DecidableEq, Repr

namespace Kind

/-- The code of a kind, as it stands in the version field. -/
def code : Kind → Int32
  | unknown => 0
  | timeBased => 1
  | dce => 2
  | nameBasedMd5 => 3
  | random => 4
  | nameBasedSha1 => 5
  | timeReordered => 6
  | timeEpoch => 7
  | freeForm => 8

/-- The kind with the given version number. -/
def ofVersion? : Nat → Option Kind
  | 0 => some unknown
  | 1 => some timeBased
  | 2 => some dce
  | 3 => some nameBasedMd5
  | 4 => some random
  | 5 => some nameBasedSha1
  | 6 => some timeReordered
  | 7 => some timeEpoch
  | 8 => some freeForm
  | _ => none

/-- The kind with the given code; no kind has a code below zero or above eight. -/
def ofCode? (code : Int32) : Option Kind :=
  if 0 ≤ code then ofVersion? code.toNatClampNeg else none

/-- The name of a kind. -/
def name : Kind → String
  | unknown => "unknown"
  | timeBased => "time-based"
  | dce => "dce"
  | nameBasedMd5 => "name-based-md5"
  | random => "random-based"
  | nameBasedSha1 => "name-based-sha1"
  | timeReordered => "time-based-reordered"
  | timeEpoch => "time-based-epoch"
  | freeForm => "free-form"

/-- The name shown for a code, which is `invalid` where no kind has it. -/
def nameOfCode (code : Int32) : String :=
  (ofCode? code).elim "invalid" name

@[simp] theorem ofCode?_code (k : Kind) : ofCode? k.code = some k := by
  cases k <;> decide

theorem code_injective {k l : Kind} (h : k.code = l.code) : k = l := by
  have := congrArg ofCode? h
  simpa using this

end Kind

/-- The kind that the version field tells, if it tells one. -/
def Uuid.kind? (u : Uuid) : Option Kind :=
  match Kind.ofVersion? u.version with
  | some .unknown => if u = nil then some .unknown else none
  | other => other

end UniqueId
