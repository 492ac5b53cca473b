import UniqueId.Fault
import UniqueId.Time.Layout
import UniqueId.Time.Ticks
import UniqueId.Uuid.Kind

/-!
# Timestamps

The timestamp of an identifier is its time in milliseconds since 1970, read in the layout of its
kind, and `0` for kinds that hold no time. It is a 64-bit word: a time before 1970 shows as the
two's complement of the negative count.

The kind may be given as a code. A code that belongs to no kind is a fault; an absent one stands
for an unclassified identifier, whose timestamp is `0`.
-/

namespace UniqueId.Uuid

/-- The timestamp of an identifier read as one of the given kind. -/
def timestampAs (kind : Kind) (u : Uuid) : UInt64 :=
  match kind with
  | .timeBased => (Time.millisOfTicks u.ticks).toUInt64
  | .timeReordered => (Time.millisOfTicks u.reorderedTicks).toUInt64
  | .timeEpoch => u.millis
  | .unknown | .dce | .nameBasedMd5 | .random | .nameBasedSha1 | .freeForm => 0

/-- The timestamp of an identifier read as one of the kind with the given code. -/
def timestampWithCode (code : Option Int32) (u : Uuid) : Except ArgumentFault UInt64 :=
  match code with
  | none => .ok 0
  | some code =>
    match Kind.ofCode? code with
    | some kind => .ok (u.timestampAs kind)
    | none => .error (.unknownKind code)

/-- The timestamp of an identifier read as one of its own kind. -/
def timestamp (u : Uuid) : Except ArgumentFault UInt64 :=
  u.timestampWithCode (u.kind?.map Kind.code)

/-- The kind that an identifier tells is never foreign, so its own timestamp always exists. -/
theorem timestamp_eq_ok (u : Uuid) : u.timestamp = .ok (u.kind?.elim 0 u.timestampAs) := by
  rw [timestamp]
  cases u.kind? <;> simp [timestampWithCode]

end UniqueId.Uuid
