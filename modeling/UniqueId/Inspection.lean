import UniqueId.Operation

/-!
# Inspections

An inspection sends an identifier the whole way round: it is read from text, written into a padded
buffer, read from there, classified, asked for its time and written as text again. The padding
makes visible that writing touches sixteen bytes and no other.
-/

namespace UniqueId

/-- What an inspection finds. -/
structure Inspection where
  /-- The identifier, as read from the buffer. -/
  uuid : Uuid
  /-- The buffer it was read from. -/
  wire : Bytes
  kind : Option Kind
  timestamp : UInt64
  /-- The canonical text, in lower case. -/
  text : Bytes
deriving DecidableEq, Repr

namespace Inspection

/-- The byte that the buffer is padded with. -/
def paddingByte : UInt8 := 0xEE

/-- The number of padding bytes after the identifier. -/
def trailing : Nat := 2

/-- Inspects the identifier that a text shows, with some padding in front of it in the buffer. -/
def ofText (padding : Nat) (text : Bytes) : Except Fault Inspection := do
  let u ← (Text.parse text).mapError .text
  let blank := List.replicate (padding + Uuid.size + trailing) paddingByte
  let offset := Int64.ofNat padding
  let region ← ((Region.ofGrowable blank).encode offset u).mapError .argument
  let decoded ← (region.decode offset).mapError .argument
  let kind := decoded.kind?
  let timestamp ← (decoded.timestampWithCode (kind.map Kind.code)).mapError .argument
  return {
    uuid := decoded
    wire := region.contents
    kind
    timestamp
    text := decoded.toText .lower }

end Inspection

end UniqueId
