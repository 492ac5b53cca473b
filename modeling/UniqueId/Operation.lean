import UniqueId.Region
import UniqueId.Text.Printer
import UniqueId.Text.Reader
import UniqueId.Time.Timestamp

/-!
# Operations

Everything a caller can ask of the library in a single call, as data: an **operation** has an
**answer** or ends in a fault. Nothing is remembered between operations, so sequences of them can
be stated as lists.

What a logger is told of an operation is left to `Operation.course`.
-/

namespace UniqueId

/-- A single call of the library. -/
inductive Operation where
  /-- Reads a canonical text. -/
  | parse (text : Bytes)
  /-- Reads a text that ends at its first NUL, if there is a text. -/
  | parseUntilNul (text : Option Bytes)
  /-- Decides whether a text is canonical. -/
  | isCanonical (text : Bytes)
  /-- Writes the canonical text. -/
  | toText (letters : LetterCase) (u : Uuid)
  /-- Checks that sixteen bytes are in reach. -/
  | check (region : Region) (offset : Int64)
  /-- Reads an identifier in memory. -/
  | decode (region : Region) (offset : Int64)
  /-- Writes an identifier to memory. -/
  | encode (region : Region) (offset : Int64) (u : Uuid)
  /-- Writes the sixteen bytes. -/
  | toBytes (u : Uuid)
  /-- Tells the kind of an identifier, if there is an identifier. -/
  | kind (u : Option Uuid)
  /-- Stamps a code on a high word. -/
  | stampHigh (code : Int32) (high : UInt64)
  /-- Stamps the standard variant on a low word. -/
  | stampLow (low : UInt64)
  /-- Stamps a code on an identifier. -/
  | stamp (code : Int32) (u : Uuid)
  /-- Stamps a code on an identifier in memory. -/
  | stampRegion (region : Region) (offset : Int64) (code : Int32)
  /-- Tells the timestamp of an identifier read as one of the kind with the given code. -/
  | timestampWithCode (code : Option Int32) (u : Uuid)
  /-- Tells the timestamp of an identifier read as one of its own kind. -/
  | timestamp (u : Uuid)
deriving DecidableEq, Repr

/-- The answer to an operation. -/
inductive Answer where
  | done
  | bool (b : Bool)
  | uuid (u : Uuid)
  | word (w : UInt64)
  | bytes (bs : Bytes)
  | kind (kind : Option Kind)
  | region (region : Region)
  | stamped (region : Region) (u : Uuid)
deriving DecidableEq, Repr

/-- The answer to an operation, or the fault it ends in. -/
def Operation.run : Operation → Except Fault Answer
  | parse text => ((Text.parse text).mapError .text).map .uuid
  | parseUntilNul text => ((Text.parseUntilNul text).mapError .text).map .uuid
  | isCanonical text => .ok (.bool (Text.isCanonical text))
  | toText letters u => .ok (.bytes (u.toText letters))
  | check region offset => ((region.check offset).mapError .argument).map fun _ => .done
  | decode region offset => ((region.decode offset).mapError .argument).map .uuid
  | encode region offset u => ((region.encode offset u).mapError .argument).map .region
  | toBytes u => .ok (.bytes u.toBytes)
  | kind u => .ok (.kind (u.bind Uuid.kind?))
  | stampHigh code high => ((Uuid.stampHighWithCode code high).mapError .argument).map .word
  | stampLow low => .ok (.word (Uuid.stampLow low))
  | stamp code u => ((u.stampWithCode code).mapError .argument).map .uuid
  | stampRegion region offset code =>
    ((region.stamp offset code).mapError .argument).map fun (region, u) => .stamped region u
  | timestampWithCode code u => ((u.timestampWithCode code).mapError .argument).map .word
  | timestamp u => (u.timestamp.mapError .argument).map .word

end UniqueId
