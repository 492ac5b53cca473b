import UniqueId.Operation

/-!
# Sessions

A session works on one identifier in hand and one growable buffer, step by step. A step takes its
arguments from the identifier or the buffer and puts its result back there; a step that ends in a
fault changes neither.
-/

namespace UniqueId

/-- An identifier in hand and a buffer. -/
structure Session where
  hand : Uuid := Uuid.nil
  buffer : Bytes
deriving DecidableEq, Repr

namespace Session

/-- A step of a session. -/
inductive Step where
  /-- Takes an identifier in hand. -/
  | take (u : Uuid)
  /-- Takes the identifier that a text shows. -/
  | parse (text : Bytes)
  /-- Takes the identifier in the buffer. -/
  | decode (offset : Int64)
  /-- Writes the identifier in hand to the buffer. -/
  | encode (offset : Int64)
  /-- Stamps the identifier in hand. -/
  | stamp (code : Int32)
  /-- Stamps the identifier in the buffer, and takes it in hand. -/
  | stampBuffer (offset : Int64) (code : Int32)
  /-- Stamps the high word in hand. -/
  | stampHigh (code : Int32)
  /-- Stamps the low word in hand. -/
  | stampLow
  /-- Tells the kind of the identifier in hand. -/
  | kind
  /-- Tells the timestamp of the identifier in hand. -/
  | timestamp
  /-- Tells the text of the identifier in hand. -/
  | text (letters : LetterCase)
deriving DecidableEq, Repr

/-- What a step tells. -/
inductive Finding where
  | nothing
  | kind (kind : Option Kind)
  | timestamp (millis : UInt64)
  | text (text : Bytes)
deriving DecidableEq, Repr

/-- The memory behind the buffer. -/
def region (s : Session) : Region :=
  Region.ofGrowable s.buffer

/-- The session after a step and what the step tells, or the fault that the step ends in. -/
def step? (s : Session) : Step → Except Fault (Session × Finding)
  | .take u => .ok ({ s with hand := u }, .nothing)
  | .parse text => ((Text.parse text).mapError .text).map fun u => ({ s with hand := u }, .nothing)
  | .decode offset =>
    ((s.region.decode offset).mapError .argument).map fun u => ({ s with hand := u }, .nothing)
  | .encode offset =>
    ((s.region.encode offset s.hand).mapError .argument).map fun region =>
      ({ s with buffer := region.contents }, .nothing)
  | .stamp code =>
    ((s.hand.stampWithCode code).mapError .argument).map fun u => ({ s with hand := u }, .nothing)
  | .stampBuffer offset code =>
    ((s.region.stamp offset code).mapError .argument).map fun (region, u) =>
      ({ hand := u, buffer := region.contents }, .nothing)
  | .stampHigh code =>
    ((Uuid.stampHighWithCode code s.hand.high).mapError .argument).map fun high =>
      ({ s with hand := { s.hand with high } }, .nothing)
  | .stampLow =>
    .ok ({ s with hand := { s.hand with low := Uuid.stampLow s.hand.low } }, .nothing)
  | .kind => .ok (s, .kind s.hand.kind?)
  | .timestamp => (s.hand.timestamp.mapError .argument).map fun millis => (s, .timestamp millis)
  | .text letters => .ok (s, .text (s.hand.toText letters))

/-- The session after a step, with what the step tells or the fault it ends in. -/
def step (s : Session) (step : Step) : Session × Except Fault Finding :=
  match s.step? step with
  | .ok (next, finding) => (next, .ok finding)
  | .error fault => (s, .error fault)

/-- Every step's outcome in turn, with the session after it. -/
def run (s : Session) : List Step → List (Session × Except Fault Finding)
  | [] => []
  | step :: steps => s.step step :: (s.step step).1.run steps

end Session

end UniqueId
