import UniqueId.Diagnostics
import UniqueId.Operation

/-!
# The course of an operation

`Operation.run` tells how an operation ends. The **course** of an operation tells what happens until
then: which calls of the logger are made, and in which order. A component that has found a fault
logs it first and ends the operation then. Operations are put together from the components' work,
and some let a component look twice:

* a text is read first, and its length looked at afterwards;
* an identifier in memory is stamped after its place and the code have been checked, and read from
  there after the place has been checked again.

A logger follows a course to its end (`Log.Logger.follow`).
-/

namespace UniqueId

/-- What a computation does: it calls the logger, any number of times, and then ends. -/
inductive Course (α : Type) where
  /-- Ends with an answer. -/
  | answer (a : α)
  /-- Ends in a fault. -/
  | fault (fault : Fault)
  /-- Calls the logger and goes on. -/
  | call (call : Log.Call) (rest : Course α)
deriving DecidableEq, Repr

namespace Course

variable {α β : Type}

/-- The course of two computations, the second of which takes the answer of the first. -/
def bind (x : Course α) (next : α → Course β) : Course β :=
  match x with
  | answer a => next a
  | fault f => fault f
  | call c rest => call c (rest.bind next)

instance : Monad Course where
  pure := answer
  bind := bind

@[simp] theorem answer_bind (a : α) (next : α → Course β) : (answer a >>= next) = next a := rfl

end Course

/-! ### What components do -/

section Components

variable {α : Type} (time : Bytes)

/-- A component has found a fault: it logs the fault's message and ends the computation. -/
def Component.refuse (component : Component) (fault : Fault) : Course α :=
  .call (.log time (component.entry fault.message)) (.fault fault)

/-- A component has looked: it goes on with what it has got, or refuses. -/
def Component.pass (component : Component) : Except Fault α → Course α
  | .ok a => .answer a
  | .error fault => component.refuse time fault

namespace Course

/-- Reads a canonical text. -/
def parse (text : Bytes) : Course Uuid := do
  let u ← Component.stringCodec.pass time
    ((Text.readCharacters 0 Uuid.nil (text.take Text.canonicalLength)).mapError .text)
  if text.length = Text.canonicalLength then
    return u
  else
    Component.stringCodec.refuse time
      (.text (.wrongLength text.length text[Text.canonicalLength]?))

/-- Reads a text that ends at its first NUL, if there is a text. -/
def parseUntilNul : Option Bytes → Course Uuid
  | none => .call (.log time missingTextEntry) (.fault (.text .missing))
  | some text => parse time text.untilNul

/-- Checks that sixteen bytes are in reach. -/
def check (region : Region) (offset : Int64) : Course Unit :=
  Component.byteCodec.pass time ((region.check offset).mapError .argument)

/-- Reads an identifier in memory. -/
def decode (region : Region) (offset : Int64) : Course Uuid := do
  check time region offset
  return Uuid.ofBytes (region.contents.window offset.toNatClampNeg Uuid.size)

/-- Writes an identifier to memory. -/
def encode (region : Region) (offset : Int64) (u : Uuid) : Course Region := do
  check time region offset
  return { region with
    bytes := some (region.contents.splice offset.toNatClampNeg u.toBytes) }

/-- Checks that a code fits the version field. -/
def version (code : Int32) : Course (Fin 16) :=
  Component.versionTagger.pass time ((versionOfCode code).mapError .argument)

/-- Stamps a code on a high word. -/
def stampHigh (code : Int32) (high : UInt64) : Course UInt64 := do
  let version ← version time code
  return Uuid.stampHigh version high

/-- Stamps a code on an identifier. -/
def stamp (code : Int32) (u : Uuid) : Course Uuid := do
  let high ← stampHigh time code u.high
  return ⟨high, Uuid.stampLow u.low⟩

/-- Stamps a code on an identifier in memory, and reads the identifier from there. -/
def stampRegion (region : Region) (offset : Int64) (code : Int32) : Course (Region × Uuid) := do
  check time region offset
  let version ← version time code
  let stamped := { region with
    bytes := some (Region.stampedBytes region.contents offset.toNatClampNeg version) }
  let u ← decode time stamped offset
  return (stamped, u)

/-- Tells the timestamp of an identifier read as one of the kind with the given code. -/
def timestampWithCode (code : Option Int32) (u : Uuid) : Course UInt64 :=
  match code with
  | none => .answer 0
  | some code =>
    match Kind.ofCode? code with
    | some kind => .answer (u.timestampAs kind)
    | none => Component.timestampExtractor.refuse time (.argument (.unknownKind code))

end Course

/-- The course of an operation that is performed at the given time. -/
def Operation.course : Operation → Course Answer
  | parse text => .uuid <$> Course.parse time text
  | parseUntilNul text => .uuid <$> Course.parseUntilNul time text
  | isCanonical text => .answer (.bool (Text.isCanonical text))
  | toText letters u => .answer (.bytes (u.toText letters))
  | check region offset => (fun _ => .done) <$> Course.check time region offset
  | decode region offset => .uuid <$> Course.decode time region offset
  | encode region offset u => .region <$> Course.encode time region offset u
  | toBytes u => .answer (.bytes u.toBytes)
  | kind u => .answer (.kind (u.bind Uuid.kind?))
  | stampHigh code high => .word <$> Course.stampHigh time code high
  | stampLow low => .answer (.word (Uuid.stampLow low))
  | stamp code u => .uuid <$> Course.stamp time code u
  | stampRegion region offset code =>
    (fun (region, u) => .stamped region u) <$> Course.stampRegion time region offset code
  | timestampWithCode code u => .word <$> Course.timestampWithCode time code u
  | timestamp u => .word <$> Course.timestampWithCode time (u.kind?.map Kind.code) u

end Components

/-! ### Under a logger -/

namespace Log.Logger

variable {α : Type}

/-- Follows a course to its end: the settings there, the lines written on the way, and how it
ends. -/
def follow (l : Logger) : Course α → Logger × List Emission × Except Fault α
  | .answer a => (l, [], .ok a)
  | .fault fault => (l, [], .error fault)
  | .call c rest =>
    let (last, lines, outcome) := (l.step c).1.follow rest
    (last, (l.step c).2.toList ++ lines, outcome)

/-- Performs operations, each at its time: the settings at the end, and for each of the operations
the lines it wrote and how it ended. -/
def perform (l : Logger) :
    List (Bytes × Operation) → Logger × List (List Emission × Except Fault Answer)
  | [] => (l, [])
  | (time, op) :: later =>
    let (next, seen) := l.follow (op.course time)
    let (last, others) := next.perform later
    (last, seen :: others)

theorem follow_call (l : Logger) (c : Call) (rest : Course α) :
    l.follow (.call c rest) =
      (((l.step c).1.follow rest).1, (l.step c).2.toList ++ ((l.step c).1.follow rest).2.1,
        ((l.step c).1.follow rest).2.2) := rfl

theorem perform_cons (l : Logger) (time : Bytes) (op : Operation)
    (later : List (Bytes × Operation)) :
    l.perform ((time, op) :: later) =
      (((l.follow (op.course time)).1.perform later).1,
        (l.follow (op.course time)).2 :: ((l.follow (op.course time)).1.perform later).2) := rfl

end Log.Logger

end UniqueId
