import UniqueId.Log.Level
import UniqueId.Text.Printer

/-!
# Log entries

An **entry** is what a caller asks to have logged: a level, the component that speaks, and a
message given as a format with arguments. Every placeholder `{}` of the format takes the next
argument. Substitution looks at the format alone: what an argument brings in is never expanded,
arguments left over are ignored, and once none is left the rest of the format stands as it is.

A component and a format end at their first NUL; an argument does not.
-/

namespace UniqueId.Log

/-! ### Arguments -/

/-- An argument of a message. -/
inductive Argument where
  | text (t : Bytes)
  | int (i : Int64)
  | nat (n : UInt64)
  | bool (b : Bool)
  | byte (b : UInt8)
  | uuid (u : Uuid)
deriving DecidableEq, Repr

/-- The text of an argument. A truth value is written `1` or `0`. -/
def Argument.render : Argument → Bytes
  | text t => t
  | int i => Numeral.signedDecimal i.toInt
  | nat n => Numeral.decimal n.toNat
  | bool b => if b then Bytes.ascii "1" else Bytes.ascii "0"
  | byte b => [b]
  | uuid u => u.toText .lower

/-! ### Substitution -/

/-- The byte that opens a placeholder. -/
def openBrace : UInt8 := 0x7B

/-- The byte that closes a placeholder. -/
def closeBrace : UInt8 := 0x7D

/-- The placeholder in a format. -/
def placeholder : Bytes :=
  [openBrace, closeBrace]

/-- The format with its placeholders replaced by the texts, from left to right. -/
def substitute : Bytes → List Bytes → Bytes
  | b :: c :: format, text :: texts =>
    if b = openBrace ∧ c = closeBrace then text ++ substitute format texts
    else b :: substitute (c :: format) (text :: texts)
  | format, _ => format

@[simp] theorem substitute_nil (format : Bytes) : substitute format [] = format := by
  unfold substitute
  split <;> simp_all

@[simp] theorem substitute_placeholder (format text : Bytes) (texts : List Bytes) :
    substitute (placeholder ++ format) (text :: texts) = text ++ substitute format texts := by
  simp [placeholder, substitute]

/-- A byte that opens no placeholder where it stands is copied. -/
theorem substitute_cons {b : UInt8} {format : Bytes}
    (h : ¬ (b = openBrace ∧ format.head? = some closeBrace)) (texts : List Bytes) :
    substitute (b :: format) texts = b :: substitute format texts := by
  cases texts with
  | nil => rw [substitute_nil, substitute_nil]
  | cons text texts =>
    cases format with
    | nil => rfl
    | cons c format => rw [substitute, if_neg (by simpa using h)]

theorem substitute_append_of_notMem {bs : Bytes} (h : openBrace ∉ bs) (format : Bytes)
    (texts : List Bytes) : substitute (bs ++ format) texts = bs ++ substitute format texts := by
  induction bs with
  | nil => rfl
  | cons b bs ih =>
    simp only [List.mem_cons, not_or] at h
    rw [List.cons_append, substitute_cons (fun hb => h.1 hb.1.symm), ih h.2, List.cons_append]

/-! ### Entries -/

/-- What a caller asks to have logged. -/
structure Entry where
  /-- The code of the level. -/
  level : Int32
  /-- Who speaks. -/
  component : Bytes
  /-- The message, with placeholders. -/
  format : Bytes
  /-- What the placeholders stand for. -/
  arguments : List Argument
deriving DecidableEq, Repr

namespace Entry

/-- The message of an entry. -/
def message (e : Entry) : Bytes :=
  substitute e.format.untilNul (e.arguments.map Argument.render)

/-- The level's tag in brackets, coloured or not. -/
def header (color : Bool) (e : Entry) : Bytes :=
  let tag := Bytes.ascii "[" ++ tagOfCode e.level ++ Bytes.ascii "]"
  if color then colorOfCode e.level ++ tag ++ colorReset else tag

/-- The line of an entry written at the given time. -/
def line (color : Bool) (time : Bytes) (e : Entry) : Bytes :=
  Bytes.ascii "[" ++ time ++ Bytes.ascii "] " ++ e.header color ++ Bytes.ascii " ["
    ++ e.component.untilNul ++ Bytes.ascii "] " ++ e.message ++ Bytes.ascii "\n"

end Entry

end UniqueId.Log
