import UniqueId.Bytes

/-!
# Levels of severity

Seven levels, from `trace` to `off`, have codes from `0` to `6`. A caller names a level by its
code, and any 32-bit integer can be given: one that is no level's code is compared like every
other, but shows as question marks and has no colour.
-/

namespace UniqueId.Log

/-- The levels of severity. -/
inductive Level where
  | trace
  | debug
  | info
  | warn
  | error
  | fatal
  /-- As a threshold: nothing below it is logged. -/
  | off
deriving DecidableEq, Repr

namespace Level

/-- The code of a level. -/
def code : Level → Int32
  | trace => 0
  | debug => 1
  | info => 2
  | warn => 3
  | error => 4
  | fatal => 5
  | off => 6

/-- All levels, the least severe first. -/
def all : List Level :=
  [trace, debug, info, warn, error, fatal, off]

/-- The name of a level. -/
def name : Level → Bytes
  | trace => Bytes.ascii "TRACE"
  | debug => Bytes.ascii "DEBUG"
  | info => Bytes.ascii "INFO"
  | warn => Bytes.ascii "WARN"
  | error => Bytes.ascii "ERROR"
  | fatal => Bytes.ascii "FATAL"
  | off => Bytes.ascii "OFF"

/-- The parameters of the terminal sequence that colours a level; `off` has no colour. -/
def color? : Level → Option Bytes
  | trace => some (Bytes.ascii "90")
  | debug => some (Bytes.ascii "36")
  | info => some (Bytes.ascii "32")
  | warn => some (Bytes.ascii "33")
  | error => some (Bytes.ascii "31")
  | fatal => some (Bytes.ascii "35;1")
  | off => none

/-- The level with the given code. -/
def ofCode? (code : Int32) : Option Level :=
  all.find? (·.code == code)

/-- The level with exactly the given name. -/
def ofName? (name : Bytes) : Option Level :=
  all.find? (·.name == name)

/-- The level with the given name; every other text means `info`. -/
def parse (name : Bytes) : Level :=
  (ofName? name).getD .info

@[simp] theorem ofCode?_code (level : Level) : ofCode? level.code = some level := by
  cases level <;> decide

@[simp] theorem parse_name (level : Level) : parse level.name = level := by
  cases level <;> decide

end Level

/-! ### Codes shown -/

/-- What stands for a code that is no level's. -/
def foreignName : Bytes :=
  Bytes.ascii "?????"

/-- The name of the level with the given code. -/
def nameOfCode (code : Int32) : Bytes :=
  (Level.ofCode? code).elim foreignName Level.name

/-- The name of the level with the given code, filled up with blanks to five bytes, so that lines
of different levels align. -/
def tagOfCode (code : Int32) : Bytes :=
  let name := nameOfCode code
  name ++ List.replicate (5 - name.length) 32

/-- The terminal sequence with the given parameters. -/
def escape (parameters : Bytes) : Bytes :=
  Bytes.ascii "\x1b[" ++ parameters ++ Bytes.ascii "m"

/-- The terminal sequence that starts the colour of a level, empty where it has none. -/
def colorOfCode (code : Int32) : Bytes :=
  match (Level.ofCode? code).bind Level.color? with
  | some parameters => escape parameters
  | none => []

/-- The terminal sequence that ends any colour. -/
def colorReset : Bytes :=
  escape (Bytes.ascii "0")

/-- All tags have the same length. -/
theorem length_tagOfCode (code : Int32) : (tagOfCode code).length = 5 := by
  rw [tagOfCode, nameOfCode]
  cases Level.ofCode? code with
  | none => decide
  | some level => cases level <;> decide

end UniqueId.Log
