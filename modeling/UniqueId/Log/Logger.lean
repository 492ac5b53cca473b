import UniqueId.Log.Entry

/-!
# The logger

A logger has three settings: a **threshold**, below which entries are dropped, whether lines are
**coloured**, and the **sink** that lines go to. Each setting holds from the moment it is set until
it is set again.

A call either changes a setting and writes nothing, or asks for an entry to be logged and changes
nothing (`Logger.step`). The clock is the caller's: a call carries the time of its line.

Of a sink there is only the name. The stream behind it is taken to pass lines on as they are: it
has no width pending when a line comes, so that its fill does not show, a locale that leaves texts
alone, and an error state that is clear and stays so.
-/

namespace UniqueId.Log

/-- Where lines go, by name alone. -/
inductive Sink where
  /-- The console, where lines go unless a caller chose another sink. -/
  | console
  /-- A sink of the caller's own, by name. -/
  | named (name : String)
deriving DecidableEq, Repr

/-- The settings of a logger. -/
structure Logger where
  /-- The code of the least severe level that is logged. -/
  threshold : Int32 := Level.info.code
  color : Bool := true
  sink : Sink := .console
deriving DecidableEq, Repr

/-- One line, and the sink that received it. -/
structure Emission where
  sink : Sink
  line : Bytes
deriving DecidableEq, Repr

/-- A call of a logger. -/
inductive Call where
  | setThreshold (level : Int32)
  | setColor (on : Bool)
  /-- Sends lines to the given sink from now on, to the console if none is given. -/
  | setSink (sink : Option Sink)
  | log (time : Bytes) (entry : Entry)
  /-- Logs if the condition holds. -/
  | logIf (condition : Bool) (time : Bytes) (entry : Entry)
deriving DecidableEq, Repr

namespace Logger

/-- Whether entries of a level are logged. Codes compare as signed numbers. -/
def isEnabled (l : Logger) (level : Int32) : Bool :=
  l.threshold ≤ level

/-- Logs an entry, if its level is enabled. -/
def log (l : Logger) (time : Bytes) (entry : Entry) : Option Emission :=
  if l.isEnabled entry.level then some ⟨l.sink, entry.line l.color time⟩ else none

/-- The settings after a call, and the line it wrote, if it wrote one. -/
def step (l : Logger) : Call → Logger × Option Emission
  | .setThreshold level => ({ l with threshold := level }, none)
  | .setColor on => ({ l with color := on }, none)
  | .setSink sink => ({ l with sink := sink.getD .console }, none)
  | .log time entry => (l, l.log time entry)
  | .logIf condition time entry =>
    (l, if condition && l.isEnabled entry.level then l.log time entry else none)

/-- The settings after a sequence of calls. -/
def settings (l : Logger) (calls : List Call) : Logger :=
  calls.foldl (fun l call => (l.step call).1) l

/-- The lines that a sequence of calls writes, in order. -/
def run (l : Logger) : List Call → List Emission
  | [] => []
  | call :: calls => (l.step call).2.toList ++ (l.step call).1.run calls

theorem isEnabled_iff {l : Logger} {level : Int32} : l.isEnabled level ↔ l.threshold ≤ level := by
  simp [isEnabled]

/-- A conditional call with a true condition is an unconditional one. -/
@[simp] theorem step_logIf_true (l : Logger) (time : Bytes) (entry : Entry) :
    l.step (.logIf true time entry) = l.step (.log time entry) := by
  simp only [step, log, Bool.true_and]
  split <;> rfl

@[simp] theorem step_logIf_false (l : Logger) (time : Bytes) (entry : Entry) :
    l.step (.logIf false time entry) = (l, none) := by
  simp [step]

theorem run_append (l : Logger) (calls more : List Call) :
    l.run (calls ++ more) = l.run calls ++ (l.settings calls).run more := by
  induction calls generalizing l with
  | nil => rfl
  | cons call calls ih => simp [run, settings, ih]

end Logger

/-- Everything that a sink received, in order. -/
def received (sink : Sink) (emissions : List Emission) : Bytes :=
  (emissions.filter (·.sink = sink)).flatMap Emission.line

end UniqueId.Log
