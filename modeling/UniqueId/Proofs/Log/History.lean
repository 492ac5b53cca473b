import Mathlib.Data.List.Infix
import Mathlib.Data.List.ReduceOption
import UniqueId.Log.Logger

/-!
# The records of a run

What a call of a logger writes depends on the calls before it, but on few of them: for each setting,
on the last one that changed it. So the lines of a run can be told from its calls alone, without
following the logger through its states:

* a **request** is a call that asks for a line, together with what it asks for;
* a **record** is a request whose level reaches the threshold last set before it, together with the
  sink and the colouring last set before it.

A run writes its records, each to its own sink, and nothing else (`Logger.run_eq_map_emission`). A
higher threshold keeps fewer of them (`Logger.records_withThreshold`), and a run without colour has
the same ones, plain (`Logger.records_map_plain`).
-/

namespace UniqueId.Log

/-! ### What a call sets and what it asks for -/

namespace Call

/-- The threshold that a call sets. -/
def threshold? : Call → Option Int32
  | setThreshold level => some level
  | _ => none

/-- The colouring that a call sets. -/
def color? : Call → Option Bool
  | setColor on => some on
  | _ => none

/-- The sink that a call sets. -/
def sink? : Call → Option Sink
  | setSink sink => some (sink.getD .console)
  | _ => none

/-- The time and the entry of the line that a call asks for. -/
def request? : Call → Option (Bytes × Entry)
  | log time entry => some (time, entry)
  | logIf true time entry => some (time, entry)
  | _ => none

/-- The call, with colour turned off if it turns colour on. -/
def plain : Call → Call
  | setColor _ => setColor false
  | call => call

/-- What a setting is after some calls: what the last of them that set it made it, and what it was
at first if none did. -/
def lastSet {α : Type} (set? : Call → Option α) (initial : α) (history : List Call) : α :=
  (history.filterMap set?).getLastD initial

theorem lastSet_cons {α : Type} (set? : Call → Option α) (initial : α) (call : Call)
    (history : List Call) :
    lastSet set? initial (call :: history) = lastSet set? ((set? call).getD initial) history := by
  rw [lastSet, List.filterMap_cons]
  cases set? call with
  | none => rfl
  | some a => exact List.getLastD_cons

end Call

/-! ### Records -/

/-- A line that was written, with all it was made of. -/
structure Record where
  /-- The sink in force. -/
  sink : Sink
  /-- The colouring in force. -/
  color : Bool
  time : Bytes
  entry : Entry
deriving DecidableEq, Repr

namespace Record

/-- Whether the level of a record reaches a threshold, both as signed numbers. -/
def reaches (r : Record) (threshold : Int32) : Bool :=
  threshold.toInt ≤ r.entry.level.toInt

/-- What reaches the higher of two thresholds reaches the lower one too. -/
theorem reaches_and_reaches {low high : Int32} (h : low.toInt ≤ high.toInt) (r : Record) :
    (r.reaches low && r.reaches high) = r.reaches high := by
  rw [reaches, reaches, ← Bool.decide_and, decide_eq_decide]
  omega

/-- The text of a record. -/
def line (r : Record) : Bytes :=
  r.entry.line r.color r.time

def emission (r : Record) : Emission :=
  ⟨r.sink, r.line⟩

/-- The record without colour. -/
def plain (r : Record) : Record :=
  { r with color := false }

/-- What stands before the tag: the time in brackets. -/
def opening (r : Record) : Bytes :=
  Bytes.ascii "[" ++ r.time ++ Bytes.ascii "] "

/-- The level in brackets. -/
def tag (r : Record) : Bytes :=
  Bytes.ascii "[" ++ tagOfCode r.entry.level ++ Bytes.ascii "]"

/-- What stands behind the tag: the component in brackets and the message. -/
def closing (r : Record) : Bytes :=
  Bytes.ascii " [" ++ r.entry.component.untilNul ++ Bytes.ascii "] " ++ r.entry.message
    ++ Bytes.ascii "\n"

/-- Colour surrounds the tag, and shows nowhere else in a line. -/
theorem line_eq (r : Record) :
    r.line = r.opening ++
      (if r.color then colorOfCode r.entry.level ++ r.tag ++ colorReset else r.tag) ++
        r.closing := by
  simp only [line, Entry.line, Entry.header, opening, tag, closing, List.append_assoc]

end Record

namespace Logger

variable {l : Logger} {call : Call} {calls : List Call}

/-- The settings after some calls, each as it was last set. -/
def lastSettings (l : Logger) (history : List Call) : Logger where
  threshold := Call.lastSet Call.threshold? l.threshold history
  color := Call.lastSet Call.color? l.color history
  sink := Call.lastSet Call.sink? l.sink history

/-- The record of an entry under the settings. -/
def record (l : Logger) (time : Bytes) (entry : Entry) : Record :=
  ⟨l.sink, l.color, time, entry⟩

/-- The record of a call under the settings: that of its request, if the level reaches the
threshold. -/
def record? (l : Logger) (call : Call) : Option Record :=
  (call.request?.map fun (time, entry) => l.record time entry).filter (·.reaches l.threshold)

/-- The records of a run, in the order of the calls: that of each call under the settings as they
were last set before it. -/
def records (l : Logger) (calls : List Call) : List Record :=
  -- the prefixes of the list are the histories of its calls, and one more: that of the whole run
  (List.zipWith (fun history => (l.lastSettings history).record?) calls.inits calls).reduceOption

/-! ### One call -/

/-- A call sets what it sets and leaves the other settings. -/
theorem step_fst (l : Logger) (call : Call) :
    (l.step call).1 =
      ⟨call.threshold?.getD l.threshold, call.color?.getD l.color, call.sink?.getD l.sink⟩ := by
  cases call <;> rfl

@[simp] theorem lastSettings_nil (l : Logger) : l.lastSettings [] = l := rfl

theorem lastSettings_cons (l : Logger) (call : Call) (history : List Call) :
    l.lastSettings (call :: history) = (l.step call).1.lastSettings history := by
  rw [lastSettings, Call.lastSet_cons, Call.lastSet_cons, Call.lastSet_cons, step_fst]
  rfl

theorem log_eq_map_emission (l : Logger) (time : Bytes) (entry : Entry) :
    l.log time entry = (l.record? (.log time entry)).map Record.emission := by
  have hrecord : l.record? (.log time entry) =
      if (l.record time entry).reaches l.threshold then some (l.record time entry) else none :=
    Option.filter_some
  have hreach : l.isEnabled entry.level = (l.record time entry).reaches l.threshold :=
    decide_eq_decide.mpr Int32.le_iff_toInt_le
  rw [log, hreach, hrecord]
  split <;> rfl

/-- A call writes its record and nothing else. -/
theorem step_snd (l : Logger) (call : Call) :
    (l.step call).2 = (l.record? call).map Record.emission := by
  cases call with
  | setThreshold level => rfl
  | setColor on => rfl
  | setSink sink => rfl
  | log time entry => exact log_eq_map_emission l time entry
  | logIf condition time entry =>
    cases condition with
    | false =>
      rw [step_logIf_false]
      rfl
    | true =>
      rw [step_logIf_true]
      exact log_eq_map_emission l time entry

/-! ### All calls -/

/-- **Settings are as they were last set**, whatever else was called. -/
theorem settings_eq_lastSettings (l : Logger) (calls : List Call) :
    l.settings calls = l.lastSettings calls := by
  induction calls generalizing l with
  | nil => rfl
  | cons call calls ih =>
    rw [lastSettings_cons, ← ih]
    rfl

theorem records_cons (l : Logger) (call : Call) (calls : List Call) :
    l.records (call :: calls) = (l.record? call).toList ++ (l.step call).1.records calls := by
  -- the histories of the later calls all begin with the first one
  have hrest : (fun history => (l.lastSettings (call :: history)).record?) =
      fun history => ((l.step call).1.lastSettings history).record? :=
    funext fun history => by rw [lastSettings_cons]
  rw [records, List.inits_cons, List.zipWith_cons_cons, List.zipWith_map_left, hrest,
    lastSettings_nil]
  cases l.record? call with
  | none => exact List.reduceOption_cons_of_none _
  | some r => exact List.reduceOption_cons_of_some r _

/-- **A run writes its records** and nothing else, in the order of the calls. -/
theorem run_eq_map_emission (l : Logger) (calls : List Call) :
    l.run calls = (l.records calls).map Record.emission := by
  induction calls generalizing l with
  | nil => rfl
  | cons call calls ih => rw [run, ih, step_snd, records_cons, List.map_append, Option.toList_map]

/-- A sink receives the lines of the records that it was in force for. -/
theorem received_run (l : Logger) (calls : List Call) (sink : Sink) :
    received sink (l.run calls) =
      ((l.records calls).filter (·.sink = sink)).flatMap Record.line := by
  rw [received, run_eq_map_emission, List.filter_map, List.flatMap_map]
  rfl

/-! ### Higher thresholds -/

/-- The logger with another threshold. -/
def withThreshold (l : Logger) (level : Int32) : Logger :=
  { l with threshold := level }

theorem step_withThreshold (h : call.threshold? = none) (level : Int32) :
    ((l.withThreshold level).step call).1 = (l.step call).1.withThreshold level := by
  rw [step_fst, step_fst, h]
  rfl

theorem record?_withThreshold {low high : Int32} (hle : low.toInt ≤ high.toInt) :
    (l.withThreshold high).record? call =
      ((l.withThreshold low).record? call).filter (·.reaches high) := by
  rw [record?, record?, Option.filter_filter]
  simp only [withThreshold, record, Record.reaches_and_reaches hle]

/-- **A higher threshold keeps fewer records**: in a run that leaves the threshold alone, those
records of a lower one that reach the higher one. -/
theorem records_withThreshold {low high : Int32} (hle : low.toInt ≤ high.toInt)
    (hcalls : ∀ call ∈ calls, call.threshold? = none) :
    (l.withThreshold high).records calls =
      ((l.withThreshold low).records calls).filter (·.reaches high) := by
  induction calls generalizing l with
  | nil => rfl
  | cons call calls ih =>
    obtain ⟨hcall, hcalls⟩ := List.forall_mem_cons.mp hcalls
    rw [records_cons, records_cons, step_withThreshold hcall, step_withThreshold hcall, ih hcalls,
      record?_withThreshold hle, Option.toList_filter, List.filter_append]

/-! ### No colour -/

/-- The logger with colour turned off. -/
def plain (l : Logger) : Logger :=
  { l with color := false }

theorem step_plain (l : Logger) (call : Call) :
    (l.plain.step call.plain).1 = (l.step call).1.plain := by
  cases call <;> rfl

theorem record?_plain (l : Logger) (call : Call) :
    l.plain.record? call.plain = (l.record? call).map Record.plain := by
  have hrequest : call.plain.request? = call.request? := by cases call <;> rfl
  rw [record?, record?, hrequest, Option.filter_map, Option.filter_map, Option.map_map]
  rfl

/-- **A run without colour** has the same records, plain. -/
theorem records_map_plain (l : Logger) (calls : List Call) :
    l.plain.records (calls.map Call.plain) = (l.records calls).map Record.plain := by
  induction calls generalizing l with
  | nil => rfl
  | cons call calls ih =>
    rw [List.map_cons, records_cons, records_cons, step_plain, ih, record?_plain,
      List.map_append, Option.toList_map]

/-! ### What reaches the sinks -/

/-- **Lines are decided by the calls.** A logger starts out with the threshold at `info`, in colour,
and on the console. From any settings, a run leaves each setting as it was last set, its lines are
those of its records, in the order of the calls, and each sink receives exactly the lines of the
records that it was in force for. Under a higher threshold a run that leaves the threshold alone has
those of its records that reach it. Without colour a run has the same records, and of their lines
only the colour before and the reset behind the tag are gone. -/
theorem run_writes_records :
    ({} : Logger) = ⟨Level.info.code, true, .console⟩ ∧
      (∀ (l : Logger) (calls : List Call),
        l.settings calls = l.lastSettings calls ∧
          l.run calls = (l.records calls).map Record.emission ∧
          ∀ sink, received sink (l.run calls) =
            ((l.records calls).filter (·.sink = sink)).flatMap Record.line) ∧
      (∀ (l : Logger) (calls : List Call) (low high : Int32),
        (∀ call ∈ calls, call.threshold? = none) → low.toInt ≤ high.toInt →
          (l.withThreshold high).records calls =
            ((l.withThreshold low).records calls).filter (·.reaches high)) ∧
      (∀ (l : Logger) (calls : List Call),
        l.plain.records (calls.map Call.plain) = (l.records calls).map Record.plain) ∧
      ∀ r : Record,
        r.line = r.opening ++
            (if r.color then colorOfCode r.entry.level ++ r.tag ++ colorReset else r.tag) ++
              r.closing ∧
          r.plain.line = r.opening ++ r.tag ++ r.closing := by
  refine ⟨rfl, ?_, ?_, records_map_plain, ?_⟩
  · intro l calls
    exact ⟨settings_eq_lastSettings l calls, run_eq_map_emission l calls, received_run l calls⟩
  · intro l calls low high hcalls hle
    exact records_withThreshold hle hcalls
  · intro r
    exact ⟨r.line_eq, r.plain.line_eq⟩

/-- Two entries, one of them at the level `off`. Under the threshold `off` it is still kept, and its
line is the one that the sink in force receives, in colour and without. -/
theorem run_writes_records_of_off :
    let time := Bytes.ascii "09:30:00"
    let tick : Entry := ⟨Level.off.code, Bytes.ascii "Clock",
      Bytes.ascii "tick \x7b\x7d of \x7b\x7d", [.nat 7, .text (Bytes.ascii "9")]⟩
    let stop : Entry := ⟨Level.fatal.code, Bytes.ascii "Clock", Bytes.ascii "stopped", []⟩
    let calls : List Call := [.setSink (some (.named "a")), .log time tick, .setSink none,
      .logIf true time stop, .logIf false time tick]
    let kept : List Record := [⟨.named "a", true, time, tick⟩, ⟨.console, true, time, stop⟩]
    let info := ({} : Logger).withThreshold Level.info.code
    let off := ({} : Logger).withThreshold Level.off.code
    info.records calls = kept ∧ off.records calls = kept.take 1 ∧
      received (.named "a") (off.run calls)
        = Bytes.ascii "[09:30:00] [OFF  ]\x1b[0m [Clock] tick 7 of 9\n" ∧
      received (.named "a") (off.plain.run (calls.map Call.plain))
        = Bytes.ascii "[09:30:00] [OFF  ] [Clock] tick 7 of 9\n" ∧
      received .console (off.run calls) = [] ∧
      received .console (info.run calls)
        = Bytes.ascii "[09:30:00] \x1b[35;1m[FATAL]\x1b[0m [Clock] stopped\n" := by
  intro time tick stop calls kept info off
  obtain ⟨-, hruns, hthreshold, hplain, -⟩ := run_writes_records
  have hinfo : info.records calls = kept := by decide
  have hoff : off.records calls = kept.take 1 := by
    have hfewer := hthreshold {} calls Level.info.code Level.off.code (by decide) (by decide)
    rw [hinfo] at hfewer
    exact hfewer.trans (by decide)
  refine ⟨hinfo, hoff, ?_, ?_, ?_, ?_⟩
  · rw [(hruns off calls).2.2, hoff]
    decide
  · rw [(hruns off.plain _).2.2, hplain, hoff]
    decide
  · rw [(hruns off calls).2.2, hoff]
    decide
  · rw [(hruns info calls).2.2, hinfo]
    decide

end Logger

end UniqueId.Log
