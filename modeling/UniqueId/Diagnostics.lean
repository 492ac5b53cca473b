import UniqueId.Fault
import UniqueId.Log.Logger

/-!
# Diagnostics

Faults are found by four **components**, and each fault that a call meets is logged. The entry names
the component and carries the whole message as an argument, so braces in an offending text are not
expanded.

Components differ in what they put in front of the message and in the level they log at: it is
`debug` for all of them but the one that tells timestamps, which logs at `error`. A missing text is
logged with a wording of its own.
-/

namespace UniqueId

/-! ### Components -/

/-- The components that find faults. -/
inductive Component where
  | stringCodec
  | byteCodec
  | versionTagger
  | timestampExtractor
deriving DecidableEq, Repr

namespace Component

/-- The name under which a component logs. -/
def name : Component → Bytes
  | stringCodec => Bytes.ascii "StringCodec"
  | byteCodec => Bytes.ascii "ByteCodec"
  | versionTagger => Bytes.ascii "VersionTagger"
  | timestampExtractor => Bytes.ascii "TimestampExtractor"

/-- The level at which a component logs. -/
def level : Component → Log.Level
  | stringCodec | byteCodec | versionTagger => .debug
  | timestampExtractor => .error

/-- What a component puts in front of a message. -/
def opening : Component → Bytes
  | stringCodec => Bytes.ascii "Rejected UUID string: "
  | byteCodec | versionTagger | timestampExtractor => []

/-- The entry in which a component logs a message. -/
def entry (component : Component) (message : Bytes) : Log.Entry where
  level := component.level.code
  component := component.name
  format := component.opening ++ Log.placeholder
  arguments := [.text message]

end Component

/-! ### Faults in the log -/

/-- The entry that a missing text leaves in the log. -/
def missingTextEntry : Log.Entry where
  level := Component.stringCodec.level.code
  component := Component.stringCodec.name
  format := Bytes.ascii "Rejected null UUID string"
  arguments := []

/-- The component that finds an argument fault. -/
def ArgumentFault.component : ArgumentFault → Component
  | missingBuffer | negativeOffset _ | noRoom _ _ => .byteCodec
  | versionTooWide _ => .versionTagger
  | unknownKind _ => .timestampExtractor

namespace Fault

/-- The component that finds a fault. -/
def component : Fault → Component
  | text _ => .stringCodec
  | argument fault => fault.component

/-- The entry that a fault leaves in the log. -/
def entry (fault : Fault) : Log.Entry :=
  if fault = text .missing then missingTextEntry else fault.component.entry fault.message

theorem entry_of_ne {fault : Fault} (h : fault ≠ text .missing) :
    fault.entry = fault.component.entry fault.message :=
  if_neg h

@[simp] theorem level_entry (fault : Fault) : fault.entry.level = fault.component.level.code := by
  by_cases h : fault = text .missing
  · rw [h]
    rfl
  · rw [entry_of_ne h, Component.entry]

@[simp] theorem component_entry (fault : Fault) : fault.entry.component = fault.component.name := by
  by_cases h : fault = text .missing
  · rw [h]
    rfl
  · rw [entry_of_ne h, Component.entry]

end Fault

/-- Logs a fault. -/
def Log.Logger.report (l : Logger) (time : Bytes) (fault : Fault) : Option Emission :=
  l.log time fault.entry

/-- **Nothing is expanded or cut**: a component's message arrives in the log as it is. -/
@[simp] theorem Component.message_entry (component : Component) (message : Bytes) :
    (component.entry message).message = component.opening ++ message := by
  have hformat : (component.opening ++ Log.placeholder).untilNul =
      component.opening ++ Log.placeholder :=
    Bytes.untilNul_eq_self (by cases component <;> decide)
  have hbrace : Log.openBrace ∉ component.opening := by cases component <;> decide
  calc (component.entry message).message
      = Log.substitute (component.opening ++ Log.placeholder) [message] :=
        congrArg (Log.substitute · [message]) hformat
    _ = component.opening ++ Log.substitute (Log.placeholder ++ []) [message] := by
        rw [Log.substitute_append_of_notMem hbrace, List.append_nil]
    _ = component.opening ++ message := by
        rw [Log.substitute_placeholder, Log.substitute_nil, List.append_nil]

end UniqueId
