import UniqueId.Stream.Format
import UniqueId.Text.Canonical
import UniqueId.Text.Printer

/-!
# Insertions into an output stream

What a caller does to a stream is a sequence of **steps**. The elementary ones change a setting or
insert a number or a text. Inserting an identifier is not elementary: it takes elementary steps of
its own for the five fields and the hyphens between them, and at the end puts back the flags and
the fill that it found. The pending width it does not put back, since its first field uses it up.

The steps set the base, the fill and the widths only. The other flags are the caller's, so a
stream that shows bases or adjusts to the left shows in the text of an identifier.
-/

namespace UniqueId.Stream

/-- What can be done to a stream. -/
inductive Step where
  | base (base : Base)
  | adjustment (side : Adjustment)
  | uppercase (on : Bool)
  | showBase (on : Bool)
  | width (n : Int)
  | fill (byte : UInt8)
  | number (n : UInt64)
  | text (t : Bytes)
deriving DecidableEq, Repr

/-- A step's output, and the settings after it. -/
def Format.apply (f : Format) : Step → Bytes × Format
  | .base base => ([], { f with flags := f.flags.withBase base })
  | .adjustment side => ([], { f with flags := f.flags.withAdjustment side })
  | .uppercase on => ([], { f with flags := { f.flags with uppercase := on } })
  | .showBase on => ([], { f with flags := { f.flags with showBase := on } })
  | .width n => ([], { f with width := n })
  | .fill byte => ([], { f with fill := byte })
  | .number n => (f.number n, { f with width := 0 })
  | .text t => (f.text t, { f with width := 0 })

/-- The output of a sequence of steps, and the settings after them. -/
def Format.applyAll (f : Format) : List Step → Bytes × Format
  | [] => ([], f)
  | step :: steps =>
    let (first, g) := f.apply step
    let (rest, h) := g.applyAll steps
    (first ++ rest, h)

/-- The steps that write one field of an identifier. -/
def fieldSteps : Nat × UInt64 → List Step
  | (width, field) => [.width width, .number field]

/-- The steps that write an identifier: hexadecimal, filled with zeros, the hyphens as texts. -/
def uuidSteps (u : Uuid) : List Step :=
  [.base .hexadecimal, .fill 48]
    ++ [Step.text [Text.hyphen]].intercalate (u.textFields.map fieldSteps)

/-- An identifier's text on a stream, and the settings after it. -/
def Format.insertUuid (f : Format) (u : Uuid) : Bytes × Format :=
  let (out, g) := f.applyAll (uuidSteps u)
  (out, { g with flags := f.flags, fill := f.fill })

/-! ### Whole sessions -/

/-- What a caller does to a stream: an elementary step, or the insertion of an identifier. -/
inductive Action where
  | step (step : Step)
  | uuid (u : Uuid)
deriving DecidableEq, Repr

/-- An action's output, and the settings after it. -/
def Format.act (f : Format) : Action → Bytes × Format
  | .step step => f.apply step
  | .uuid u => f.insertUuid u

/-- The output of every action in turn, with the settings after it. -/
def Format.run (f : Format) : List Action → List (Bytes × Format)
  | [] => []
  | action :: actions => f.act action :: (f.act action).2.run actions

@[simp] theorem Format.length_run (f : Format) (actions : List Action) :
    (f.run actions).length = actions.length := by
  induction actions generalizing f with
  | nil => rfl
  | cons action actions ih => simp [Format.run, ih]

/-- Steps taken in two parts write both parts' outputs. -/
theorem Format.applyAll_append (f : Format) (steps more : List Step) :
    f.applyAll (steps ++ more) =
      ((f.applyAll steps).1 ++ ((f.applyAll steps).2.applyAll more).1,
        ((f.applyAll steps).2.applyAll more).2) := by
  induction steps generalizing f with
  | nil => rfl
  | cons step steps ih => simp [Format.applyAll, ih]

end UniqueId.Stream
