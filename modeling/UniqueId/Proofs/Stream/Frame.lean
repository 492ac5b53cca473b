import UniqueId.Stream.Insertion

/-!
# What an identifier leaves behind on a stream

Inserting an identifier changes settings on the way, and puts back all but the pending width, which
its first field uses up (`Format.insertUuid_snd`). Before its fields are written it has set all they
depend on but the flags that are the caller's (`Format.insertUuid_fst`).

A caller's other doings on the stream see of an identifier only the settings it leaves. So nothing
is assumed of them: a **move** is an insertion of an identifier, or anything at all that the
settings decide. Along a run of moves

* **another identifier** in place of one changes the text at that place and nothing else
  (`Format.trace_replace`);
* **one identifier less**, where no width is pending, takes its own text away and nothing else
  (`Format.trace_insert`).
-/

namespace UniqueId.Stream

/-! ### One identifier -/

/-- The settings that the fields of an identifier are written under. -/
def Format.forFields (f : Format) : Format :=
  ⟨f.flags.withBase .hexadecimal, 48, 0⟩

/-- A field brings its own width and leaves none. -/
theorem Format.applyAll_fieldSteps_snd (f : Format) (p : Nat × UInt64) :
    (f.applyAll (fieldSteps p)).2 = { f with width := 0 } := rfl

theorem Format.applyAll_fieldSteps_withWidth (f : Format) (width : Int) (p : Nat × UInt64) :
    ({ f with width } : Format).applyAll (fieldSteps p) = f.applyAll (fieldSteps p) := rfl

/-- All fields and the hyphens between them leave the flags and the fill alone, and no width. -/
theorem Format.applyAll_fields_snd (f : Format) {fields : List (Nat × UInt64)} (h : fields ≠ []) :
    (f.applyAll ([Step.text [Text.hyphen]].intercalate (fields.map fieldSteps))).2 =
      { f with width := 0 } := by
  induction fields generalizing f with
  | nil => exact absurd rfl h
  | cons p rest ih =>
    cases rest with
    | nil => simpa using f.applyAll_fieldSteps_snd p
    | cons q rest =>
      have hrest := fun g : Format => ih g (List.cons_ne_nil q rest)
      simp only [List.map_cons, List.intercalate_cons_cons] at hrest ⊢
      simp only [applyAll_append, applyAll_fieldSteps_snd, applyAll, apply, hrest]

/-- The width pending before is of no account to the fields. -/
theorem Format.applyAll_fields_withWidth (f : Format) (width : Int)
    {fields : List (Nat × UInt64)} (h : fields ≠ []) :
    ({ f with width } : Format).applyAll
        ([Step.text [Text.hyphen]].intercalate (fields.map fieldSteps)) =
      f.applyAll ([Step.text [Text.hyphen]].intercalate (fields.map fieldSteps)) := by
  obtain ⟨p, rest, rfl⟩ := List.exists_cons_of_ne_nil h
  cases rest with
  | nil => simpa using f.applyAll_fieldSteps_withWidth width p
  | cons q rest =>
    simp only [List.map_cons, List.intercalate_cons_cons, applyAll_append,
      applyAll_fieldSteps_withWidth]

/-- **Only the caller's flags show**: the text is that of the fields under settings that keep
nothing of the base, the fill and the width. -/
theorem Format.insertUuid_fst (f : Format) (u : Uuid) :
    (f.insertUuid u).1 = (f.forFields.applyAll
      ([Step.text [Text.hyphen]].intercalate (u.textFields.map fieldSteps))).1 := by
  have hne : u.textFields ≠ [] := List.cons_ne_nil _ _
  have hsteps : (f.insertUuid u).1 = (({ f.forFields with width := f.width } : Format).applyAll
      ([Step.text [Text.hyphen]].intercalate (u.textFields.map fieldSteps))).1 := rfl
  rw [hsteps, f.forFields.applyAll_fields_withWidth f.width hne]

/-- **All settings but the width are put back**, and the width is used up. -/
theorem Format.insertUuid_snd (f : Format) (u : Uuid) :
    (f.insertUuid u).2 = { f with width := 0 } := by
  have hne : u.textFields ≠ [] := List.cons_ne_nil _ _
  have hsteps : (f.applyAll (uuidSteps u)).2 = f.forFields :=
    ({ f.forFields with width := f.width } : Format).applyAll_fields_snd hne
  have hback : (f.insertUuid u).2 =
      { (f.applyAll (uuidSteps u)).2 with flags := f.flags, fill := f.fill } := rfl
  rw [hback, hsteps]
  rfl

/-! ### Runs of moves -/

/-- What a caller does to a stream: the insertion of an identifier, or anything else that writes
a text and changes the settings as the settings decide. -/
inductive Move where
  | uuid (u : Uuid)
  | other (effect : Format → Bytes × Format)

/-- A move's output, and the settings after it. -/
def Move.effect : Move → Format → Bytes × Format
  | uuid u => fun f => f.insertUuid u
  | other effect => effect

/-- An action as a move. -/
def Action.move : Action → Move
  | .step s => .other fun f => f.apply s
  | .uuid u => .uuid u

namespace Format

variable (f : Format) (before after : List Move) (u v : Uuid)

/-- The output of every move in turn, with the settings after it. -/
def trace (f : Format) : List Move → List (Bytes × Format)
  | [] => []
  | move :: moves => move.effect f :: (move.effect f).2.trace moves

/-- The settings after some moves. -/
def settings (f : Format) (moves : List Move) : Format :=
  moves.foldl (fun f move => (move.effect f).2) f

@[simp] theorem length_trace (moves : List Move) : (f.trace moves).length = moves.length := by
  induction moves generalizing f with
  | nil => rfl
  | cons move moves ih => simp [trace, ih]

theorem trace_append (moves more : List Move) :
    f.trace (moves ++ more) = f.trace moves ++ (f.settings moves).trace more := by
  induction moves generalizing f with
  | nil => rfl
  | cons move moves ih => simp [trace, settings, ih]

/-- A run of actions is a run of moves. -/
theorem run_eq_trace (actions : List Action) :
    f.run actions = f.trace (actions.map Action.move) := by
  induction actions generalizing f with
  | nil => rfl
  | cons action actions ih =>
    have hact : action.move.effect f = f.act action := by cases action <;> rfl
    rw [run, List.map_cons, trace, hact, ih]

/-- An identifier's part in a run: its text, and settings that do not depend on it. -/
theorem trace_append_uuid :
    f.trace (before ++ .uuid u :: after) =
      f.trace before ++
        (((f.settings before).insertUuid u).1, { f.settings before with width := 0 }) ::
          ({ f.settings before with width := 0 } : Format).trace after := by
  have heffect : (Move.uuid u).effect (f.settings before) =
      (((f.settings before).insertUuid u).1, { f.settings before with width := 0 }) :=
    Prod.ext rfl ((f.settings before).insertUuid_snd u)
  rw [trace_append, trace, heffect]

private theorem modify_length_append {α : Type} (xs ys : List α) (y : α) (g : α → α) :
    (xs ++ y :: ys).modify xs.length g = xs ++ g y :: ys := by
  induction xs with
  | nil => rfl
  | cons x xs ih => simp [ih]

private theorem insertIdx_length_append {α : Type} (xs ys : List α) (y : α) :
    (xs ++ ys).insertIdx xs.length y = xs ++ y :: ys := by
  induction xs with
  | nil => rfl
  | cons x xs ih => simp [ih]

/-- **Another identifier** changes the text at its place, and no other text and no settings. -/
theorem trace_replace :
    f.trace (before ++ .uuid v :: after) =
      (f.trace (before ++ .uuid u :: after)).modify before.length
        fun entry => (((f.settings before).insertUuid v).1, entry.2) := by
  rw [trace_append_uuid, trace_append_uuid, ← f.length_trace before, modify_length_append]

/-- **One identifier more**, where no width is pending, adds its own text and changes nothing. -/
theorem trace_insert (h : (f.settings before).width = 0) :
    f.trace (before ++ .uuid u :: after) =
      (f.trace (before ++ after)).insertIdx before.length
        (((f.settings before).insertUuid u).1, f.settings before) := by
  have hkept : ({ f.settings before with width := 0 } : Format) = f.settings before := by rw [← h]
  rw [trace_append_uuid, hkept, trace_append, ← f.length_trace before, insertIdx_length_append]

/-- **An identifier leaves a stream as it was.** After its insertion the flags and the fill are what
they were, and no width is pending; its text does not depend on the width, the fill and the bases
that were set. In every run of moves, of which the runs of actions are some, an identifier in place
of another one changes the text at its own place only: all other texts, and the settings after every
move, stay. And where no width is pending, a run with an identifier in it is the run without it,
but for the entry of that identifier. -/
theorem insertUuid_leaves_stream :
    (∀ (f : Format) (u : Uuid), (f.insertUuid u).2.flags = f.flags ∧
      (f.insertUuid u).2.fill = f.fill ∧ (f.insertUuid u).2.width = 0) ∧
    (∀ (f : Format) (u : Uuid) (width : Int) (fill : UInt8) (decimal hexadecimal octal : Bool),
      (({ flags := { f.flags with decimal, hexadecimal, octal }, fill, width } : Format).insertUuid
        u).1 = (f.insertUuid u).1) ∧
    (∀ (f : Format) (actions : List Action),
      f.run actions = f.trace (actions.map Action.move)) ∧
    (∀ (f : Format) (before after : List Move) (u v : Uuid),
      f.trace (before ++ .uuid v :: after) =
        (f.trace (before ++ .uuid u :: after)).modify before.length
          fun entry => (((f.settings before).insertUuid v).1, entry.2)) ∧
    ∀ (f : Format) (before after : List Move) (u : Uuid), (f.settings before).width = 0 →
      f.trace (before ++ .uuid u :: after) =
        (f.trace (before ++ after)).insertIdx before.length
          (((f.settings before).insertUuid u).1, f.settings before) := by
  refine ⟨fun f u => ?_, fun f u width fill decimal hexadecimal octal => ?_, run_eq_trace,
    trace_replace, fun f before after u => trace_insert f before after u⟩
  · rw [insertUuid_snd]
    exact ⟨rfl, rfl, rfl⟩
  · rw [insertUuid_fst, insertUuid_fst]
    rfl

/-- On a stream that shows octal numbers with their base, the number after an identifier shows as
the number before it. -/
theorem insertUuid_leaves_stream_of_octal :
    let before : List Move := [.other (·.apply (.base .octal)), .other (·.apply (.showBase true)),
      .other (·.apply (.number 8))]
    let after : List Move := [.other (·.apply (.number 8))]
    (({} : Format).trace (before ++ after)).map Prod.fst =
        [[], [], Bytes.ascii "010", Bytes.ascii "010"] ∧
      (({} : Format).settings before).width = 0 ∧
      ({} : Format).trace (before ++ .uuid Uuid.max :: after) =
        (({} : Format).trace (before ++ after)).insertIdx 3
          (Bytes.ascii "0xffffffff-0xffff-0xffff-0xffff-0xffffffffffff",
            ({} : Format).settings before) := by
  intro before after
  obtain ⟨-, -, -, -, hinsert⟩ := insertUuid_leaves_stream
  have hwidth : (({} : Format).settings before).width = 0 := by decide
  have htext : ((({} : Format).settings before).insertUuid Uuid.max).1 =
      Bytes.ascii "0xffffffff-0xffff-0xffff-0xffff-0xffffffffffff" := by decide
  refine ⟨by decide, hwidth, ?_⟩
  rw [hinsert {} before after Uuid.max hwidth, htext]
  rfl

end Format

end UniqueId.Stream
