import UniqueId.Proofs.Diagnostics.Objections

/-!
# Who speaks above `debug`

With the threshold at `info`, where it is unless a caller moves it, three of the four components are
silent. The fourth is not: it logs at `error`, so an operation that asks for the timestamp of a kind
with a foreign code is heard until the threshold is above `error`.

Lines are never empty, so a sink has received nothing exactly if nothing was written to it. What a
run writes is told from its operations one by one, and each of them is silent unless that component
objects to it (`Log.Logger.reports_eq_nil_iff`).
-/

namespace UniqueId

variable {α : Type}

/-- What is objected to where a timestamp is asked for. -/
theorem Component.timestampExtractor_objects_iff {op : Operation} :
    timestampExtractor.Objects op ↔
      ∃ code u, op = .timestampWithCode (some code) u ∧ (code.toInt < 0 ∨ 8 < code.toInt) := by
  constructor
  · rintro ⟨⟩
    next code u hforeign => exact ⟨code, u, rfl, hforeign⟩
  · rintro ⟨code, u, rfl, hforeign⟩
    exact .timestampWithCode hforeign

namespace Log.Logger

variable {l : Logger}

/-- The lines that operations write, in order. -/
def written (l : Logger) (history : List (Bytes × Operation)) : List Emission :=
  (l.perform history).2.flatMap Prod.fst

theorem written_eq_flatMap (l : Logger) (history : List (Bytes × Operation)) :
    l.written history = history.flatMap fun performed => l.reports performed.1 performed.2.run := by
  rw [written, perform_eq, List.flatMap_map]

/-! ### One operation -/

theorem report_eq_none_iff {time : Bytes} {fault : Fault} :
    l.report time fault = none ↔ fault.component.level.code.toInt < l.threshold.toInt := by
  rw [report_eq, ← Int.not_le]
  simp

/-- One component speaks above `debug`. -/
theorem level_lt_iff (h : Level.info.code.toInt ≤ l.threshold.toInt) (component : Component) :
    component.level.code.toInt < l.threshold.toInt ↔
      Level.error.code.toInt < l.threshold.toInt ∨ component ≠ .timestampExtractor := by
  have hdebug : Level.debug.code.toInt < l.threshold.toInt := lt_of_lt_of_le (by decide) h
  cases component with
  | stringCodec => exact iff_of_true hdebug (.inr (by simp))
  | byteCodec => exact iff_of_true hdebug (.inr (by simp))
  | versionTagger => exact iff_of_true hdebug (.inr (by simp))
  | timestampExtractor => simp [Component.level]

/-- An operation is silent unless it is asked for the timestamp of a foreign kind. -/
theorem reports_eq_nil_iff (h : Level.info.code.toInt ≤ l.threshold.toInt) {time : Bytes}
    {op : Operation} :
    l.reports time op.run = [] ↔
      Level.error.code.toInt < l.threshold.toInt ∨ ¬ Component.timestampExtractor.Objects op := by
  rw [Component.objects_iff]
  cases op.run with
  | ok answer => simp [reports]
  | error fault => simp [reports, report_eq_none_iff, level_lt_iff h]

/-! ### Many operations -/

theorem line_ne_nil_of_mem_reports {time : Bytes} {r : Except Fault α} {emission : Emission}
    (h : emission ∈ l.reports time r) : emission.line ≠ [] := by
  cases r with
  | ok a => contradiction
  | error fault =>
    rw [reports, report_eq, Option.mem_toList] at h
    split at h
    · rw [← Option.some.inj h]
      simp [Entry.line, Bytes.ascii]
    · contradiction

/-- A sink receives nothing only if nothing is written to it. -/
theorem forall_received_written_eq_nil_iff {history : List (Bytes × Operation)} :
    (∀ sink, received sink (l.written history) = []) ↔
      ∀ performed ∈ history, l.reports performed.1 performed.2.run = [] := by
  rw [← List.flatMap_eq_nil_iff, ← written_eq_flatMap]
  constructor
  · intro hsilent
    refine List.eq_nil_iff_forall_not_mem.mpr fun emission hmem => ?_
    have hempty : emission.line = [] := by
      refine List.flatMap_eq_nil_iff.mp (hsilent emission.sink) emission ?_
      simp [hmem]
    rw [written_eq_flatMap] at hmem
    obtain ⟨performed, -, hmem⟩ := List.mem_flatMap.mp hmem
    exact line_ne_nil_of_mem_reports hmem hempty
  · intro hnone sink
    rw [hnone]
    rfl

/-- **Silence above `debug`, but for one fault.** Under a logger whose threshold is at `info` or
above, no sink receives anything from a run of operations, exactly if the threshold is above `error`
or no operation asks for the timestamp of a kind with a foreign code. -/
theorem forall_received_written_eq_nil_iff_of_info_le
    (h : Level.info.code.toInt ≤ l.threshold.toInt) (history : List (Bytes × Operation)) :
    (∀ sink, received sink (l.written history) = []) ↔
      Level.error.code.toInt < l.threshold.toInt ∨
        ∀ performed ∈ history, ∀ code u, performed.2 = .timestampWithCode (some code) u →
          0 ≤ code.toInt ∧ code.toInt ≤ 8 := by
  have hnative : ∀ op, ¬ Component.timestampExtractor.Objects op ↔
      ∀ code u, op = .timestampWithCode (some code) u → 0 ≤ code.toInt ∧ code.toInt ≤ 8 := by
    intro op
    rw [Component.timestampExtractor_objects_iff]
    push Not
    exact Iff.rfl
  rw [forall_received_written_eq_nil_iff]
  simp only [reports_eq_nil_iff h, hnative]
  by_cases hhigh : Level.error.code.toInt < l.threshold.toInt
  · simp [hhigh]
  · simp [hhigh]

/-- A logger as it is at first stays silent about a text that is refused, and where the timestamp is
asked for of a kind that holds no time. -/
theorem received_written_of_default :
    received .console (({} : Logger).written
      [([], .parse []), ([], .timestampWithCode (some 8) Uuid.nil)]) = [] := by
  refine (forall_received_written_eq_nil_iff_of_info_le (by decide) _).mpr (.inr ?_) .console
  simp

/-- It speaks where the timestamp is asked for of a kind that does not exist. -/
theorem received_written_of_foreign_code :
    received .console (({} : Logger).written [([], .timestampWithCode (some 9) Uuid.nil)]) =
      Bytes.ascii
        "[] \x1b[31m[ERROR]\x1b[0m [TimestampExtractor] Invalid UUID type code 9\n" := by
  decide

end Log.Logger

end UniqueId
