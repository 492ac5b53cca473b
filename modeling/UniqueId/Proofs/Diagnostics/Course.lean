import UniqueId.Course

/-!
# Faults are logged once, and first

The course of an operation is settled by how the operation ends: one that answers does so without a
call of the logger, and one that ends in a fault has this fault logged, once, and ends then
(`Operation.course_eq_reported`).

* Courses that do no more than that can be put together (`Course.reported_bind_pure`), so it is
  enough to look at what components do.
* A component looks for faults of its own only, and the entry that it logs is that of the fault
  (`Component.refuse_eq_reported`).
* An identifier stamped in memory is looked for twice, but what has been found once is found again
  (`Course.check_stamped`).

So a logger that follows an operation keeps its settings, and writes what the fault leaves in the
log (`Log.Logger.follow_course`).
-/

namespace UniqueId

variable {α β : Type} {time : Bytes}

/-! ### Courses that report -/

namespace Course

/-- The course that calls the logger for nothing but the fault that it ends in. -/
def reported (time : Bytes) : Except Fault α → Course α
  | .ok a => .answer a
  | .error f => .call (.log time f.entry) (.fault f)

/-- Computing further with an answer reports nothing new. -/
theorem reported_bind_pure {ε : Type} (toFault : ε → Fault) (r : Except ε α) (f : α → β) :
    (reported time (r.mapError toFault) >>= fun a => pure (f a)) =
      reported time ((r.map f).mapError toFault) := by
  cases r with
  | ok a => rfl
  | error fault => rfl

theorem map_reported (f : α → β) (r : Except Fault α) :
    f <$> reported time r = reported time (r.map f) := by
  cases r with
  | ok a => rfl
  | error fault => rfl

end Course

open Course (reported map_reported)

/-! ### Components -/

namespace Component

/-- The component that finds a fault logs the fault's entry. -/
theorem refuse_eq_reported {component : Component} {fault : Fault}
    (hcomponent : fault.component = component) (hfault : fault ≠ .text .missing) :
    component.refuse time fault = (reported time (.error fault) : Course α) := by
  rw [refuse, reported, Fault.entry_of_ne hfault, hcomponent]

theorem pass_text_eq_reported {r : Except TextFault α}
    (h : ∀ fault, r = .error fault → fault ≠ .missing) :
    stringCodec.pass time (r.mapError .text) = reported time (r.mapError .text) := by
  cases r with
  | ok a => rfl
  | error fault =>
    have hfault : Fault.text fault ≠ .text .missing := by simpa using h fault rfl
    exact refuse_eq_reported rfl hfault

theorem pass_argument_eq_reported {component : Component} {r : Except ArgumentFault α}
    (h : ∀ fault, r = .error fault → fault.component = component) :
    component.pass time (r.mapError .argument) = reported time (r.mapError .argument) := by
  cases r with
  | ok a => rfl
  | error fault =>
    have hfault : Fault.argument fault ≠ .text .missing := by simp
    exact refuse_eq_reported (h fault rfl) hfault

end Component

theorem Text.readCharacters_ne_missing {i : Nat} {read : Uuid} {bs : Bytes} {fault : TextFault}
    (h : readCharacters i read bs = .error fault) : fault ≠ .missing := by
  induction bs generalizing i read with
  | nil => contradiction
  | cons b bs ih =>
    rw [readCharacters] at h
    split at h
    · exact ih h
    · exact ih h
    · rw [← Except.error.inj h]
      simp

theorem Region.component_of_check_eq_error {region : Region} {offset : Int64}
    {fault : ArgumentFault} (h : region.check offset = .error fault) :
    fault.component = .byteCodec := by
  rw [check] at h
  split at h
  · rw [← Except.error.inj h, ArgumentFault.component]
  · split at h
    · rw [← Except.error.inj h, ArgumentFault.component]
    · split at h
      · rw [← Except.error.inj h, ArgumentFault.component]
      · contradiction

theorem component_of_versionOfCode_eq_error {code : Int32} {fault : ArgumentFault}
    (h : versionOfCode code = .error fault) : fault.component = .versionTagger := by
  rw [(versionOfCode_eq_error_iff.mp h).2, ArgumentFault.component]

/-! ### Operations -/

namespace Course

theorem parse_eq_reported (text : Bytes) :
    parse time text = reported time ((Text.parse text).mapError .text) := by
  rw [parse, Component.pass_text_eq_reported fun _ => Text.readCharacters_ne_missing, Text.parse]
  cases Text.readCharacters 0 Uuid.nil (text.take Text.canonicalLength) with
  | error f => rfl
  | ok u =>
    have hwalk : reported time ((.ok u : Except TextFault Uuid).mapError .text) = answer u := rfl
    rw [hwalk, answer_bind]
    by_cases hlen : text.length = Text.canonicalLength
    · simp only [if_pos hlen]
      rfl
    · simp only [if_neg hlen]
      exact Component.refuse_eq_reported rfl (by simp)

theorem parseUntilNul_eq_reported (text : Option Bytes) :
    parseUntilNul time text = reported time ((Text.parseUntilNul text).mapError .text) := by
  cases text with
  | none => rfl
  | some text => exact parse_eq_reported text.untilNul

theorem check_eq_reported (region : Region) (offset : Int64) :
    check time region offset = reported time ((region.check offset).mapError .argument) :=
  Component.pass_argument_eq_reported fun _ => Region.component_of_check_eq_error

theorem decode_eq_reported (region : Region) (offset : Int64) :
    decode time region offset = reported time ((region.decode offset).mapError .argument) := by
  rw [decode, check_eq_reported, reported_bind_pure, Region.decode]

theorem encode_eq_reported (region : Region) (offset : Int64) (u : Uuid) :
    encode time region offset u = reported time ((region.encode offset u).mapError .argument) := by
  rw [encode, check_eq_reported, reported_bind_pure, Region.encode]

theorem version_eq_reported (code : Int32) :
    version time code = reported time ((versionOfCode code).mapError .argument) :=
  Component.pass_argument_eq_reported fun _ => component_of_versionOfCode_eq_error

theorem stampHigh_eq_reported (code : Int32) (high : UInt64) :
    stampHigh time code high =
      reported time ((Uuid.stampHighWithCode code high).mapError .argument) := by
  rw [stampHigh, version_eq_reported, reported_bind_pure, Uuid.stampHighWithCode]

theorem stamp_eq_reported (code : Int32) (u : Uuid) :
    stamp time code u = reported time ((u.stampWithCode code).mapError .argument) := by
  have hmap : (Uuid.stampHighWithCode code u.high).map (fun high => ⟨high, Uuid.stampLow u.low⟩) =
      u.stampWithCode code := by
    rw [Uuid.stampHighWithCode, Uuid.stampWithCode]
    cases versionOfCode code with
    | ok version => rfl
    | error fault => rfl
  rw [stamp, stampHigh_eq_reported, reported_bind_pure, hmap]

/-- Writing to a region that an identifier is in reach in keeps it in reach. -/
theorem check_stamped {region : Region} {offset : Int64} (h : region.check offset = .ok ())
    (bs : Bytes) : ({ region with bytes := some bs } : Region).check offset = .ok () := by
  have hreach := Region.check_eq_ok_iff.mp h
  exact Region.check_eq_ok_iff.mpr ⟨rfl, hreach.nonneg, hreach.le_length⟩

theorem stampRegion_eq_reported (region : Region) (offset : Int64) (code : Int32) :
    stampRegion time region offset code =
      reported time ((region.stamp offset code).mapError .argument) := by
  rw [stampRegion, check_eq_reported, version_eq_reported, Region.stamp]
  cases hcheck : region.check offset with
  | error fault => rfl
  | ok _ =>
    cases versionOfCode code with
    | error fault => rfl
    | ok version =>
      let stamped : Region := { region with
        bytes := some (Region.stampedBytes region.contents offset.toNatClampNeg version) }
      -- the place is checked again before the identifier is read from there
      have hread : decode time stamped offset =
          .answer (Uuid.ofBytes (stamped.contents.window offset.toNatClampNeg Uuid.size)) := by
        rw [decode_eq_reported, Region.decode, check_stamped hcheck]
        rfl
      exact congrArg (· >>= fun u => .answer (stamped, u)) hread

theorem timestampWithCode_eq_reported (code : Option Int32) (u : Uuid) :
    timestampWithCode time code u =
      reported time ((u.timestampWithCode code).mapError .argument) := by
  cases code with
  | none => rfl
  | some code =>
    rw [timestampWithCode, Uuid.timestampWithCode]
    cases Kind.ofCode? code with
    | some kind => rfl
    | none => rfl

end Course

/-- **A fault is logged once, and first.** -/
theorem Operation.course_eq_reported (time : Bytes) (op : Operation) :
    op.course time = reported time op.run := by
  cases op with
  | parse text => rw [course, run, Course.parse_eq_reported, map_reported]
  | parseUntilNul text => rw [course, run, Course.parseUntilNul_eq_reported, map_reported]
  | isCanonical text => rfl
  | toText letters u => rfl
  | check region offset => rw [course, run, Course.check_eq_reported, map_reported]
  | decode region offset => rw [course, run, Course.decode_eq_reported, map_reported]
  | encode region offset u => rw [course, run, Course.encode_eq_reported, map_reported]
  | toBytes u => rfl
  | kind u => rfl
  | stampHigh code high => rw [course, run, Course.stampHigh_eq_reported, map_reported]
  | stampLow low => rfl
  | stamp code u => rw [course, run, Course.stamp_eq_reported, map_reported]
  | stampRegion region offset code => rw [course, run, Course.stampRegion_eq_reported, map_reported]
  | timestampWithCode code u => rw [course, run, Course.timestampWithCode_eq_reported, map_reported]
  | timestamp u =>
    rw [course, run, Course.timestampWithCode_eq_reported, map_reported, Uuid.timestamp]

/-! ### Under a logger -/

namespace Log.Logger

/-- A fault is written if the level of its component reaches the threshold. -/
theorem report_eq (l : Logger) (time : Bytes) (fault : Fault) :
    l.report time fault =
      if l.threshold.toInt ≤ fault.component.level.code.toInt then
        some ⟨l.sink, fault.entry.line l.color time⟩
      else none := by
  simp only [report, log, isEnabled_iff, Int32.le_iff_toInt_le, Fault.level_entry]

/-- What a logger writes about an operation that ends so. -/
def reports (l : Logger) (time : Bytes) : Except Fault α → List Emission
  | .ok _ => []
  | .error fault => (l.report time fault).toList

/-- **Operations leave the settings alone**, and write what their faults leave in the log. -/
theorem follow_course (l : Logger) (time : Bytes) (op : Operation) :
    l.follow (op.course time) = (l, l.reports time op.run, op.run) := by
  rw [op.course_eq_reported]
  cases op.run with
  | ok answer => rfl
  | error fault => rw [reported, follow_call, follow, step, List.append_nil, reports, report]

/-- From one operation to all: settings that each operation leaves alone are the same for all of
them. -/
theorem perform_eq (l : Logger) (history : List (Bytes × Operation)) :
    l.perform history = (l, history.map fun (time, op) => (l.reports time op.run, op.run)) := by
  induction history with
  | nil => rfl
  | cons performed history ih =>
    obtain ⟨time, op⟩ := performed
    rw [perform_cons, follow_course, ih, List.map_cons]

end Log.Logger

end UniqueId
