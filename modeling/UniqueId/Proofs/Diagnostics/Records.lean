import Mathlib.Data.List.Forall2
import UniqueId.Proofs.Diagnostics.Objections
import UniqueId.Proofs.Positional

/-!
# One line for each fault

With the threshold at `debug` or below, the log accounts for the faults of operations one to one.

* **The line.** It names the component that objects, and ends in the whole message of the fault.
  Messages are made of ASCII text, numerals, and at most one byte of the text that was refused, so a
  line has one newline, at its end, and a second one only if that byte is a newline
  (`Fault.exists_line_eq`).
* **One operation** writes nothing if it answers, and the line of its fault if it fails
  (`Log.Logger.accounts_reports`).
* **Many operations** leave the settings alone, so each of them writes what it would write alone.
-/

namespace UniqueId

/-- The byte that ends a line. -/
def newline : UInt8 := 10

/-! ### Messages without a newline -/

namespace Numeral

theorem newline_notMem_decimal (n : Nat) : newline ∉ decimal n :=
  notMem_decimal (by decide) n

theorem newline_notMem_signedDecimal (i : Int) : newline ∉ signedDecimal i := by
  cases i with
  | ofNat n => exact newline_notMem_decimal n
  | negSucc n => exact List.not_mem_cons_of_ne_of_not_mem (by decide) (newline_notMem_decimal _)

end Numeral

open Numeral

theorem ArgumentFault.newline_notMem_message (fault : ArgumentFault) : newline ∉ fault.message := by
  cases fault with
  | missingBuffer => decide
  | negativeOffset offset =>
    simp only [message, List.mem_append, newline_notMem_signedDecimal, or_false]
    decide
  | noRoom offset length =>
    simp only [message, List.mem_append, newline_notMem_signedDecimal, newline_notMem_decimal,
      or_false]
    decide
  | versionTooWide code =>
    simp only [message, List.mem_append, newline_notMem_signedDecimal, or_false]
    decide
  | unknownKind code =>
    simp only [message, List.mem_append, newline_notMem_signedDecimal, or_false]
    decide

namespace Fault

/-- The byte that a fault's message quotes. -/
def quoted? : Fault → Option UInt8
  | text (.character _ _ b) => some b
  | text (.wrongLength _ _) | text .missing | argument _ => none

/-- What the log says about a fault. -/
def notice : Fault → Bytes
  | text .missing => Bytes.ascii "Rejected null UUID string"
  | text fault => Bytes.ascii "Rejected UUID string: " ++ fault.message
  | argument fault => fault.message

theorem message_entry (fault : Fault) : fault.entry.message = fault.notice := by
  cases fault with
  | text fault =>
    cases fault with
    | character kind i b =>
      rw [entry_of_ne (by simp), Component.message_entry]
      rfl
    | wrongLength length next =>
      rw [entry_of_ne (by simp), Component.message_entry]
      rfl
    | missing => rfl
  | argument fault =>
    have hopening : (argument fault).component.opening = [] := by cases fault <;> rfl
    rw [entry_of_ne (by simp), Component.message_entry, hopening]
    rfl

/-- A notice has no newline but the quoted one. -/
theorem exists_notice_eq (fault : Fault) :
    ∃ front back, fault.notice = front ++ fault.quoted?.toList ++ back ∧
      newline ∉ front ∧ newline ∉ back := by
  cases fault with
  | text fault =>
    cases fault with
    | character kind i b =>
      refine ⟨Bytes.ascii "Rejected UUID string: " ++
          (kind.message ++ Bytes.ascii " at #" ++ decimal i ++ Bytes.ascii ": '"),
        Bytes.ascii "' (value 0x" ++ numeral .lower 16 b.toNat ++ Bytes.ascii ")", ?_, ?_, ?_⟩
      · simp only [notice, TextFault.message, quoted?, Option.toList_some, List.append_assoc]
      · simp only [List.mem_append, newline_notMem_decimal, or_false]
        cases kind <;> decide
      · have hvalue : newline ∉ numeral .lower 16 b.toNat :=
          notMem_numeral (by decide) (by decide) (by decide) _
        simp only [List.mem_append, hvalue, or_false]
        decide
    | wrongLength length next =>
      refine ⟨notice (text (.wrongLength length next)), [], by simp [quoted?], ?_, by simp⟩
      simp only [notice, TextFault.message, List.mem_append, newline_notMem_decimal, or_false]
      decide
    | missing => exact ⟨notice (text .missing), [], rfl, by decide, by simp⟩
  | argument fault =>
    have hmessage : fault.message = fault.message ++ [] ++ [] := by simp
    exact ⟨fault.message, [], hmessage, fault.newline_notMem_message, by simp⟩

/-! ### Lines -/

theorem line_eq (fault : Fault) (color : Bool) (time : Bytes) :
    fault.entry.line color time =
      Bytes.ascii "[" ++ time ++ Bytes.ascii "] " ++ fault.entry.header color
        ++ Bytes.ascii " [" ++ fault.component.name ++ Bytes.ascii "] " ++ fault.notice
        ++ Bytes.ascii "\n" := by
  have hname : fault.component.name.untilNul = fault.component.name :=
    Bytes.untilNul_eq_self (by cases fault.component <;> decide)
  rw [Log.Entry.line, message_entry, component_entry, hname]

theorem newline_notMem_header (fault : Fault) (color : Bool) :
    newline ∉ fault.entry.header color := by
  rw [Log.Entry.header, level_entry]
  cases color <;> cases fault.component <;> decide

/-- A line ends in a newline and has no other, but the quoted one. -/
theorem exists_line_eq (fault : Fault) (color : Bool) {time : Bytes} (h : newline ∉ time) :
    ∃ front back, fault.entry.line color time =
        front ++ fault.quoted?.toList ++ back ++ [newline] ∧
      newline ∉ front ∧ newline ∉ back := by
  obtain ⟨front, back, hnotice, hfront, hback⟩ := fault.exists_notice_eq
  have hname : newline ∉ fault.component.name := by cases fault.component <;> decide
  have hheader := fault.newline_notMem_header color
  refine ⟨Bytes.ascii "[" ++ time ++ Bytes.ascii "] " ++ fault.entry.header color
    ++ Bytes.ascii " [" ++ fault.component.name ++ Bytes.ascii "] " ++ front, back, ?_, ?_, hback⟩
  · rw [line_eq, hnotice]
    simp only [List.append_assoc]
    rfl
  · simp only [List.mem_append, h, hheader, hname, hfront, or_false]
    decide

theorem count_newline_line (fault : Fault) (color : Bool) {time : Bytes} (h : newline ∉ time) :
    (fault.entry.line color time).count newline =
      if fault.quoted? = some newline then 2 else 1 := by
  obtain ⟨front, back, hline, hfront, hback⟩ := fault.exists_line_eq color h
  have hquoted : fault.quoted?.toList.count newline =
      if fault.quoted? = some newline then 1 else 0 := by
    cases fault.quoted? with
    | none => rfl
    | some b => simp [List.count_singleton]
  rw [hline, List.count_append, List.count_append, List.count_append, hquoted,
    List.count_eq_zero_of_not_mem hfront, List.count_eq_zero_of_not_mem hback]
  split <;> rfl

/-- A message is shown as far as its first NUL. -/
theorem exists_message_eq_shortMessage_append (fault : Fault) :
    ∃ rest, fault.message = fault.shortMessage ++ rest ∧ 0 ∉ fault.shortMessage ∧
      (rest = [] ∨ rest.head? = some 0) := by
  obtain ⟨rest, hmessage, hrest⟩ := Bytes.exists_eq_untilNul_append fault.message
  exact ⟨rest, hmessage, Bytes.zero_notMem_untilNul fault.message, hrest⟩

/-- **How a fault is written**: what its line looks like at a given time. -/
structure WrittenAs (fault : Fault) (color : Bool) (time line : Bytes) : Prop where
  /-- The line shows the time, the level, who finds the fault, and the notice. -/
  eq : line = Bytes.ascii "[" ++ time ++ Bytes.ascii "] " ++ fault.entry.header color
    ++ Bytes.ascii " ["
    ++ Bytes.ascii (match fault with
      | text _ => "StringCodec"
      | argument .missingBuffer | argument (.negativeOffset _) | argument (.noRoom _ _) =>
        "ByteCodec"
      | argument (.versionTooWide _) => "VersionTagger"
      | argument (.unknownKind _) => "TimestampExtractor")
    ++ Bytes.ascii "] " ++ fault.notice ++ Bytes.ascii "\n"
  /-- It ends in a newline. -/
  getLast?_eq : line.getLast? = some newline
  /-- It has another newline only if it quotes one. -/
  count_newline : newline ∉ time →
    line.count newline = if fault.quoted? = some newline then 2 else 1

theorem writtenAs_line (fault : Fault) (color : Bool) (time : Bytes) :
    fault.WrittenAs color time (fault.entry.line color time) where
  eq := by
    rw [line_eq]
    cases fault with
    | text fault => rfl
    | argument fault => cases fault <;> rfl
  getLast?_eq := List.getLast?_append_of_ne_nil _ (by simp [Bytes.ascii])
  count_newline := fault.count_newline_line color

end Fault

/-! ### One line a fault -/

namespace Log.Logger

variable {l : Logger}

/-- **Accounting.** What is seen of an operation that was performed under a logger is all that
there is to its faults: an answer comes without a line, and a fault with one, which was written
before the operation ended. -/
structure Accounts (l : Logger) (time : Bytes) (op : Operation)
    (seen : List Emission × Except Fault Answer) : Prop where
  /-- Under a logger an operation ends as it always does. -/
  outcome_eq : seen.2 = op.run
  /-- An operation that answers does not call the logger. -/
  of_ok : ∀ answer, op.run = .ok answer → op.course time = .answer answer ∧ seen.1 = []
  /-- An operation that fails has its fault logged before it ends, by the component that objects. -/
  of_error : ∀ fault, op.run = .error fault →
    op.course time = .call (.log time fault.entry) (.fault fault) ∧
      fault.component.Objects op ∧
        ∃ line, seen.1 = [⟨l.sink, line⟩] ∧ fault.WrittenAs l.color time line

namespace Accounts

variable {time : Bytes} {op : Operation} {seen : List Emission × Except Fault Answer}

theorem eq_of_ok (h : l.Accounts time op seen) {answer : Answer} (hanswer : op.run = .ok answer) :
    seen = ([], .ok answer) :=
  Prod.ext (h.of_ok answer hanswer).2 (h.outcome_eq.trans hanswer)

theorem eq_of_error (h : l.Accounts time op seen) {fault : Fault} (hfault : op.run = .error fault) :
    ∃ line, seen = ([⟨l.sink, line⟩], .error fault) ∧ fault.WrittenAs l.color time line := by
  obtain ⟨-, -, line, hline, hwritten⟩ := h.of_error fault hfault
  exact ⟨line, Prod.ext hline (h.outcome_eq.trans hfault), hwritten⟩

end Accounts

theorem report_of_threshold_le (h : l.threshold.toInt ≤ Level.debug.code.toInt) (time : Bytes)
    (fault : Fault) :
    l.report time fault = some ⟨l.sink, fault.entry.line l.color time⟩ := by
  have hlevel : Level.debug.code.toInt ≤ fault.component.level.code.toInt := by
    cases fault.component <;> decide
  rw [report_eq, if_pos (h.trans hlevel)]

/-- One operation. -/
theorem accounts_reports (h : l.threshold.toInt ≤ Level.debug.code.toInt) (time : Bytes)
    (op : Operation) : l.Accounts time op (l.reports time op.run, op.run) where
  outcome_eq := rfl
  of_ok answer hanswer := by
    refine ⟨?_, ?_⟩
    · rw [op.course_eq_reported, hanswer, Course.reported]
    · rw [hanswer, reports]
  of_error fault hfault := by
    refine ⟨?_, Component.objects_of_run_eq_error hfault, fault.entry.line l.color time, ?_,
      fault.writtenAs_line l.color time⟩
    · rw [op.course_eq_reported, hfault, Course.reported]
    · rw [hfault, reports, report_of_threshold_le h, Option.toList_some]

/-- **The log accounts for the faults.** Under a logger whose threshold is at `debug` or below,
operations leave the settings as they are. Each of them writes nothing if it answers, and one line
if it fails, before it ends: the line goes to the sink of the logger, names the component that
objects to an argument, and ends in the whole message of the fault, while a reader of NUL-terminated
text gets the message as far as its first NUL. The line has no newline but at its end, unless the
message quotes one. -/
theorem perform_accounts_for_faults (h : l.threshold.toInt ≤ Level.debug.code.toInt)
    (history : List (Bytes × Operation)) :
    (l.perform history).1 = l ∧
      List.Forall₂ (fun (time, op) => l.Accounts time op) history (l.perform history).2 ∧
      ∀ fault : Fault, ∃ rest, fault.message = fault.shortMessage ++ rest ∧
        0 ∉ fault.shortMessage ∧ (rest = [] ∨ rest.head? = some 0) := by
  rw [perform_eq]
  refine ⟨rfl, ?_, Fault.exists_message_eq_shortMessage_append⟩
  rw [List.forall₂_map_right_iff, List.forall₂_same]
  intro performed _
  exact accounts_reports h performed.1 performed.2

/-- A fault of each component, and an answer. A newline that is read as a text is quoted, so the
line of its fault has two. Where memory is missing, a stamp in memory fails before its code is
looked at. -/
theorem perform_accounts_for_faults_of_four_components :
    let l : Logger := { threshold := Level.debug.code, color := false, sink := .named "a" }
    let time := Bytes.ascii "09:30:00"
    let history : List (Bytes × Operation) := [(time, .parse [newline]),
      (time, .isCanonical [newline]), (time, .stampRegion ⟨none, 0⟩ 0 16),
      (time, .stamp 16 Uuid.nil), (time, .timestampWithCode (some 9) Uuid.nil)]
    let quoting := Bytes.ascii "[09:30:00] [DEBUG] [StringCodec] Rejected UUID string: " ++
      Bytes.ascii "Non-hex character at #0: '\n' (value 0xa)\n"
    let missing := Bytes.ascii "[09:30:00] [DEBUG] [ByteCodec] " ++
      Bytes.ascii "Invalid byte buffer passed: can not be null\n"
    let tooWide := Bytes.ascii "[09:30:00] [DEBUG] [VersionTagger] " ++
      Bytes.ascii "Invalid raw UUID type (16): must fit in 4 bits\n"
    let foreign := Bytes.ascii "[09:30:00] [ERROR] [TimestampExtractor] " ++
      Bytes.ascii "Invalid UUID type code 9\n"
    l.threshold.toInt ≤ Level.debug.code.toInt ∧
      (l.perform history).2 =
        [([⟨.named "a", quoting⟩], .error (.text (.character .nonHex 0 newline))),
          ([], .ok (.bool false)),
          ([⟨.named "a", missing⟩], .error (.argument .missingBuffer)),
          ([⟨.named "a", tooWide⟩], .error (.argument (.versionTooWide 16))),
          ([⟨.named "a", foreign⟩], .error (.argument (.unknownKind 9)))] ∧
      quoting.count newline = 2 := by
  intro l time history quoting missing tooWide foreign
  have hthreshold : l.threshold.toInt ≤ Level.debug.code.toInt := by decide
  obtain ⟨-, haccounts, -⟩ := perform_accounts_for_faults hthreshold history
  generalize (l.perform history).2 = seen at haccounts ⊢
  simp only [history] at haccounts
  obtain _ | ⟨hparse, _ | ⟨hcanonical, _ | ⟨hregion, _ | ⟨hstamp, _ | ⟨htimestamp, _ | _⟩⟩⟩⟩⟩ :=
    haccounts
  obtain ⟨first, rfl, hfirst⟩ := hparse.eq_of_error rfl
  obtain rfl := hcanonical.eq_of_ok rfl
  obtain ⟨second, rfl, hsecond⟩ := hregion.eq_of_error rfl
  obtain ⟨third, rfl, hthird⟩ := hstamp.eq_of_error rfl
  obtain ⟨fourth, rfl, hfourth⟩ := htimestamp.eq_of_error rfl
  have hquoting : first = quoting := hfirst.eq.trans (by decide)
  have hmissing : second = missing := hsecond.eq.trans (by decide)
  have htooWide : third = tooWide := hthird.eq.trans (by decide)
  have hforeign : fourth = foreign := hfourth.eq.trans (by decide)
  refine ⟨hthreshold, ?_, ?_⟩
  · rw [hquoting, hmissing, htooWide, hforeign]
    rfl
  · rw [← hquoting]
    exact hfirst.count_newline (by decide)

end Log.Logger

end UniqueId
