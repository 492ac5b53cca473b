import UniqueId.Proofs.Region.Overwriting
import UniqueId.Session

/-!
# What a session keeps

A session changes by the steps that succeed, and each of them changes little.

* **One step** that ends in a fault changes neither the hand nor the buffer
  (`Session.step_of_error`). A step on the buffer is a call on the memory behind it, whose answer is
  taken in hand (`Session.step_of_access?_eq_some`); so the buffer keeps its length, and the bytes
  that the step does not cover (`Session.length_buffer_step`, `Session.getElem?_buffer_step`).
* **Many steps**: each does what it would do alone in the session that those before it leave
  (`Session.getElem?_run`). Those that fail may be left out, and the others do what they did before
  (`Session.run_successes`, `Session.after_successes`). The buffer keeps its length, and every byte
  that no step covers which succeeds (`Session.getElem?_buffer_after`).
-/

namespace UniqueId

/-! ### Memory behind a buffer -/

namespace Region

variable {r : Region} {a : Access}

theorem contents_ofGrowable (bs : Bytes) : (ofGrowable bs).contents = bs := by
  cases bs <;> rfl

theorem backed_ofGrowable (bs : Bytes) : (ofGrowable bs).Backed := by
  cases bs with
  | nil => simp [Backed, ofGrowable]
  | cons b bs => exact backed_ofBytes (b :: bs)

theorem fst_access_of_error (hb : r.Backed) {fault : ArgumentFault}
    (h : (r.access a).2 = .error fault) : (r.access a).1 = r := by
  rw [access_eq hb] at h ⊢
  cases houtcome : a.outcome r.extent (r.read a.offset) with
  | error found => rfl
  | ok result =>
    rw [houtcome] at h
    contradiction

/-- **Frame**: a call changes no byte outside of its window. -/
theorem getElem?_contents_access (hb : r.Backed) {k : Nat}
    (hk : k < a.offset.toNatClampNeg ∨ a.offset.toNatClampNeg + Uuid.size ≤ k) :
    (r.access a).1.contents[k]? = r.contents[k]? := by
  rw [access_eq hb, Access.outcome]
  cases hrefusal : refusal? r.extent a.offset with
  | some fault => rfl
  | none =>
    dsimp only
    cases a.effect (r.read a.offset) with
    | error fault => rfl
    | ok result => exact getElem?_contents_write (inReach_iff.mpr hrefusal) hb result.1 hk

end Region

namespace Session

variable {s : Session} {step : Step} {steps : List Step} {k : Nat}

theorem contents_region (s : Session) : s.region.contents = s.buffer :=
  Region.contents_ofGrowable s.buffer

theorem backed_region (s : Session) : s.region.Backed :=
  Region.backed_ofGrowable s.buffer

/-! ### One step -/

/-- **Faults change nothing.** -/
theorem step_of_error {fault : Fault} (h : (s.step step).2 = .error fault) :
    s.step step = (s, .error fault) := by
  rw [Session.step] at h ⊢
  cases hstep : s.step? step with
  | ok result =>
    rw [hstep] at h
    contradiction
  | error found =>
    rw [hstep] at h
    rw [← h]

/-- The call on memory that a step makes with an identifier in hand, if it makes one. -/
def Step.access? (hand : Uuid) : Step → Option Access
  | decode offset => some (.decode offset)
  | encode offset => some (.encode offset hand)
  | stampBuffer offset code => some (.stamp offset code)
  | take _ | parse _ | stamp _ | stampHigh _ | stampLow | kind | timestamp | text _ => none

/-- **Steps on the buffer are calls on memory**, and an identifier that is answered is taken in
hand. -/
theorem step_of_access?_eq_some {a : Access} (h : step.access? s.hand = some a) :
    s.step step =
      match s.region.access a with
      | (next, .ok answer) => (⟨answer.getD s.hand, next.contents⟩, .ok .nothing)
      | (_, .error fault) => (s, .error (.argument fault)) := by
  cases step with
  | decode offset =>
    obtain rfl := Option.some.inj h
    rw [Session.step, step?, Region.access]
    cases s.region.decode offset with
    | ok u => exact congrArg (fun bs => (Session.mk u bs, _)) s.contents_region.symm
    | error fault => rfl
  | encode offset =>
    obtain rfl := Option.some.inj h
    rw [Session.step, step?, Region.access]
    cases s.region.encode offset s.hand <;> rfl
  | stampBuffer offset code =>
    obtain rfl := Option.some.inj h
    rw [Session.step, step?, Region.access]
    cases s.region.stamp offset code <;> rfl
  | take u => contradiction
  | parse text => contradiction
  | stamp code => contradiction
  | stampHigh code => contradiction
  | stampLow => contradiction
  | kind => contradiction
  | timestamp => contradiction
  | text letters => contradiction

/-- The other steps leave the buffer alone. -/
theorem buffer_step_of_access?_eq_none (h : step.access? s.hand = none) :
    (s.step step).1.buffer = s.buffer := by
  rw [Session.step]
  cases step with
  | take u => rfl
  | parse text =>
    rw [step?]
    cases Text.parse text <;> rfl
  | decode offset => contradiction
  | encode offset => contradiction
  | stamp code =>
    rw [step?]
    cases s.hand.stampWithCode code <;> rfl
  | stampBuffer offset code => contradiction
  | stampHigh code =>
    rw [step?]
    cases Uuid.stampHighWithCode code s.hand.high <;> rfl
  | stampLow => rfl
  | kind => rfl
  | timestamp =>
    rw [step?]
    cases s.hand.timestamp <;> rfl
  | text letters => rfl

/-- **The buffer** after a step holds what the call on memory leaves there. -/
theorem buffer_step (s : Session) (step : Step) :
    (s.step step).1.buffer =
      (step.access? s.hand).elim s.buffer fun a => (s.region.access a).1.contents := by
  cases haccess : step.access? s.hand with
  | none => exact buffer_step_of_access?_eq_none haccess
  | some a =>
    rw [step_of_access?_eq_some haccess, Option.elim_some]
    cases hcall : s.region.access a with
    | mk next reply =>
      cases reply with
      | ok answer => rfl
      | error fault =>
        have hnext := Region.fst_access_of_error s.backed_region (congrArg Prod.snd hcall)
        rw [hcall] at hnext
        exact s.contents_region.symm.trans (congrArg Region.contents hnext.symm)

theorem length_buffer_step (s : Session) (step : Step) :
    (s.step step).1.buffer.length = s.buffer.length := by
  rw [buffer_step]
  cases step.access? s.hand with
  | none => rfl
  | some a =>
    have hshape : Region.SameShape s.region (s.region.access a).1 := .access s.backed_region a
    rw [Option.elim_some, hshape.length_contents_eq, contents_region]

/-- A step **covers** an index if it writes to the buffer, and the index lies in the window. -/
def Step.Covers (step : Step) (k : Nat) : Prop :=
  ∃ hand a, step.access? hand = some a ∧ (∀ offset, a ≠ .decode offset) ∧
    a.offset.toNatClampNeg ≤ k ∧ k < a.offset.toNatClampNeg + Uuid.size

/-- **Frame**: a step leaves alone the bytes that it does not cover. -/
theorem getElem?_buffer_step (h : ¬ step.Covers k) :
    (s.step step).1.buffer[k]? = s.buffer[k]? := by
  rw [buffer_step]
  cases haccess : step.access? s.hand with
  | none => rfl
  | some a =>
    rw [Option.elim_some]
    by_cases hwindow : a.offset.toNatClampNeg ≤ k ∧ k < a.offset.toNatClampNeg + Uuid.size
    · -- inside the window the call has to be one that only reads
      cases a with
      | decode offset => rw [Region.access, contents_region]
      | encode offset u => exact absurd ⟨s.hand, _, haccess, by simp, hwindow⟩ h
      | stamp offset code => exact absurd ⟨s.hand, _, haccess, by simp, hwindow⟩ h
    · rw [Region.getElem?_contents_access s.backed_region (by omega), contents_region]

/-! ### Many steps -/

/-- The session after some steps. -/
def after (s : Session) (steps : List Step) : Session :=
  steps.foldl (fun s step => (s.step step).1) s

theorem after_cons (s : Session) (step : Step) (steps : List Step) :
    s.after (step :: steps) = (s.step step).1.after steps :=
  rfl

/-- **Every outcome** of a run is that of its step in the session which the steps before leave. -/
theorem getElem?_run (s : Session) (steps : List Step) (i : Nat) :
    (s.run steps)[i]? = steps[i]?.map (s.after (steps.take i)).step := by
  induction steps generalizing s i with
  | nil => rfl
  | cons step steps ih =>
    rw [run]
    cases i with
    | zero => rfl
    | succ i =>
      rw [List.getElem?_cons_succ, List.getElem?_cons_succ, List.take_succ_cons, after_cons, ih]

/-- The steps that succeed, each in the session that those before it leave. -/
def successes (s : Session) : List Step → List Step
  | [] => []
  | step :: steps =>
    if (s.step step).2.isOk then step :: (s.step step).1.successes steps
    else (s.step step).1.successes steps

theorem step_of_not_isOk (h : ¬ (s.step step).2.isOk) : (s.step step).1 = s := by
  cases hfinding : (s.step step).2 with
  | ok finding =>
    rw [hfinding] at h
    exact absurd rfl h
  | error fault => rw [step_of_error hfinding]

/-- **Steps that fail may be left out**: a run of the others has their outcomes, one by one. -/
theorem run_successes (s : Session) (steps : List Step) :
    s.run (s.successes steps) = (s.run steps).filter (·.2.isOk) := by
  induction steps generalizing s with
  | nil => rfl
  | cons step steps ih =>
    rw [successes, run]
    by_cases hok : (s.step step).2.isOk
    · rw [if_pos hok, run, ih, List.filter_cons, if_pos hok]
    · rw [if_neg hok, List.filter_cons, if_neg hok, step_of_not_isOk hok, ih]

theorem after_successes (s : Session) (steps : List Step) :
    s.after (s.successes steps) = s.after steps := by
  induction steps generalizing s with
  | nil => rfl
  | cons step steps ih =>
    rw [successes]
    by_cases hok : (s.step step).2.isOk
    · rw [if_pos hok, after_cons, after_cons, ih]
    · rw [if_neg hok, after_cons, step_of_not_isOk hok, ih]

theorem length_buffer_after (s : Session) (steps : List Step) :
    (s.after steps).buffer.length = s.buffer.length := by
  induction steps generalizing s with
  | nil => rfl
  | cons step steps ih => rw [after_cons, ih, length_buffer_step]

/-- **Frame**: the bytes that no step covers which succeeds stay through a session. -/
theorem getElem?_buffer_after (h : ∀ step ∈ s.successes steps, ¬ step.Covers k) :
    (s.after steps).buffer[k]? = s.buffer[k]? := by
  induction steps generalizing s with
  | nil => rfl
  | cons step steps ih =>
    rw [successes] at h
    rw [after_cons]
    by_cases hok : (s.step step).2.isOk
    · rw [if_pos hok, List.forall_mem_cons] at h
      exact (ih h.2).trans (getElem?_buffer_step h.1)
    · rw [if_neg hok] at h
      rw [ih h, step_of_not_isOk hok]

end Session

end UniqueId
