import Mathlib.Data.Set.Pairwise.Basic
import Mathlib.Logic.Function.Basic
import UniqueId.Proofs.Region.Window

/-!
# Slots of a region

A region in which some windows do not overlap is an array of identifiers, one **slot** a window.
Two machines answer the same calls:

* the **region**, whose calls check, shift and mask bytes (`Region.access`);
* the **slot map**, which holds an identifier an offset and no bytes (`SlotMap.access`): an encode
  stores, a decode loads, and a stamp stores and returns what the stamp on two words yields.

Both leave their state alone where a call ends in a fault. One call keeps them in step
(`Refines.access`), so every run of calls does (`Refines.run`), and outside its slots the region
never changes.
-/

namespace UniqueId

/-! ### Calls -/

/-- A call on memory. -/
inductive Access where
  /-- Loads the identifier at an offset. -/
  | decode (o : Int64)
  /-- Stores an identifier at an offset. -/
  | encode (o : Int64) (u : Uuid)
  /-- Stamps the identifier at an offset with a code. -/
  | stamp (o : Int64) (code : Int32)
deriving DecidableEq, Repr

/-- What a call answers: a fault, or an identifier where it returns one. -/
abbrev Reply := Except ArgumentFault (Option Uuid)

namespace Access

/-- The offset that a call is made at. -/
def offset : Access → Int64
  | decode o => o
  | encode o _ => o
  | stamp o _ => o

/-- What a call makes of the identifier at its offset: the one that stands there afterwards, and
the answer. -/
def effect (u : Uuid) : Access → Except ArgumentFault (Uuid × Option Uuid)
  | decode _ => .ok (u, some u)
  | encode _ v => .ok (v, none)
  | stamp _ code => (u.stampWithCode code).map fun v => (v, some v)

/-- What a call comes to on memory of some extent: it is refused, or has its effect. -/
def outcome (extent : Option UInt64) (u : Uuid) (a : Access) :
    Except ArgumentFault (Uuid × Option Uuid) :=
  match Region.refusal? extent a.offset with
  | some fault => .error fault
  | none => a.effect u

/-- The state after a list of calls, and their replies in order. -/
def run {σ : Type} (step : σ → Access → σ × Reply) (s : σ) : List Access → σ × List Reply
  | [] => (s, [])
  | a :: rest =>
    ((run step (step s a).1 rest).1, (step s a).2 :: (run step (step s a).1 rest).2)

/-- **Failing calls** on a region: the offset is out of reach, or a code to be stamped is not among
those from zero to fifteen. -/
def Fails (a : Access) (r : Region) : Prop :=
  ¬ r.InReach a.offset ∨ ∃ o code, a = stamp o code ∧ ¬ (0 ≤ code.toInt ∧ code.toInt ≤ 15)

end Access

/-! ### The two machines -/

/-- A call on a region: the region afterwards, which is the same one after a fault, and the
reply. -/
def Region.access (r : Region) : Access → Region × Reply
  | .decode o => (r, (r.decode o).map some)
  | .encode o u =>
    match r.encode o u with
    | .ok next => (next, .ok none)
    | .error fault => (r, .error fault)
  | .stamp o code =>
    match r.stamp o code with
    | .ok (next, u) => (next, .ok (some u))
    | .error fault => (r, .error fault)

/-- An array of identifiers that stands for memory of some extent. -/
structure SlotMap where
  /-- The extent of the memory. -/
  extent : Option UInt64
  /-- The identifier at an offset. -/
  value : Int64 → Uuid

/-- The slot map with one identifier replaced. -/
def SlotMap.store (m : SlotMap) (o : Int64) (u : Uuid) : SlotMap :=
  { m with value := Function.update m.value o u }

@[simp] theorem SlotMap.value_store_self (m : SlotMap) (o : Int64) (u : Uuid) :
    (m.store o u).value o = u := by
  simp only [store, Function.update_self]

theorem SlotMap.value_store_of_ne (m : SlotMap) {o p : Int64} (h : p ≠ o) (u : Uuid) :
    (m.store o u).value p = m.value p := by
  simp only [store, Function.update_of_ne h]

/-- A call on a slot map: the slot map afterwards, which is the same one after a fault, and the
reply. -/
def SlotMap.access (m : SlotMap) (a : Access) : SlotMap × Reply :=
  match a.outcome m.extent (m.value a.offset) with
  | .error fault => (m, .error fault)
  | .ok (u, answer) => (m.store a.offset u, .ok answer)

/-- The slot map that a region shows. -/
def Region.slotMap (r : Region) : SlotMap :=
  ⟨r.extent, r.read⟩

/-- **Slots** of a region: offsets in reach, each sixteen or more away from the others. -/
structure Region.Slots (r : Region) (slots : Set Int64) : Prop where
  inReach : ∀ o ∈ slots, r.InReach o
  apart : slots.Pairwise fun o p => 16 ≤ (o.toInt - p.toInt).natAbs

namespace Access

variable {r : Region} {a : Access}

/-- A failing call has a fault for its outcome, whatever stands at its offset. -/
theorem Fails.exists_outcome_eq (h : a.Fails r) :
    ∃ fault, ∀ u, a.outcome r.extent u = .error fault := by
  cases hrefusal : Region.refusal? r.extent a.offset with
  | some fault => exact ⟨fault, fun u => by rw [outcome, hrefusal]⟩
  | none =>
    obtain hfar | ⟨o, code, rfl, hcode⟩ := h
    · exact absurd (Region.inReach_iff.mpr hrefusal) hfar
    have hmisfit : code.toInt < 0 ∨ 15 < code.toInt := by omega
    refine ⟨.versionTooWide code, fun u => ?_⟩
    rw [outcome, hrefusal, effect, Uuid.stampWithCode,
      versionOfCode_eq_error_iff.mpr ⟨hmisfit, rfl⟩]
    rfl

end Access

namespace Region

variable {r : Region} {a : Access}

/-- A call that is refused leaves the region alone. -/
theorem access_of_refusal?_eq_some {fault : ArgumentFault}
    (h : refusal? r.extent a.offset = some fault) : r.access a = (r, .error fault) := by
  have hcheck : r.check a.offset = .error fault := by
    rw [check_eq, h]
    rfl
  cases a with
  | decode o =>
    rw [Access.offset] at hcheck
    rw [access, decode, hcheck]
    rfl
  | encode o u =>
    rw [Access.offset] at hcheck
    rw [access, encode, hcheck]
    rfl
  | stamp o code =>
    rw [Access.offset] at hcheck
    rw [access, stamp, hcheck]

/-- A call in reach has its effect on the identifier in the window. -/
theorem access_of_inReach (h : r.InReach a.offset) (hb : r.Backed) :
    r.access a =
      match a.effect (r.read a.offset) with
      | .error fault => (r, .error fault)
      | .ok (u, answer) => (r.write a.offset u, .ok answer) := by
  cases a with
  | decode o =>
    have hdecode : r.decode o = .ok (r.read o) := decode_of_inReach h
    have hwrite : r.write o (r.read o) = r := write_read h hb
    rw [access, hdecode, Access.effect, Access.offset]
    simp only [hwrite]
    rfl
  | encode o u =>
    have hencode : r.encode o u = .ok (r.write o u) := encode_of_inReach h u
    rw [access, hencode, Access.effect, Access.offset]
  | stamp o code =>
    have hstamp := stamp_of_inReach (o := o) h hb code
    rw [access, hstamp, Access.effect, Access.offset]
    cases (r.read o).stampWithCode code <;> rfl

/-- **A region loads and stores**: a call on it puts the outcome of the call on the identifier in
the window in that identifier's place. -/
theorem access_eq (hb : r.Backed) (a : Access) :
    r.access a =
      match a.outcome r.extent (r.read a.offset) with
      | .error fault => (r, .error fault)
      | .ok (u, answer) => (r.write a.offset u, .ok answer) := by
  rw [Access.outcome]
  cases hrefusal : refusal? r.extent a.offset with
  | some fault => exact access_of_refusal?_eq_some hrefusal
  | none => exact access_of_inReach (inReach_iff.mpr hrefusal) hb

end Region

/-! ### In step -/

/-- The region after a list of calls, and the replies. -/
def Region.run (r : Region) (calls : List Access) : Region × List Reply :=
  Access.run Region.access r calls

/-- The slot map after a list of calls, and the replies. -/
def SlotMap.run (m : SlotMap) (calls : List Access) : SlotMap × List Reply :=
  Access.run SlotMap.access m calls

/-- **In step**: a slot map holds what a region shows in its slots, and outside of them the region
is what it was at the start. -/
structure InStep (slots : Set Int64) (start : Region) (m : SlotMap) (r : Region) : Prop where
  backed : r.Backed
  extent_eq : r.extent = start.extent
  extent_map_eq : m.extent = start.extent
  value_eq : ∀ o ∈ slots, m.value o = r.read o
  length_eq : r.length = start.length
  length_contents_eq : r.contents.length = start.contents.length
  getElem?_contents_eq : ∀ k,
    (∀ o ∈ slots, k < o.toNatClampNeg ∨ o.toNatClampNeg + Uuid.size ≤ k) →
      r.contents[k]? = start.contents[k]?

namespace InStep

variable {slots : Set Int64} {start r : Region} {m : SlotMap} {a : Access} {o : Int64}

/-- At the start a region is in step with the slot map that it shows. -/
theorem slotMap (hb : start.Backed) (slots : Set Int64) :
    InStep slots start start.slotMap start :=
  ⟨hb, rfl, rfl, fun _ _ => rfl, rfl, rfl, fun _ _ => rfl⟩

/-- The slots of the region at the start stay in reach. -/
theorem inReach (h : InStep slots start m r) (hslots : start.Slots slots) (ho : o ∈ slots) :
    r.InReach o :=
  (Region.inReach_congr h.extent_eq).mpr (hslots.inReach o ho)

/-- **A store keeps in step**: the other slots are too far away to show it. -/
theorem write (h : InStep slots start m r) (hslots : start.Slots slots) (ho : o ∈ slots)
    (u : Uuid) : InStep slots start (m.store o u) (r.write o u) := by
  have hreach : r.InReach o := h.inReach hslots ho
  refine ⟨h.backed.write hreach u, ?_, h.extent_map_eq, ?_, h.length_eq, ?_, ?_⟩
  · rw [Region.extent_write hreach, h.extent_eq]
  · intro p hp
    obtain rfl | hne := eq_or_ne p o
    · rw [Region.read_write_self hreach h.backed, SlotMap.value_store_self]
    · have hapart := hslots.apart ho hp hne.symm
      rw [Region.read_write_of_apart hreach (h.inReach hslots hp) h.backed hapart,
        SlotMap.value_store_of_ne m hne]
      exact h.value_eq p hp
  · rw [Region.length_contents_write hreach h.backed, h.length_contents_eq]
  · intro k hk
    rw [Region.getElem?_contents_write hreach h.backed u (hk o ho)]
    exact h.getElem?_contents_eq k hk

/-- **One call**: machines in step reply the same and stay in step. -/
theorem access (h : InStep slots start m r) (hslots : start.Slots slots)
    (ha : a.offset ∈ slots ∨ a.Fails start) :
    (r.access a).2 = (m.access a).2 ∧ InStep slots start (m.access a).1 (r.access a).1 := by
  rw [Region.access_eq h.backed, SlotMap.access, h.extent_eq, h.extent_map_eq]
  obtain hslot | hfails := ha
  · rw [h.value_eq _ hslot]
    cases a.outcome start.extent (r.read a.offset) with
    | error fault => exact ⟨rfl, h⟩
    | ok result => exact ⟨rfl, h.write hslots hslot result.1⟩
  · -- off the slots the two machines may hold different identifiers, but the call sees neither
    obtain ⟨fault, hfault⟩ := hfails.exists_outcome_eq
    rw [hfault, hfault]
    exact ⟨rfl, h⟩

/-- **Any run of calls**: machines in step reply the same all along, and are in step at the end. -/
theorem run (h : InStep slots start m r) (hslots : start.Slots slots) {calls : List Access}
    (hcalls : ∀ a ∈ calls, a.offset ∈ slots ∨ a.Fails start) :
    (r.run calls).2 = (m.run calls).2 ∧ InStep slots start (m.run calls).1 (r.run calls).1 := by
  induction calls generalizing m r with
  | nil => exact ⟨rfl, h⟩
  | cons a rest ih =>
    obtain ⟨hreply, hnext⟩ := h.access hslots (hcalls a List.mem_cons_self)
    obtain ⟨hreplies, hlast⟩ := ih hnext fun b hb => hcalls b (List.mem_cons_of_mem a hb)
    exact ⟨List.cons_eq_cons.mpr ⟨hreply, hreplies⟩, hlast⟩

end InStep

/-! ### The region as an array -/

/-- **A region is an array of its slots.** Run any calls at slots, failing calls among them, on a
region and on the slot map that it shows. The replies are the same; afterwards every slot of the
region decodes to what the slot map holds there; and outside the slots no byte has changed, nor
has the length. -/
theorem Region.run_agrees_with_slotMap {r : Region} {slots : Set Int64} {calls : List Access}
    (hb : r.Backed) (hslots : r.Slots slots)
    (hcalls : ∀ a ∈ calls, a.offset ∈ slots ∨ a.Fails r) :
    (∀ o ∈ slots, r.decode o = .ok (r.slotMap.value o)) ∧
      (r.run calls).2 = (r.slotMap.run calls).2 ∧
      (∀ o ∈ slots, (r.run calls).1.decode o = .ok ((r.slotMap.run calls).1.value o)) ∧
      (∀ k, (∀ o ∈ slots, k < o.toNatClampNeg ∨ o.toNatClampNeg + Uuid.size ≤ k) →
        (r.run calls).1.contents[k]? = r.contents[k]?) ∧
      (r.run calls).1.contents.length = r.contents.length ∧
      (r.run calls).1.length = r.length := by
  obtain ⟨hreplies, hend⟩ := (InStep.slotMap hb slots).run hslots hcalls
  refine ⟨?_, hreplies, ?_, hend.getElem?_contents_eq, hend.length_contents_eq, hend.length_eq⟩
  · intro o ho
    exact Region.decode_of_inReach (hslots.inReach o ho)
  · intro o ho
    rw [Region.decode_of_inReach (hend.inReach hslots ho), hend.value_eq o ho]

/-- Two slots in forty bytes, and calls of every sort: at a slot, out of reach at either end, and
with a code that is too wide. Of the second slot a single byte is new. -/
theorem Region.run_agrees_with_slotMap_of_two_slots :
    let r := Region.ofBytes (List.replicate 40 0xAB)
    let slots : Set Int64 := {1, 20}
    let calls : List Access := [.encode 1 ⟨1, 2⟩, .stamp 20 4, .decode 30, .stamp 1 16,
      .encode (-1) ⟨3, 4⟩, .stamp 1 7, .decode 20]
    let first : Uuid := ⟨0x0000000000007001, 0x8000000000000002⟩
    let second : Uuid := ⟨0xABABABABABAB4BAB, 0xABABABABABABABAB⟩
    let replies : List Reply := [.ok none, .ok (some second), .error (.noRoom 30 40),
      .error (.versionTooWide 16), .error (.negativeOffset (-1)), .ok (some first),
      .ok (some second)]
    r.Backed ∧ r.Slots slots ∧ (∀ a ∈ calls, a.offset ∈ slots ∨ a.Fails r) ∧
      (r.run calls).2 = replies ∧ (r.slotMap.run calls).2 = replies ∧
      (r.run calls).1.decode 1 = .ok first ∧ (r.run calls).1.decode 20 = .ok second ∧
      (r.run calls).1.contents[18]? = some 0xAB ∧
      (r.run calls).1.contents =
        0xAB :: [0, 0, 0, 0, 0, 0, 0x70, 1, 0x80, 0, 0, 0, 0, 0, 0, 2] ++ List.replicate 9 0xAB ++
          0x4B :: List.replicate 13 0xAB := by
  intro r slots calls first second replies
  have hb : r.Backed := Region.backed_ofBytes _
  have hone : r.InReach 1 := ⟨by decide, by decide, by decide⟩
  have htwenty : r.InReach 20 := ⟨by decide, by decide, by decide⟩
  have hslots : r.Slots slots := by
    refine ⟨?_, ?_⟩
    · rintro o (rfl | rfl)
      · exact hone
      · exact htwenty
    · rintro o (rfl | rfl) p (rfl | rfl) hne
      · contradiction
      · decide
      · decide
      · contradiction
  have hcalls : ∀ a ∈ calls, a.offset ∈ slots ∨ a.Fails r := by
    have hthirty : ¬ r.InReach 30 := fun h => absurd h.le_length (by decide)
    have hnegative : ¬ r.InReach (-1) := fun h => absurd h.nonneg (by decide)
    simp only [calls, List.forall_mem_cons, List.not_mem_nil, false_imp_iff, implies_true, and_true]
    exact ⟨.inl (.inl rfl), .inl (.inr rfl), .inr (.inl hthirty), .inl (.inl rfl),
      .inr (.inl hnegative), .inl (.inl rfl), .inl (.inr rfl)⟩
  obtain ⟨-, hreplies, hvalues, hframe, -⟩ := Region.run_agrees_with_slotMap hb hslots hcalls
  have hregion : (r.run calls).2 = replies := by decide
  have hfirst : (r.slotMap.run calls).1.value 1 = first := by decide
  have hsecond : (r.slotMap.run calls).1.value 20 = second := by decide
  have hbetween : ∀ o ∈ slots, 18 < o.toNatClampNeg ∨ o.toNatClampNeg + Uuid.size ≤ 18 := by
    rintro o (rfl | rfl) <;> decide
  refine ⟨hb, hslots, hcalls, hregion, hreplies.symm.trans hregion, ?_, ?_,
    (hframe 18 hbetween).trans (by decide), by decide⟩
  · rw [hvalues 1 (.inl rfl), hfirst]
  · rw [hvalues 20 (.inr rfl), hsecond]

end UniqueId
