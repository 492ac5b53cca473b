import Mathlib.Data.Int.ConditionallyCompleteOrder
import UniqueId.Proofs.Diagnostics.Objections
import UniqueId.Proofs.Positional
import UniqueId.Proofs.Region.Window
import UniqueId.Proofs.Uuid.Stamp

/-!
# Footprints

Reading, writing and stamping an identifier, taken apart into single bytes. `Work` lists what is
checked, loaded and stored, in order; an index is an integer, and `Work.run` has no outcome if a
load or a store hits an index where the region has no byte, be it below zero, behind the claimed
length, or where memory is missing.

* **Check first** (`Work.run_check_of_eq_error`): where the check fails, nothing is touched.
* **Where work stays** (`Work.StaysWithin`) is told without running it: each load and each store is
  in the range, whatever has been loaded before. A run then touches nothing else
  (`Work.StaysWithin.mem_of_mem_touched`).
* **How work ends** (`Work.Ends`): the two loops over eight bytes do what the region's windows say,
  by induction (`Work.Ends.gather`, `Work.Ends.scatter`), so the outcome is that of the operation on
  the region (`Work.decode_ends`, `Work.encode_ends`, `Work.stamp_ends`).
-/

namespace UniqueId

/-! ### Writing in parts -/

namespace Bytes

variable {bs xs ys : Bytes} {offset : Nat}

@[simp] theorem splice_nil (bs : Bytes) (offset : Nat) : bs.splice offset [] = bs := by
  simp [splice]

/-- A byte set behind the place of a run, and the run written then, are the run with the byte. -/
theorem splice_set (b : UInt8) (h : offset + xs.length < bs.length) :
    splice (bs.set (offset + xs.length) b) offset xs = bs.splice offset (xs ++ [b]) := by
  have hdrop : (bs.set (offset + xs.length) b).drop (offset + xs.length) =
      b :: bs.drop (offset + xs.length + 1) := by
    rw [List.drop_eq_getElem_cons (by rwa [List.length_set]), List.getElem_set_self,
      List.drop_set_of_lt (Nat.lt_succ_self _)]
  simp only [splice, List.take_set_of_le (Nat.le_add_right offset xs.length), hdrop,
    List.length_append, List.length_singleton, List.append_assoc, List.singleton_append,
    Nat.add_assoc]

/-- Two runs written side by side are one run written at once. -/
theorem splice_splice (h : offset + xs.length ≤ bs.length) :
    (bs.splice offset xs).splice (offset + xs.length) ys = bs.splice offset (xs ++ ys) := by
  have hlen : (bs.take offset ++ xs).length = offset + xs.length := by
    rw [List.length_append, List.length_take]
    omega
  have htake : (bs.splice offset xs).take (offset + xs.length) = bs.take offset ++ xs :=
    List.take_left' hlen
  have hdrop : (bs.splice offset xs).drop (offset + xs.length) = bs.drop (offset + xs.length) :=
    List.drop_left' hlen
  rw [splice, htake, ← List.drop_drop, hdrop, List.drop_drop, splice, List.length_append,
    Nat.add_assoc, List.append_assoc (bs.take offset)]

theorem window_succ {size : Nat} (h : offset < bs.length) :
    bs.window offset (size + 1) = bs[offset] :: bs.window (offset + 1) size := by
  rw [window, List.drop_eq_getElem_cons h, List.take_succ_cons, window]

theorem take_window (bs : Bytes) (offset size more : Nat) :
    (bs.window offset (size + more)).take size = bs.window offset size := by
  rw [window, List.take_take, Nat.min_eq_left (Nat.le_add_right _ _), window]

theorem drop_window (bs : Bytes) (offset size more : Nat) :
    (bs.window offset (size + more)).drop size = bs.window (offset + size) more := by
  rw [window, List.drop_take, List.drop_drop, Nat.add_sub_cancel_left, window]

end Bytes

/-! ### Work, byte by byte -/

/-- Work on memory: what is checked, loaded and stored, in order, until it ends. -/
inductive Work (α : Type) where
  /-- Ends with an answer. -/
  | answer (a : α)
  /-- Ends in a fault. -/
  | fault (fault : ArgumentFault)
  /-- Checks an offset and goes on. -/
  | check (o : Int64) (rest : Work α)
  /-- Loads the byte at an index and goes on with it. -/
  | load (k : Int) (next : UInt8 → Work α)
  /-- Stores a byte at an index and goes on. -/
  | store (k : Int) (b : UInt8) (rest : Work α)

namespace Work

variable {α : Type}

/-- Loads so many bytes from an index upward, moves each into the word at its low end, and goes on
with the word. -/
def gather (start : Int) (count : Nat) (w : UInt64) (next : UInt64 → Work α) : Work α :=
  match count with
  | 0 => next w
  | count + 1 => load start fun b => gather (start + 1) count (Word.shiftIn w b) next

/-- Stores so many of the lowest bytes of a word from an index upward, the last one first, and goes
on. -/
def scatter (start : Int) (count : Nat) (w : UInt64) (rest : Work α) : Work α :=
  match count with
  | 0 => rest
  | count + 1 => store (start + count) w.toUInt8 (scatter start count (w >>> 8) rest)

/-- Reads the identifier at an offset. -/
def decode (o : Int64) : Work Uuid :=
  check o <|
    gather o.toInt 8 0 fun high =>
    gather (o.toInt + 8) 8 0 fun low =>
    answer ⟨high, low⟩

/-- Writes an identifier at an offset. -/
def encode (o : Int64) (u : Uuid) : Work Unit :=
  check o <|
    scatter o.toInt 8 u.high <|
    scatter (o.toInt + 8) 8 u.low <|
    answer ()

/-- Rewrites the byte at an index and goes on. -/
def modify (k : Int) (f : UInt8 → UInt8) (rest : Work α) : Work α :=
  load k fun b => store k (f b) rest

/-- Stamps the identifier at an offset with a code, and reads it. -/
def stamp (o : Int64) (code : Int32) : Work Uuid :=
  check o <|
    match versionOfCode code with
    | .error f => fault f
    | .ok version =>
      modify (o.toInt + Uuid.versionOffset) (stampVersionByte version) <|
      modify (o.toInt + Uuid.variantOffset) stampVariantByte <|
      decode o

end Work

/-! ### On a region -/

namespace Region

/-- The byte at an index, if the index lies inside the claimed length. -/
def byteAt? (r : Region) (k : Int) : Option UInt8 :=
  if 0 ≤ k ∧ k < r.length.toNat then r.contents[k.toNat]? else none

/-- The region with the byte at an index replaced. -/
def setByte (r : Region) (k : Int) (b : UInt8) : Region :=
  { r with bytes := r.bytes.map (·.set k.toNat b) }

/-- In reach of a backed region there is memory, and the sixteen indexes lie both inside it and
inside the claimed length. -/
theorem InReach.exists_eq {r : Region} {o : Int64} (h : r.InReach o) (hb : r.Backed) :
    ∃ bs length, r = ⟨some bs, length⟩ ∧ o.toInt = o.toNatClampNeg ∧
      o.toNatClampNeg + Uuid.size ≤ length.toNat ∧ o.toNatClampNeg + Uuid.size ≤ bs.length := by
  have hoffset : o.toInt = o.toNatClampNeg := by
    rw [← Int64.toNat_toInt, Int.toNat_of_nonneg h.nonneg]
  obtain ⟨bytes, length⟩ := r
  obtain ⟨bs, rfl⟩ := Option.isSome_iff_exists.mp h.isSome
  have hroom : o.toInt + Uuid.size ≤ length.toNat := h.le_length
  exact ⟨bs, length, rfl, hoffset, by omega, h.add_size_le hb⟩

end Region

namespace Work

variable {α : Type}

/-- How work has ended, and what it has done until then. -/
structure Outcome (α : Type) where
  /-- The answer, or the fault. -/
  ending : Except ArgumentFault α
  /-- The region left behind. -/
  region : Region
  /-- The indexes touched, in order. -/
  touched : List Int

/-- The outcome of work that has touched an index before. -/
def Outcome.touching (k : Int) (x : Outcome α) : Outcome α :=
  { x with touched := k :: x.touched }

/-- What work does on a region. Work that touches an index where the region has no byte has no
outcome. -/
def run (r : Region) : Work α → Option (Outcome α)
  | answer a => some ⟨.ok a, r, []⟩
  | fault f => some ⟨.error f, r, []⟩
  | check o rest =>
    match r.check o with
    | .ok _ => rest.run r
    | .error f => some ⟨.error f, r, []⟩
  | load k next => (r.byteAt? k).bind fun b => ((next b).run r).map (.touching k)
  | store k b rest => (r.byteAt? k).bind fun _ => (rest.run (r.setByte k b)).map (.touching k)

/-- Work **ends** on a region if it has an outcome there. -/
def Ends (x : Work α) (r : Region) (ending : Except ArgumentFault α) (last : Region) : Prop :=
  ∃ touched, x.run r = some ⟨ending, last, touched⟩

/-- Work **stays within** a range of indexes if it loads and stores nowhere else, whatever the bytes
are that it loads. -/
def StaysWithin (range : Set Int) : Work α → Prop
  | answer _ => True
  | fault _ => True
  | check _ rest => rest.StaysWithin range
  | load k next => k ∈ range ∧ ∀ b, (next b).StaysWithin range
  | store k _ rest => k ∈ range ∧ rest.StaysWithin range

/-- **A run** of work that stays within a range touches no other index. -/
theorem StaysWithin.mem_of_mem_touched {x : Work α} {range : Set Int} (h : x.StaysWithin range)
    {r : Region} {outcome : Outcome α} (hrun : x.run r = some outcome) :
    ∀ k ∈ outcome.touched, k ∈ range := by
  induction x generalizing r outcome with
  | answer a | fault f =>
    obtain rfl := Option.some.inj hrun
    exact List.forall_mem_nil _
  | check o rest ih =>
    rw [run] at hrun
    split at hrun
    · exact ih h hrun
    · obtain rfl := Option.some.inj hrun
      exact List.forall_mem_nil _
  | load k next ih =>
    obtain ⟨b, -, hloaded⟩ := Option.bind_eq_some_iff.mp hrun
    obtain ⟨outcome, hnext, rfl⟩ := Option.map_eq_some_iff.mp hloaded
    exact List.forall_mem_cons.mpr ⟨h.1, ih b (h.2 b) hnext⟩
  | store k b rest ih =>
    obtain ⟨-, -, hstored⟩ := Option.bind_eq_some_iff.mp hrun
    obtain ⟨outcome, hrest, rfl⟩ := Option.map_eq_some_iff.mp hstored
    exact List.forall_mem_cons.mpr ⟨h.1, ih h.2 hrest⟩

/-- Work that ends and stays within a range has a run that touches no other index. -/
theorem Ends.exists_run {x : Work α} {range : Set Int} {r last : Region}
    {ending : Except ArgumentFault α} (h : x.Ends r ending last) (hstays : x.StaysWithin range) :
    ∃ touched, x.run r = some ⟨ending, last, touched⟩ ∧ ∀ k ∈ touched, k ∈ range := by
  obtain ⟨touched, hrun⟩ := h
  exact ⟨touched, hrun, hstays.mem_of_mem_touched hrun⟩

/-- **Check first**: work whose check fails ends there, and has touched nothing. -/
theorem run_check_of_eq_error {r : Region} {o : Int64} {fault : ArgumentFault}
    (h : r.check o = .error fault) (rest : Work α) :
    (Work.check o rest).run r = some ⟨.error fault, r, []⟩ := by
  rw [run, h]

namespace Ends

variable {r s : Region} {ending : Except ArgumentFault α}

theorem answer (r : Region) (a : α) : (Work.answer a).Ends r (.ok a) r :=
  ⟨[], rfl⟩

theorem check {o : Int64} {rest : Work α} (h : r.check o = .ok ()) (hrest : rest.Ends r ending s) :
    (Work.check o rest).Ends r ending s := by
  obtain ⟨touched, hrun⟩ := hrest
  exact ⟨touched, by rw [run, h, ← hrun]⟩

theorem load {k : Int} {b : UInt8} {next : UInt8 → Work α} (hb : r.byteAt? k = some b)
    (hnext : (next b).Ends r ending s) : (Work.load k next).Ends r ending s := by
  obtain ⟨touched, hrun⟩ := hnext
  exact ⟨k :: touched, by rw [run, hb, Option.bind_some, hrun]; rfl⟩

theorem store {k : Int} {b old : UInt8} {rest : Work α} (hold : r.byteAt? k = some old)
    (hrest : rest.Ends (r.setByte k b) ending s) : (Work.store k b rest).Ends r ending s := by
  obtain ⟨touched, hrun⟩ := hrest
  exact ⟨k :: touched, by rw [run, hold, Option.bind_some, hrun]; rfl⟩

end Ends

/-! ### Loops -/

section Ranges

variable {range : Set Int} {start : Int} {count : Nat}

theorem StaysWithin.gather {w : UInt64} {next : UInt64 → Work α}
    (hrange : Set.Ico start (start + count) ⊆ range) (hnext : ∀ w, (next w).StaysWithin range) :
    (Work.gather start count w next).StaysWithin range := by
  induction count generalizing start w with
  | zero => exact hnext w
  | succ count ih =>
    have htail : Set.Ico (start + 1) (start + 1 + count) ⊆
        Set.Ico start (start + (count + 1 : Nat)) :=
      Set.Ico_subset_Ico (by omega) (by omega)
    exact ⟨hrange ⟨le_rfl, by omega⟩, fun b => ih (htail.trans hrange)⟩

theorem StaysWithin.scatter {w : UInt64} {rest : Work α}
    (hrange : Set.Ico start (start + count) ⊆ range) (hrest : rest.StaysWithin range) :
    (Work.scatter start count w rest).StaysWithin range := by
  induction count generalizing w with
  | zero => exact hrest
  | succ count ih =>
    have hhead : Set.Ico start (start + count) ⊆ Set.Ico start (start + (count + 1 : Nat)) :=
      Set.Ico_subset_Ico le_rfl (by omega)
    exact ⟨hrange ⟨by omega, by omega⟩, ih (hhead.trans hrange)⟩

end Ranges

section Loops

variable {bs : Bytes} {length : UInt64} {s : Region} {ending : Except ArgumentFault α}
  {k start count : Nat}

theorem byteAt?_natCast (hlength : k < length.toNat) (hbs : k < bs.length) :
    Region.byteAt? ⟨some bs, length⟩ k = some bs[k] := by
  rw [Region.byteAt?, if_pos ⟨Int.natCast_nonneg k, Int.ofNat_lt.mpr hlength⟩, Int.toNat_natCast]
  exact List.getElem?_eq_getElem hbs

theorem Ends.modify {f : UInt8 → UInt8} {rest : Work α} (hlength : k < length.toNat)
    (hbs : k < bs.length) (hrest : rest.Ends ⟨some (bs.modify k f), length⟩ ending s) :
    (Work.modify k f rest).Ends ⟨some bs, length⟩ ending s := by
  have hbyte := byteAt?_natCast hlength hbs
  have hset : Region.setByte ⟨some bs, length⟩ k (f bs[k]) = ⟨some (bs.modify k f), length⟩ := by
    rw [Region.setByte, Int.toNat_natCast, List.modify_eq_set, List.getElem?_eq_getElem hbs]
    rfl
  exact .load hbyte (.store hbyte (by rwa [hset]))

/-- **The loop that loads** yields the bytes of a window, moved into a word. -/
theorem Ends.gather {w : UInt64} {next : UInt64 → Work α} (hlength : start + count ≤ length.toNat)
    (hbs : start + count ≤ bs.length)
    (hnext : (next ((bs.window start count).foldl Word.shiftIn w)).Ends ⟨some bs, length⟩ ending
      s) :
    (Work.gather start count w next).Ends ⟨some bs, length⟩ ending s := by
  induction count generalizing start w with
  | zero => exact hnext
  | succ count ih =>
    have hstart : start < bs.length := by omega
    rw [Bytes.window_succ hstart] at hnext
    have hrest : (Work.gather (start + 1 : Nat) count (Word.shiftIn w bs[start]) next).Ends
        ⟨some bs, length⟩ ending s :=
      ih (by omega) (by omega) hnext
    exact .load (byteAt?_natCast (by omega) hstart) hrest

/-- **The loop that stores** writes the bytes of a word. -/
theorem Ends.scatter {w : UInt64} {rest : Work α} (hlength : start + count ≤ length.toNat)
    (hbs : start + count ≤ bs.length)
    (hrest : rest.Ends ⟨some (bs.splice start (Word.lowBytes count w)), length⟩ ending s) :
    (Work.scatter start count w rest).Ends ⟨some bs, length⟩ ending s := by
  induction count generalizing bs w with
  | zero => rwa [Word.lowBytes, Bytes.splice_nil] at hrest
  | succ count ih =>
    have hlast : start + count < bs.length := by omega
    have hsplice : Bytes.splice (bs.set (start + count) w.toUInt8) start
        (Word.lowBytes count (w >>> 8)) = bs.splice start (Word.lowBytes (count + 1) w) := by
      have hlen := Word.length_lowBytes count (w >>> 8)
      rw [Word.lowBytes, ← Bytes.splice_set _ (by rwa [hlen]), hlen]
    have hset : Region.setByte ⟨some bs, length⟩ (start + count : Nat) w.toUInt8 =
        ⟨some (bs.set (start + count) w.toUInt8), length⟩ := rfl
    rw [Work.scatter, ← Int.natCast_add]
    refine .store (byteAt?_natCast (by omega) hlast) ?_
    rw [hset]
    refine ih ?_ ?_ (by rwa [hsplice])
    · omega
    · rw [List.length_set]
      omega

end Loops

/-! ### The accesses -/

section Accesses

variable {r : Region} {o : Int64}

/-- The sixteen indexes from an offset on. -/
def window (o : Int64) : Set Int :=
  Set.Ico o.toInt (o.toInt + Uuid.size)

theorem first_subset_window (o : Int64) : Set.Ico o.toInt (o.toInt + (8 : Nat)) ⊆ window o :=
  Set.Ico_subset_Ico le_rfl (by rw [Uuid.size]; omega)

theorem last_subset_window (o : Int64) :
    Set.Ico (o.toInt + 8) (o.toInt + 8 + (8 : Nat)) ⊆ window o :=
  Set.Ico_subset_Ico (by omega) (by rw [Uuid.size]; omega)

theorem add_mem_window (o : Int64) {k : Nat} (hk : k < Uuid.size) : o.toInt + k ∈ window o :=
  ⟨by omega, by omega⟩

theorem decode_staysWithin (o : Int64) : (decode o).StaysWithin (window o) :=
  .gather (first_subset_window o) fun _ => .gather (last_subset_window o) fun _ => trivial

theorem encode_staysWithin (o : Int64) (u : Uuid) : (encode o u).StaysWithin (window o) :=
  .scatter (first_subset_window o) (.scatter (last_subset_window o) trivial)

theorem stamp_staysWithin (o : Int64) (code : Int32) : (stamp o code).StaysWithin (window o) := by
  have hversion := add_mem_window o (show Uuid.versionOffset < Uuid.size by decide)
  have hvariant := add_mem_window o (show Uuid.variantOffset < Uuid.size by decide)
  rw [stamp, StaysWithin]
  split
  · trivial
  · exact ⟨hversion, fun _ => ⟨hversion, hvariant, fun _ => ⟨hvariant, decode_staysWithin o⟩⟩⟩

theorem ofBytes_window (bs : Bytes) (offset : Nat) :
    Uuid.ofBytes (bs.window offset Uuid.size) =
      ⟨(bs.window offset 8).foldl Word.shiftIn 0,
        (bs.window (offset + 8) 8).foldl Word.shiftIn 0⟩ := by
  have hlow := Bytes.take_window bs (offset + 8) 8 0
  rw [Nat.add_zero] at hlow
  rw [Uuid.ofBytes, Word.ofBytes, Word.ofBytes, show Uuid.size = 8 + 8 from rfl, Bytes.take_window,
    Bytes.drop_window, hlow]

theorem decode_ends (hb : r.Backed) (ho : r.InReach o) : (decode o).Ends r (.ok (r.read o)) r := by
  have hcheck := Region.check_eq_ok_iff.mpr ho
  obtain ⟨bs, length, rfl, hoffset, hlength, hbs⟩ := ho.exists_eq hb
  rw [Uuid.size] at hlength hbs
  have hread : Region.read ⟨some bs, length⟩ o = _ := ofBytes_window bs o.toNatClampNeg
  have hlow : (o.toNatClampNeg : Int) + 8 = (o.toNatClampNeg + 8 : Nat) := rfl
  rw [decode, hread, hoffset, hlow]
  refine .check hcheck ?_
  refine .gather (by omega) (by omega) ?_
  refine .gather (by omega) (by omega) ?_
  exact .answer _ _

theorem encode_ends (hb : r.Backed) (ho : r.InReach o) (u : Uuid) :
    (encode o u).Ends r (.ok ()) (r.write o u) := by
  have hcheck := Region.check_eq_ok_iff.mpr ho
  obtain ⟨bs, length, rfl, hoffset, hlength, hbs⟩ := ho.exists_eq hb
  rw [Uuid.size] at hlength hbs
  have hlow : (o.toNatClampNeg : Int) + 8 = (o.toNatClampNeg + 8 : Nat) := rfl
  have hfits : o.toNatClampNeg + (Word.lowBytes 8 u.high).length ≤ bs.length := by
    rw [Word.length_lowBytes]
    omega
  have hlen : (bs.splice o.toNatClampNeg (Word.lowBytes 8 u.high)).length = bs.length :=
    Bytes.length_splice hfits
  have hwritten : (bs.splice o.toNatClampNeg (Word.lowBytes 8 u.high)).splice (o.toNatClampNeg + 8)
      (Word.lowBytes 8 u.low) = bs.splice o.toNatClampNeg u.toBytes := by
    have hsplice : _ = bs.splice o.toNatClampNeg
        (Word.lowBytes 8 u.high ++ Word.lowBytes 8 u.low) := Bytes.splice_splice hfits
    rwa [Word.length_lowBytes] at hsplice
  rw [encode, hoffset, hlow]
  refine .check hcheck ?_
  refine .scatter (by omega) (by omega) ?_
  refine .scatter (by omega) (by omega) ?_
  rw [hwritten]
  exact .answer _ _

theorem stamp_ends (hb : r.Backed) (ho : r.InReach o) {code : Int32} {version : Fin 16}
    (hcode : versionOfCode code = .ok version) :
    ∃ next u, r.stamp o code = .ok (next, u) ∧ (stamp o code).Ends r (.ok u) next := by
  have hcheck := Region.check_eq_ok_iff.mpr ho
  obtain ⟨bs, length, rfl, hoffset, hlength, hbs⟩ := ho.exists_eq hb
  let stamped : Region := ⟨some (Region.stampedBytes bs o.toNatClampNeg version), length⟩
  have hstamped : stamped.InReach o := ⟨rfl, ho.nonneg, ho.le_length⟩
  have hlen : (Region.stampedBytes bs o.toNatClampNeg version).length = bs.length := by
    rw [Region.stampedBytes, List.length_modify, List.length_modify]
  have hbacked : stamped.Backed := by
    rintro _ ⟨⟩
    rw [hlen]
    exact hb bs rfl
  have hversion : Uuid.versionOffset < Uuid.size := by decide
  have hvariant : Uuid.variantOffset < Uuid.size := by decide
  refine ⟨stamped, stamped.read o, ?_, ?_⟩
  · rw [Region.stamp, hcheck, hcode]
    rfl
  rw [stamp, hcode]
  refine .check hcheck ?_
  dsimp only
  rw [hoffset, ← Int.natCast_add, ← Int.natCast_add]
  refine .modify (by omega) (by omega) ?_
  refine .modify (by omega) (by rw [List.length_modify]; omega) ?_
  exact decode_ends hbacked hstamped

end Accesses

end Work

/-! ### Refusals -/

namespace ArgumentFault

/-- A negative offset is named in decimal. -/
theorem message_negativeOffset (o : Int64) :
    (negativeOffset o).message =
      Bytes.ascii ("Invalid offset (" ++ toString o.toInt ++ ") passed: can not be negative") := by
  rw [message, Numeral.signedDecimal_eq_ascii, Bytes.ascii_append, Bytes.ascii_append]

/-- An offset too far up is named in decimal, and so is the length. -/
theorem message_noRoom (o : Int64) (length : UInt64) :
    (noRoom o length).message =
      Bytes.ascii ("Invalid offset (" ++ toString o.toInt
        ++ ") passed: not enough room in byte buffer of " ++ toString length.toNat
        ++ " bytes (need 16 bytes)") := by
  rw [message, Numeral.signedDecimal_eq_ascii, Numeral.decimal_eq_ascii]
  simp only [Bytes.ascii_append]

end ArgumentFault

namespace Region

variable {r : Region} {o : Int64} {code : Int32} {fault : ArgumentFault}

/-- Memory that is missing is refused first. -/
theorem check_of_missing (h : r.bytes = none) (o : Int64) : r.check o = .error .missingBuffer := by
  rw [check_eq, extent, h]
  rfl

theorem check_of_neg (hmemory : r.bytes ≠ none) (h : o.toInt < 0) :
    r.check o = .error (.negativeOffset o) := by
  obtain ⟨bs, hbs⟩ := Option.ne_none_iff_exists'.mp hmemory
  rw [check_eq, extent, hbs, Option.map_some, refusal?, if_pos h]
  rfl

theorem check_of_lt_add (hmemory : r.bytes ≠ none) (hnonneg : 0 ≤ o.toInt)
    (h : r.length.toNat < o.toInt + Uuid.size) : r.check o = .error (.noRoom o r.length) := by
  obtain ⟨bs, hbs⟩ := Option.ne_none_iff_exists'.mp hmemory
  rw [check_eq, extent, hbs, Option.map_some, refusal?, if_neg (Int.not_lt.mpr hnonneg), if_pos h]
  rfl

theorem check_eq_ok_iff_forall :
    r.check o = .ok () ↔ r.bytes ≠ none ∧ 0 ≤ o.toInt ∧ o.toInt + 16 ≤ r.length.toNat := by
  rw [check_eq_ok_iff, ← Option.isSome_iff_ne_none]
  exact ⟨fun h => ⟨h.isSome, h.nonneg, h.le_length⟩, fun h => ⟨h.1, h.2.1, h.2.2⟩⟩

/-! ### Together -/

/-- **The check guards every access.** It lets pass exactly the offsets from which on sixteen bytes
lie inside the claimed length of memory that is there, in the arithmetic of the integers. Otherwise
the first of three conditions that is violated is named, with the offset and the length in decimal.
Reading, writing, and stamping with a code that fits fail exactly where the check does, with its
fault, and have then touched nothing. Where the check passes they stay, whatever memory holds,
within the sixteen indexes from the offset on, which lie inside the claimed length; and if memory is
as long as claimed, they run to their end and touch nothing else. -/
theorem check_guards_every_access :
    (∀ (r : Region) (o : Int64),
      (r.check o = .ok () ↔ r.bytes ≠ none ∧ 0 ≤ o.toInt ∧ o.toInt + 16 ≤ r.length.toNat) ∧
      (r.bytes = none → ∃ fault, r.check o = .error fault ∧
        fault.message = Bytes.ascii "Invalid byte buffer passed: can not be null") ∧
      (r.bytes ≠ none → o.toInt < 0 → ∃ fault, r.check o = .error fault ∧
        fault.message = Bytes.ascii
          ("Invalid offset (" ++ toString o.toInt ++ ") passed: can not be negative")) ∧
      (r.bytes ≠ none → 0 ≤ o.toInt → r.length.toNat < o.toInt + 16 →
        ∃ fault, r.check o = .error fault ∧
          fault.message = Bytes.ascii
            ("Invalid offset (" ++ toString o.toInt
              ++ ") passed: not enough room in byte buffer of " ++ toString r.length.toNat
              ++ " bytes (need 16 bytes)"))) ∧
    (∀ (r : Region) (o : Int64) (fault : ArgumentFault),
      (r.decode o = .error fault ↔ r.check o = .error fault) ∧
      (∀ u, r.encode o u = .error fault ↔ r.check o = .error fault) ∧
      ∀ code : Int32, 0 ≤ code.toInt → code.toInt ≤ 15 →
        (r.stamp o code = .error fault ↔ r.check o = .error fault)) ∧
    (∀ (r : Region) (o : Int64) (fault : ArgumentFault), r.check o = .error fault →
      (Work.decode o).run r = some ⟨.error fault, r, []⟩ ∧
      (∀ u, (Work.encode o u).run r = some ⟨.error fault, r, []⟩) ∧
      ∀ code, (Work.stamp o code).run r = some ⟨.error fault, r, []⟩) ∧
    (∀ (r : Region) (o : Int64), r.check o = .ok () →
      Set.Ico o.toInt (o.toInt + 16) ⊆ Set.Ico 0 (r.length.toNat : Int) ∧
      (Work.decode o).StaysWithin (Set.Ico o.toInt (o.toInt + 16)) ∧
      (∀ u, (Work.encode o u).StaysWithin (Set.Ico o.toInt (o.toInt + 16))) ∧
      ∀ code, (Work.stamp o code).StaysWithin (Set.Ico o.toInt (o.toInt + 16))) ∧
    ∀ (r : Region) (o : Int64), r.Backed → r.check o = .ok () →
      (∃ u touched, r.decode o = .ok u ∧ (Work.decode o).run r = some ⟨.ok u, r, touched⟩ ∧
        ∀ k ∈ touched, k ∈ Set.Ico o.toInt (o.toInt + 16)) ∧
      (∀ u, ∃ next touched, r.encode o u = .ok next ∧
        (Work.encode o u).run r = some ⟨.ok (), next, touched⟩ ∧
        ∀ k ∈ touched, k ∈ Set.Ico o.toInt (o.toInt + 16)) ∧
      ∀ code : Int32, 0 ≤ code.toInt → code.toInt ≤ 15 →
        ∃ next u touched, r.stamp o code = .ok (next, u) ∧
          (Work.stamp o code).run r = some ⟨.ok u, next, touched⟩ ∧
          ∀ k ∈ touched, k ∈ Set.Ico o.toInt (o.toInt + 16) := by
  refine ⟨fun r o => ⟨check_eq_ok_iff_forall, fun h => ?_, fun hmemory h => ?_,
    fun hmemory hnonneg h => ?_⟩, fun r o fault => ⟨map_eq_error_iff, fun u => map_eq_error_iff,
    fun code hlo hhi => ?_⟩, fun r o fault h => ?_, fun r o h => ?_, fun r o hb h => ?_⟩
  · exact ⟨_, check_of_missing h o, rfl⟩
  · exact ⟨_, check_of_neg hmemory h, ArgumentFault.message_negativeOffset o⟩
  · exact ⟨_, check_of_lt_add hmemory hnonneg h, ArgumentFault.message_noRoom o r.length⟩
  · obtain ⟨version, hcode⟩ := Uuid.exists_version_eq hlo hhi
    rw [stamp_eq_error_iff, versionOfCode_eq_ok_iff.mpr hcode]
    simp
  · exact ⟨Work.run_check_of_eq_error h _, fun u => Work.run_check_of_eq_error h _,
      fun code => Work.run_check_of_eq_error h _⟩
  · have ho : r.InReach o := check_eq_ok_iff.mp h
    exact ⟨Set.Ico_subset_Ico ho.nonneg ho.le_length, Work.decode_staysWithin o,
      Work.encode_staysWithin o, Work.stamp_staysWithin o⟩
  · have ho : r.InReach o := check_eq_ok_iff.mp h
    refine ⟨?_, fun u => ?_, fun code hlo hhi => ?_⟩
    · obtain ⟨touched, hrun⟩ := (Work.decode_ends hb ho).exists_run (Work.decode_staysWithin o)
      exact ⟨r.read o, touched, decode_of_inReach ho, hrun⟩
    · obtain ⟨touched, hrun⟩ := (Work.encode_ends hb ho u).exists_run (Work.encode_staysWithin o u)
      exact ⟨r.write o u, touched, encode_of_inReach ho u, hrun⟩
    · obtain ⟨version, hcode⟩ := Uuid.exists_version_eq hlo hhi
      obtain ⟨next, u, hstamp, hends⟩ :=
        Work.stamp_ends hb ho (versionOfCode_eq_ok_iff.mpr hcode)
      obtain ⟨touched, hrun⟩ := hends.exists_run (Work.stamp_staysWithin o code)
      exact ⟨next, u, touched, hstamp, hrun⟩

/-- Twenty bytes: the last offset in reach, the one behind it, the greatest and the least offset of
all; and no memory, of whatever claimed length. -/
theorem check_guards_every_access_of_ends :
    let r := ofBytes (List.replicate 20 0xAB)
    let missing : Region := ⟨none, 0xFFFFFFFFFFFFFFFF⟩
    (missing.bytes = none ∧ ∃ fault, missing.check 0 = .error fault ∧
      fault.message = Bytes.ascii "Invalid byte buffer passed: can not be null") ∧
    (r.bytes ≠ none ∧ (-0x8000000000000000 : Int64).toInt < 0 ∧
      ∃ fault, r.check (-0x8000000000000000) = .error fault ∧
        fault.message = Bytes.ascii
          "Invalid offset (-9223372036854775808) passed: can not be negative") ∧
    (0 ≤ (0x7FFFFFFFFFFFFFFF : Int64).toInt ∧
      r.length.toNat < (0x7FFFFFFFFFFFFFFF : Int64).toInt + 16 ∧
      ∃ fault, r.check 0x7FFFFFFFFFFFFFFF = .error fault ∧
        fault.message = Bytes.ascii
          ("Invalid offset (9223372036854775807) passed: not enough room in byte buffer of 20 bytes"
            ++ " (need 16 bytes)")) ∧
    (r.check 5 = .error (.noRoom 5 20) ∧ r.stamp 5 7 = .error (.noRoom 5 20) ∧
      (Work.stamp 5 7).run r = some ⟨.error (.noRoom 5 20), r, []⟩) ∧
    r.Backed ∧ r.check 4 = .ok () ∧ (0 ≤ (7 : Int32).toInt ∧ (7 : Int32).toInt ≤ 15) ∧
      (Work.stamp 4 7).StaysWithin (Set.Ico 4 20) ∧
      ∃ next u touched, r.stamp 4 7 = .ok (next, u) ∧
        (Work.stamp 4 7).run r = some ⟨.ok u, next, touched⟩ ∧ ∀ k ∈ touched, k ∈ Set.Ico 4 20 := by
  intro r missing
  obtain ⟨hchecks, hfails, hrefused, hstays, haccess⟩ := check_guards_every_access
  have hmemory : r.bytes ≠ none := by decide
  have hnegative : (-0x8000000000000000 : Int64).toInt < 0 := by decide
  have hnonneg : 0 ≤ (0x7FFFFFFFFFFFFFFF : Int64).toInt := by decide
  have hshort : r.length.toNat < (0x7FFFFFFFFFFFFFFF : Int64).toInt + 16 := by decide
  have hfive : r.check 5 = .error (.noRoom 5 20) := by decide
  have hfour : r.check 4 = .ok () := by decide
  have hlo : 0 ≤ (7 : Int32).toInt := by decide
  have hhi : (7 : Int32).toInt ≤ 15 := by decide
  have hb : r.Backed := backed_ofBytes _
  obtain ⟨least, hleast, hleastMessage⟩ :=
    (hchecks r (-0x8000000000000000)).2.2.1 hmemory hnegative
  obtain ⟨greatest, hgreatest, hgreatestMessage⟩ :=
    (hchecks r 0x7FFFFFFFFFFFFFFF).2.2.2 hmemory hnonneg hshort
  exact ⟨⟨rfl, (hchecks missing 0).2.1 rfl⟩,
    ⟨hmemory, hnegative, least, hleast,
      hleastMessage.trans (congrArg Bytes.ascii (by decide +kernel))⟩,
    ⟨hnonneg, hshort, greatest, hgreatest,
      hgreatestMessage.trans (congrArg Bytes.ascii (by decide +kernel))⟩,
    ⟨hfive, ((hfails r 5 _).2.2 7 hlo hhi).mpr hfive, (hrefused r 5 _ hfive).2.2 7⟩,
    hb, hfour, ⟨hlo, hhi⟩, (hstays r 4 hfour).2.2.2 7, (haccess r 4 hb hfour).2.2 7 hlo hhi⟩

end Region

end UniqueId
