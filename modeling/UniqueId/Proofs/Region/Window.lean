import UniqueId.Proofs.Uuid.Binary
import UniqueId.Region

/-!
# Windows of a region

Once an offset is in reach and the claimed length is backed by memory, every access is a load or a
store of one identifier: `read` takes it from its window and `write` puts it there.

* **In reach, the accesses are these** (`decode_of_inReach`, `encode_of_inReach`). In particular
  the stamp that works on two bytes stores what the stamp on two words yields
  (`stamp_of_inReach`).
* **Laws of the window.** What was written is read (`read_write_self`), what was read may be written
  back (`write_read`), and a window sixteen bytes away shows nothing of it (`read_write_of_apart`).
* **Out of reach, the accesses refuse** with a fault that depends on the memory's extent alone
  (`check_eq`).
-/

namespace UniqueId

/-! ### Windows of bytes -/

namespace Bytes

/-- **Write after read**: a window put back where it was taken from changes nothing. -/
theorem splice_window {bs : Bytes} {offset size : Nat} (h : offset + size ≤ bs.length) :
    bs.splice offset (bs.window offset size) = bs := by
  rw [splice, length_window h, window, List.append_assoc, ← List.drop_drop,
    List.take_append_drop, List.take_append_drop]

/-- A window away from the one written shows the old bytes. -/
theorem window_splice_of_disjoint {bs new : Bytes} {offset other size : Nat}
    (h : offset + new.length ≤ bs.length)
    (hdisjoint : other + size ≤ offset ∨ offset + new.length ≤ other) :
    (bs.splice offset new).window other size = bs.window other size := by
  refine List.ext_getElem? fun k => ?_
  rw [getElem?_window, getElem?_window]
  split
  · next hk =>
    obtain hbelow | habove := hdisjoint
    · exact getElem?_splice_of_lt h (by omega)
    · exact getElem?_splice_of_le h (by omega)
  · rfl

/-- Changing a byte of the new bytes is changing it after they are written. -/
theorem splice_modify {bs new : Bytes} {offset k : Nat} (f : UInt8 → UInt8)
    (h : offset + new.length ≤ bs.length) (hk : k < new.length) :
    bs.splice offset (new.modify k f) = (bs.splice offset new).modify (offset + k) f := by
  have h' : offset + (new.modify k f).length ≤ bs.length := by rwa [List.length_modify]
  refine List.ext_getElem? fun i => ?_
  rw [List.getElem?_modify]
  obtain hbelow | hfrom := Nat.lt_or_ge i offset
  · have hne : offset + k ≠ i := by omega
    simp [getElem?_splice_of_lt h hbelow, getElem?_splice_of_lt h' hbelow, hne]
  obtain hinside | habove := Nat.lt_or_ge i (offset + new.length)
  · have hindex : offset + k = i ↔ k = i - offset := by omega
    rw [getElem?_splice_of_mem h hfrom hinside,
      getElem?_splice_of_mem h' hfrom (by rwa [List.length_modify]), List.getElem?_modify]
    simp only [hindex]
  · have hne : offset + k ≠ i := by omega
    have habove' : offset + (new.modify k f).length ≤ i := by rwa [List.length_modify]
    simp [getElem?_splice_of_le h habove, getElem?_splice_of_le h' habove', hne]

end Bytes

namespace Region

variable {r : Region} {o p : Int64} {u : Uuid}

/-! ### Loads and stores -/

/-- The identifier in the window at an offset. -/
def read (r : Region) (o : Int64) : Uuid :=
  Uuid.ofBytes (r.contents.window o.toNatClampNeg Uuid.size)

/-- The region with an identifier in the window at an offset. -/
def write (r : Region) (o : Int64) (u : Uuid) : Region :=
  { r with bytes := some (r.contents.splice o.toNatClampNeg u.toBytes) }

/-- **Backed**: the memory, if there is any, is at least as long as the caller claims. -/
def Backed (r : Region) : Prop :=
  ∀ bs ∈ r.bytes, r.length.toNat ≤ bs.length

/-- A backed window lies inside the memory. -/
theorem InReach.add_size_le (h : r.InReach o) (hb : r.Backed) :
    o.toNatClampNeg + Uuid.size ≤ r.contents.length := by
  obtain ⟨bs, hbs⟩ := Option.isSome_iff_exists.mp h.isSome
  have hbacked : r.length.toNat ≤ bs.length := hb bs hbs
  have hroom := h.le_length
  have hnonneg := h.nonneg
  rw [contents, hbs, Option.getD_some, Uuid.size, ← Int64.toNat_toInt]
  omega

theorem InReach.add_length_toBytes_le (h : r.InReach o) (hb : r.Backed) (u : Uuid) :
    o.toNatClampNeg + u.toBytes.length ≤ r.contents.length := by
  rw [Uuid.length_toBytes]
  exact h.add_size_le hb

/-- A region that consists of some bytes is backed by them. -/
theorem backed_ofBytes (bs : Bytes) : (ofBytes bs).Backed := by
  intro bs' hbs'
  obtain rfl := Option.some.inj hbs'
  rw [ofBytes, UInt64.toNat_ofNat']
  exact Nat.mod_le _ _

@[simp] theorem contents_write (r : Region) (o : Int64) (u : Uuid) :
    (r.write o u).contents = r.contents.splice o.toNatClampNeg u.toBytes := rfl

theorem decode_of_inReach (h : r.InReach o) : r.decode o = .ok (r.read o) := by
  rw [decode, check_eq_ok_iff.mpr h]
  rfl

theorem encode_of_inReach (h : r.InReach o) (u : Uuid) : r.encode o u = .ok (r.write o u) := by
  rw [encode, check_eq_ok_iff.mpr h]
  rfl

/-- Stamping the two bytes in place is writing the stamped identifier. -/
theorem stampedBytes_eq {bs : Bytes} {offset : Nat} (version : Fin 16)
    (h : offset + Uuid.size ≤ bs.length) :
    stampedBytes bs offset version =
      bs.splice offset ((Uuid.ofBytes (bs.window offset Uuid.size)).stamp version).toBytes := by
  have hlen : (bs.window offset Uuid.size).length = Uuid.size := Bytes.length_window h
  have hfits : offset + (bs.window offset Uuid.size).length ≤ bs.length := by rwa [hlen]
  have hversion : Uuid.versionOffset < (bs.window offset Uuid.size).length := by
    rw [hlen]
    decide
  have hvariant : Uuid.variantOffset < (bs.window offset Uuid.size).length := by
    rw [hlen]
    decide
  rw [Uuid.toBytes_stamp, Uuid.toBytes_ofBytes hlen,
    Bytes.splice_modify _ (by rwa [List.length_modify]) (by rwa [List.length_modify]),
    Bytes.splice_modify _ hfits hversion, Bytes.splice_window h, stampedBytes]

/-- **The byte form and the word form agree**: in reach, stamping bytes in place stores and returns
the identifier stamped on its words. -/
theorem stamp_of_inReach (h : r.InReach o) (hb : r.Backed) (code : Int32) :
    r.stamp o code = ((r.read o).stampWithCode code).map fun u => (r.write o u, u) := by
  have hfits := h.add_size_le hb
  rw [stamp, check_eq_ok_iff.mpr h, Uuid.stampWithCode]
  cases versionOfCode code with
  | error fault => rfl
  | ok version =>
    have hwritten : stampedBytes r.contents o.toNatClampNeg version =
        r.contents.splice o.toNatClampNeg ((r.read o).stamp version).toBytes :=
      stampedBytes_eq version hfits
    have hread : Uuid.ofBytes ((r.contents.splice o.toNatClampNeg
        ((r.read o).stamp version).toBytes).window o.toNatClampNeg Uuid.size) =
          (r.read o).stamp version := by
      rw [← Uuid.length_toBytes ((r.read o).stamp version), Bytes.window_splice (by simpa),
        Uuid.ofBytes_toBytes]
    simp only [Except.map, hwritten, hread]
    rfl

/-! ### Laws of the window -/

/-- **Read after write**. -/
theorem read_write_self (h : r.InReach o) (hb : r.Backed) (u : Uuid) :
    (r.write o u).read o = u := by
  have hwindow : (r.contents.splice o.toNatClampNeg u.toBytes).window o.toNatClampNeg Uuid.size =
      u.toBytes := by
    rw [← Uuid.length_toBytes u]
    exact Bytes.window_splice (h.add_length_toBytes_le hb u)
  rw [read, contents_write, hwindow, Uuid.ofBytes_toBytes]

/-- **Write after read**: an identifier put back where it was taken from changes nothing. -/
theorem write_read (h : r.InReach o) (hb : r.Backed) : r.write o (r.read o) = r := by
  have hfits := h.add_size_le hb
  obtain ⟨bs, hbs⟩ := Option.isSome_iff_exists.mp h.isSome
  rw [write, read, Uuid.toBytes_ofBytes (Bytes.length_window hfits), Bytes.splice_window hfits,
    contents, hbs, Option.getD_some, ← hbs]

/-- A window sixteen bytes away or more does not show what was written. -/
theorem read_write_of_apart (ho : r.InReach o) (hp : r.InReach p) (hb : r.Backed)
    (hapart : 16 ≤ (o.toInt - p.toInt).natAbs) (u : Uuid) :
    (r.write o u).read p = r.read p := by
  have hononneg := ho.nonneg
  have hpnonneg := hp.nonneg
  have hdisjoint : p.toNatClampNeg + Uuid.size ≤ o.toNatClampNeg ∨
      o.toNatClampNeg + u.toBytes.length ≤ p.toNatClampNeg := by
    rw [Uuid.length_toBytes, Uuid.size, ← Int64.toNat_toInt, ← Int64.toNat_toInt]
    omega
  rw [read, contents_write,
    Bytes.window_splice_of_disjoint (ho.add_length_toBytes_le hb u) hdisjoint, read]

/-- Inside the window written stand the bytes of the identifier. -/
theorem getElem?_contents_write_of_lt (h : r.InReach o) (hb : r.Backed) (u : Uuid) {k : Nat}
    (hk : k < Uuid.size) : (r.write o u).contents[o.toNatClampNeg + k]? = u.toBytes[k]? := by
  rw [← Uuid.length_toBytes u] at hk
  rw [contents_write, Bytes.getElem?_splice_of_mem (h.add_length_toBytes_le hb u)
    (Nat.le_add_right _ _) (Nat.add_lt_add_left hk _), Nat.add_sub_cancel_left]

/-- Outside the window written every byte stays. -/
theorem getElem?_contents_write (h : r.InReach o) (hb : r.Backed) (u : Uuid) {k : Nat}
    (hk : k < o.toNatClampNeg ∨ o.toNatClampNeg + Uuid.size ≤ k) :
    (r.write o u).contents[k]? = r.contents[k]? := by
  have hfits := h.add_length_toBytes_le hb u
  rw [← Uuid.length_toBytes u] at hk
  obtain hbelow | habove := hk
  · exact Bytes.getElem?_splice_of_lt hfits hbelow
  · exact Bytes.getElem?_splice_of_le hfits habove

theorem length_contents_write (h : r.InReach o) (hb : r.Backed) (u : Uuid) :
    (r.write o u).contents.length = r.contents.length :=
  Bytes.length_splice (h.add_length_toBytes_le hb u)

theorem Backed.write (h : r.InReach o) (hb : r.Backed) (u : Uuid) : (r.write o u).Backed := by
  obtain ⟨bs, hbs⟩ := Option.isSome_iff_exists.mp h.isSome
  have hbacked : r.length.toNat ≤ r.contents.length := by
    rw [contents, hbs]
    exact hb bs hbs
  intro bs' hbs'
  obtain rfl := Option.some.inj hbs'
  rw [← length_contents_write h hb u] at hbacked
  exact hbacked

/-! ### Refusals -/

/-- The extent of the memory behind a region: the claimed length, if there is any memory. -/
def extent (r : Region) : Option UInt64 :=
  r.bytes.map fun _ => r.length

/-- Why an access to memory of some extent is refused, if it is: no memory comes first, then a
negative offset, then too little room. The arithmetic is that of the integers. -/
def refusal? : Option UInt64 → Int64 → Option ArgumentFault
  | none, _ => some .missingBuffer
  | some length, o =>
    if o.toInt < 0 then some (.negativeOffset o)
    else if length.toNat < o.toInt + Uuid.size then some (.noRoom o length)
    else none

/-- What is in reach is what is not refused. -/
theorem inReach_iff : r.InReach o ↔ refusal? r.extent o = none := by
  rw [extent]
  constructor
  · intro h
    obtain ⟨bs, hbs⟩ := Option.isSome_iff_exists.mp h.isSome
    have hroom : ¬ r.length.toNat < o.toInt + Uuid.size := Int.not_lt.mpr h.le_length
    rw [hbs, Option.map_some, refusal?, if_neg (Int.not_lt.mpr h.nonneg), if_neg hroom]
  · intro h
    cases hbs : r.bytes with
    | none => simp [hbs, refusal?] at h
    | some bs =>
      rw [hbs, Option.map_some, refusal?] at h
      split at h
      · contradiction
      split at h
      · contradiction
      · next hnonneg hroom =>
        exact ⟨by rw [hbs]; rfl, Int.not_lt.mp hnonneg, Int.not_lt.mp hroom⟩

/-- Only the extent decides what is in reach. -/
theorem inReach_congr {s : Region} (h : r.extent = s.extent) : r.InReach o ↔ s.InReach o := by
  rw [inReach_iff, inReach_iff, h]

/-- The check refuses with the fault that the extent gives, and lets everything else pass. -/
theorem check_eq (r : Region) (o : Int64) :
    r.check o = (refusal? r.extent o).elim (.ok ()) .error := by
  by_cases h : r.InReach o
  · rw [check_eq_ok_iff.mpr h, inReach_iff.mp h]
    rfl
  -- out of reach the last branch of the check is not the one taken
  have hrefused : r.check o ≠ .ok () := mt check_eq_ok_iff.mp h
  rw [check] at hrefused ⊢
  rw [extent]
  cases hbs : r.bytes with
  | none => rfl
  | some bs =>
    have hnegative : o < 0 ↔ o.toInt < 0 := Int64.lt_iff_toInt_lt
    rw [if_neg (by simp)]
    rw [hbs, if_neg (by simp)] at hrefused
    rw [Option.map_some, refusal?]
    by_cases hneg : o < 0
    · rw [if_pos hneg, if_pos (hnegative.mp hneg)]
      rfl
    rw [if_neg hneg, if_neg (mt hnegative.mpr hneg)]
    rw [if_neg hneg] at hrefused
    have hroom : r.length.toNat < o.toInt + Uuid.size := by
      refine Int.not_le.mp fun hle => h ⟨?_, Int.not_lt.mp (mt hnegative.mpr hneg), hle⟩
      rw [hbs]
      rfl
    rw [if_pos hroom]
    split at hrefused
    · next hnoRoom => rw [if_pos hnoRoom]; rfl
    · contradiction

/-- A write leaves the extent as it is. -/
theorem extent_write (h : r.InReach o) (u : Uuid) : (r.write o u).extent = r.extent := by
  obtain ⟨bs, hbs⟩ := Option.isSome_iff_exists.mp h.isSome
  rw [extent, extent, hbs]
  rfl

/-- **Decode after encode**: the window just written decodes to what was written. -/
theorem decode_write_self (h : r.InReach o) (hb : r.Backed) (u : Uuid) :
    (r.write o u).decode o = .ok u := by
  have hreach : (r.write o u).InReach o := (inReach_congr (extent_write h u)).mpr h
  rw [decode_of_inReach hreach, read_write_self h hb]

end Region

end UniqueId
