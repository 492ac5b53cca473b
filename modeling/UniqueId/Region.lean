import UniqueId.Uuid.Binary
import UniqueId.Uuid.Stamp

/-!
# Identifiers in a caller's memory

A caller hands over a region of memory: its bytes, if there is any memory at all, and the length
it claims for them. An identifier occupies sixteen bytes from some offset on.

* **Check first.** Every access is refused unless all sixteen bytes lie inside the claimed length.
  The comparison is made on machine words, in a form in which nothing can overflow.
* **All or nothing.** A refused access yields a fault and no new region.
-/

namespace UniqueId

/-- Memory that a caller hands over. -/
structure Region where
  /-- The bytes in memory, if there is any memory. -/
  bytes : Option Bytes
  /-- The length that the caller claims. -/
  length : UInt64
deriving DecidableEq, Repr

namespace Region

/-- The region that consists of some bytes, its claimed length their number. -/
def ofBytes (bs : Bytes) : Region :=
  ⟨some bs, UInt64.ofNat bs.length⟩

/-- The region behind a growable array, which has no memory while the array is empty. -/
def ofGrowable : Bytes → Region
  | [] => ⟨none, 0⟩
  | b :: bs => ofBytes (b :: bs)

/-- The bytes in memory, none if there is no memory. -/
def contents (r : Region) : Bytes :=
  r.bytes.getD []

/-- Refuses an offset from which on the region has no sixteen bytes: no memory is reported first,
then a negative offset, then too little room. -/
def check (r : Region) (offset : Int64) : Except ArgumentFault Unit :=
  if r.bytes = none then .error .missingBuffer
  else if offset < 0 then .error (.negativeOffset offset)
  else if r.length < 16 ∨ r.length - 16 < offset.toUInt64 then
    .error (.noRoom offset r.length)
  else .ok ()

/-- **In reach**: there is memory, and sixteen bytes from the offset on lie inside the claimed
length. The arithmetic is that of the integers. -/
structure InReach (r : Region) (offset : Int64) : Prop where
  isSome : r.bytes.isSome
  nonneg : 0 ≤ offset.toInt
  le_length : offset.toInt + 16 ≤ r.length.toNat

/-- The identifier at an offset. -/
def decode (r : Region) (offset : Int64) : Except ArgumentFault Uuid :=
  (r.check offset).map fun _ =>
    Uuid.ofBytes (r.contents.window offset.toNatClampNeg Uuid.size)

/-- The region with an identifier written at an offset. -/
def encode (r : Region) (offset : Int64) (u : Uuid) : Except ArgumentFault Region :=
  (r.check offset).map fun _ =>
    { r with bytes := some (r.contents.splice offset.toNatClampNeg u.toBytes) }

/-- The bytes of a region with the two fields of the identifier at an offset stamped, each of them
inside a single byte. -/
def stampedBytes (bs : Bytes) (offset : Nat) (version : Fin 16) : Bytes :=
  (bs.modify (offset + Uuid.versionOffset) (stampVersionByte version)).modify
    (offset + Uuid.variantOffset) stampVariantByte

/-- Stamps the identifier at an offset in place: the region afterwards, and the identifier that
stands there. The offset is checked before the code. -/
def stamp (r : Region) (offset : Int64) (code : Int32) : Except ArgumentFault (Region × Uuid) :=
  match r.check offset with
  | .error fault => .error fault
  | .ok () => (versionOfCode code).map fun version =>
    let bs := stampedBytes r.contents offset.toNatClampNeg version
    ({ r with bytes := some bs }, Uuid.ofBytes (bs.window offset.toNatClampNeg Uuid.size))

/-- The check lets pass exactly what is in reach. -/
theorem check_eq_ok_iff {r : Region} {offset : Int64} :
    r.check offset = .ok () ↔ r.InReach offset := by
  rw [check]
  split
  · next hnone => exact iff_of_false (by simp) fun h => by simpa [hnone] using h.isSome
  · next hsome =>
    split
    · next hneg =>
      rw [Int64.lt_iff_toInt_lt, Int64.toInt_zero] at hneg
      exact iff_of_false (by simp) fun h => by have := h.nonneg; omega
    · next hneg =>
      rw [Int64.lt_iff_toInt_lt, Int64.toInt_zero, Int.not_lt] at hneg
      have hle : (0 : Int64) ≤ offset := by rwa [Int64.le_iff_toInt_le, Int64.toInt_zero]
      have hoffset : (offset.toUInt64.toNat : Int) = offset.toInt := by
        rw [Int64.toNat_toUInt64_of_le hle, Int64.toInt_eq_toNatClampNeg hle]
      have hroom : (r.length < 16 ∨ r.length - 16 < offset.toUInt64) ↔
          ¬ offset.toInt + 16 ≤ r.length.toNat := by
        have hsixteen : (16 : UInt64).toNat = 16 := rfl
        rw [UInt64.lt_iff_toNat_lt, UInt64.lt_iff_toNat_lt, hsixteen]
        by_cases hshort : r.length.toNat < 16
        · exact iff_of_true (.inl hshort) (by omega)
        · rw [UInt64.toNat_sub_of_le _ _ (by rw [UInt64.le_iff_toNat_le, hsixteen]; omega),
            hsixteen]
          omega
      have hmemory : r.bytes.isSome := Option.isSome_iff_ne_none.mpr hsome
      split
      · next h => exact iff_of_false (by simp) fun hr => hroom.mp h hr.le_length
      · next h => exact iff_of_true rfl ⟨hmemory, hneg, by rw [hroom] at h; omega⟩

end Region

end UniqueId
