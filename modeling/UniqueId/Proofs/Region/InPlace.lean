import UniqueId.Proofs.Region.Window
import UniqueId.Proofs.Uuid.Stamp

/-!
# Stamping in place

Work on memory **in place** leaves something behind whether it ends well or not: what has been
written before a fault stays written. `InPlace` keeps account of that, and `InPlace.stamp` is the
stamp of an identifier in memory, step by step: it checks the offset, then the code, rewrites the
byte of the version, rewrites the byte of the variant, and reads the identifier.

* **All or nothing** (`InPlace.on_stamp`): both checks come before the first byte is written, and
  the reading, which checks the offset again, cannot fail any more. So the memory left behind is the
  old one after a fault, and the one that `Region.stamp` yields otherwise.
* **Few bits** (`Region.getElem?_stampedBytes_of_ne` and its likes): of all the bytes only two
  change, the one in its high nibble and the other in its top two bits.

With the agreement of bytes and words (`Region.stamp_of_inReach`) this says that the stamp in place
is the stamp of the identifier that stands there: `stamp_in_place_or_not_at_all`.
-/

namespace UniqueId

/-! ### Computations in place -/

/-- A computation **in place**: it works on a region, and leaves behind what it has made of it
whether it ends with an answer or in a fault. -/
abbrev InPlace (α : Type) := ExceptT ArgumentFault (StateM Region) α

namespace InPlace

variable {α β : Type}

/-- How a computation in place ends on a region, and the region that it leaves behind. -/
def on (x : InPlace α) (r : Region) : Except ArgumentFault α × Region :=
  StateT.run (ExceptT.run x) r

/-- Looks at the region and writes nothing. -/
def look (question : Region → Except ArgumentFault α) : InPlace α := do
  ofExcept (question (← get))

/-- Rewrites the byte at an index. -/
def modifyByte (k : Nat) (f : UInt8 → UInt8) : InPlace Unit :=
  modify fun r => { r with bytes := r.bytes.map (·.modify k f) }

/-- Stamps the identifier at an offset with a code, and reads it. -/
def stamp (o : Int64) (code : Int32) : InPlace Uuid := do
  look (·.check o)
  let version ← look fun _ => versionOfCode code
  modifyByte (o.toNatClampNeg + Uuid.versionOffset) (stampVersionByte version)
  modifyByte (o.toNatClampNeg + Uuid.variantOffset) stampVariantByte
  look (·.decode o)

/-- After a fault nothing follows, and what was written before stays. -/
theorem on_bind (x : InPlace α) (next : α → InPlace β) (r : Region) :
    on (x >>= next) r =
      match x.on r with
      | (.ok a, s) => (next a).on s
      | (.error fault, s) => (.error fault, s) := by
  simp only [on, ExceptT.run_bind, StateT.run_bind]
  rcases StateT.run (ExceptT.run x) r with ⟨_ | a, s⟩ <;> rfl

@[simp] theorem on_look (question : Region → Except ArgumentFault α) (r : Region) :
    (look question).on r = (question r, r) := by
  have hanswer : (ofExcept (question r) : InPlace α).on r = (question r, r) := by
    cases question r <;> rfl
  exact hanswer

@[simp] theorem on_modifyByte (k : Nat) (f : UInt8 → UInt8) (r : Region) :
    (modifyByte k f).on r = (.ok (), { r with bytes := r.bytes.map (·.modify k f) }) := rfl

/-- **All or nothing.** A stamp in place that ends in a fault leaves the region as it was. -/
theorem on_stamp (r : Region) (o : Int64) (code : Int32) :
    (stamp o code).on r =
      match r.stamp o code with
      | .ok (next, u) => (.ok u, next)
      | .error fault => (.error fault, r) := by
  rw [stamp, on_bind, on_look, Region.stamp]
  cases hcheck : r.check o with
  | error fault => rfl
  | ok _ =>
    dsimp only
    rw [on_bind, on_look]
    cases versionOfCode code with
    | error fault => rfl
    | ok version =>
      have hreach := Region.check_eq_ok_iff.mp hcheck
      obtain ⟨bs, hbs⟩ := Option.isSome_iff_exists.mp hreach.isSome
      let stamped : Region :=
        { r with bytes := some (Region.stampedBytes bs o.toNatClampNeg version) }
      -- the offset is checked again, in a region of the same extent
      have hdecode : stamped.decode o = .ok (stamped.read o) :=
        Region.decode_of_inReach ⟨rfl, hreach.nonneg, hreach.le_length⟩
      dsimp only
      rw [on_bind, on_modifyByte]
      dsimp only
      rw [on_bind, on_modifyByte]
      dsimp only
      rw [on_look, Region.contents, hbs]
      exact congrArg (·, stamped) hdecode

/-- What the region refuses leaves it as it was. -/
theorem on_stamp_of_eq_error {r : Region} {o : Int64} {code : Int32} {fault : ArgumentFault}
    (h : r.stamp o code = .error fault) : (stamp o code).on r = (.error fault, r) := by
  rw [on_stamp, h]

end InPlace

/-! ### The bits that change -/

/-- Stamping the byte of the version keeps its low nibble. -/
theorem stampVersionByte_and (version : Fin 16) (b : UInt8) :
    stampVersionByte version b &&& 0x0F = b &&& 0x0F := by
  have hlow (c : UInt8) : (c &&& 0x0F).toNat = c.toNat % 16 :=
    Nat.and_two_pow_sub_one_eq_mod c.toNat 4
  rw [← UInt8.toNat_inj, hlow, hlow, toNat_stampVersionByte, Nat.mul_add_mod, Nat.mod_mod]

/-- Stamping the byte of the variant keeps its six low bits. -/
theorem stampVariantByte_and (b : UInt8) : stampVariantByte b &&& 0x3F = b &&& 0x3F := by
  have hlow (c : UInt8) : (c &&& 0x3F).toNat = c.toNat % 64 :=
    Nat.and_two_pow_sub_one_eq_mod c.toNat 6
  rw [← UInt8.toNat_inj, hlow, hlow, toNat_stampVariantByte]
  omega

namespace Region

variable {bs : Bytes} {offset k : Nat} {version : Fin 16}

/-- Only the bytes of the version and of the variant are stamped. -/
theorem getElem?_stampedBytes_of_ne (hversion : k ≠ offset + Uuid.versionOffset)
    (hvariant : k ≠ offset + Uuid.variantOffset) :
    (stampedBytes bs offset version)[k]? = bs[k]? := by
  rw [stampedBytes, List.getElem?_modify_ne _ _ hvariant.symm,
    List.getElem?_modify_ne _ _ hversion.symm]

theorem getElem?_stampedBytes_versionOffset :
    (stampedBytes bs offset version)[offset + Uuid.versionOffset]? =
      bs[offset + Uuid.versionOffset]?.map (stampVersionByte version) := by
  have hne : offset + Uuid.variantOffset ≠ offset + Uuid.versionOffset := by
    rw [Uuid.variantOffset, Uuid.versionOffset]
    omega
  rw [stampedBytes, List.getElem?_modify_ne _ _ hne, List.getElem?_modify_eq]
  rfl

theorem getElem?_stampedBytes_variantOffset :
    (stampedBytes bs offset version)[offset + Uuid.variantOffset]? =
      bs[offset + Uuid.variantOffset]?.map stampVariantByte := by
  have hne : offset + Uuid.versionOffset ≠ offset + Uuid.variantOffset := by
    rw [Uuid.variantOffset, Uuid.versionOffset]
    omega
  rw [stampedBytes, List.getElem?_modify_eq, List.getElem?_modify_ne _ _ hne]
  rfl

/-- The bytes that a stamp writes are the old ones in all but six bits. -/
theorem contents_write_stamp {r : Region} {o : Int64} (hb : r.Backed) (ho : r.InReach o)
    (version : Fin 16) :
    (r.write o ((r.read o).stamp version)).contents =
      stampedBytes r.contents o.toNatClampNeg version :=
  (stampedBytes_eq version (ho.add_size_le hb)).symm

/-! ### Refusals -/

variable {r : Region} {o : Int64} {code : Int32} {fault : ArgumentFault}

theorem stamp_of_check_eq_error (h : r.check o = .error fault) (code : Int32) :
    r.stamp o code = .error fault := by
  rw [stamp, h]

theorem stamp_of_versionOfCode_eq_error (hcheck : r.check o = .ok ())
    (hcode : versionOfCode code = .error fault) : r.stamp o code = .error fault := by
  rw [stamp, hcheck, hcode]
  rfl

/-! ### Together -/

/-- **In place or not at all.** Stamping an identifier in memory is refused as the check of the
offset is, and where this passes, as the stamp of any identifier is that has a code too wide; the
memory is then left as it was. Otherwise it answers with the identifier that stands at the offset,
stamped; this identifier is encoded there, and compared with the memory before, only the high nibble
of the byte six after the offset and the top two bits of the one eight after it can have changed. -/
theorem stamp_in_place_or_not_at_all (hb : r.Backed) (o : Int64) (code : Int32) :
    (∀ fault, r.check o = .error fault →
      r.stamp o code = .error fault ∧ (InPlace.stamp o code).on r = (.error fault, r)) ∧
    (r.check o = .ok () → code.toInt < 0 ∨ 15 < code.toInt →
      ∃ fault, (∀ u : Uuid, u.stampWithCode code = .error fault) ∧
        r.stamp o code = .error fault ∧ (InPlace.stamp o code).on r = (.error fault, r)) ∧
    (r.check o = .ok () → 0 ≤ code.toInt → code.toInt ≤ 15 →
      ∃ u v next, r.decode o = .ok u ∧ u.stampWithCode code = .ok v ∧ r.encode o v = .ok next ∧
        r.stamp o code = .ok (next, v) ∧ (InPlace.stamp o code).on r = (.ok v, next) ∧
        next.length = r.length ∧ next.contents.length = r.contents.length ∧
        (∀ k, k ≠ o.toNatClampNeg + 6 → k ≠ o.toNatClampNeg + 8 →
          next.contents[k]? = r.contents[k]?) ∧
        next.contents[o.toNatClampNeg + 6]?.map (· &&& 0x0F) =
          r.contents[o.toNatClampNeg + 6]?.map (· &&& 0x0F) ∧
        next.contents[o.toNatClampNeg + 8]?.map (· &&& 0x3F) =
          r.contents[o.toNatClampNeg + 8]?.map (· &&& 0x3F)) := by
  refine ⟨fun fault hcheck => ?_, fun hcheck hcode => ?_, fun hcheck hlo hhi => ?_⟩
  · have hstamp : r.stamp o code = .error fault := stamp_of_check_eq_error hcheck code
    exact ⟨hstamp, InPlace.on_stamp_of_eq_error hstamp⟩
  · have hwide : versionOfCode code = .error (.versionTooWide code) :=
      versionOfCode_eq_error_iff.mpr ⟨hcode, rfl⟩
    have hstamp : r.stamp o code = .error (.versionTooWide code) :=
      stamp_of_versionOfCode_eq_error hcheck hwide
    refine ⟨.versionTooWide code, fun u => ?_, hstamp, InPlace.on_stamp_of_eq_error hstamp⟩
    rw [Uuid.stampWithCode, hwide]
    rfl
  · have ho : r.InReach o := check_eq_ok_iff.mp hcheck
    obtain ⟨version, hversion⟩ := Uuid.exists_version_eq hlo hhi
    have hword := Uuid.stampWithCode_eq_ok hversion (r.read o)
    have hstamp : r.stamp o code =
        .ok (r.write o ((r.read o).stamp version), (r.read o).stamp version) := by
      rw [stamp_of_inReach ho hb, hword]
      rfl
    have hbytes := contents_write_stamp hb ho version
    refine ⟨r.read o, (r.read o).stamp version, r.write o ((r.read o).stamp version),
      decode_of_inReach ho, hword, encode_of_inReach ho _, hstamp, ?_, rfl,
      length_contents_write ho hb _, ?_, ?_, ?_⟩
    · rw [InPlace.on_stamp, hstamp]
    · intro k hsix height
      rw [hbytes, getElem?_stampedBytes_of_ne hsix height]
    · rw [hbytes, ← Uuid.versionOffset, getElem?_stampedBytes_versionOffset, Option.map_map]
      exact congrArg (Option.map · _) (funext fun b => stampVersionByte_and version b)
    · rw [hbytes, ← Uuid.variantOffset, getElem?_stampedBytes_variantOffset, Option.map_map]
      exact congrArg (Option.map · _) (funext stampVariantByte_and)

/-- Twenty bytes of ones, stamped at two with a code that no kind has; with codes too wide; and, at
an offset that leaves too little room, with such a code as well. -/
theorem stamp_in_place_or_not_at_all_of_foreign_code :
    let r := Region.ofBytes (List.replicate 20 0xFF)
    r.Backed ∧
      (r.check 5 = .error (.noRoom 5 20) ∧ r.stamp 5 16 = .error (.noRoom 5 20) ∧
        (InPlace.stamp 5 16).on r = (.error (.noRoom 5 20), r)) ∧
      r.check 2 = .ok () ∧
      (15 < (16 : Int32).toInt ∧ ∃ fault, (∀ u : Uuid, u.stampWithCode 16 = .error fault) ∧
        r.stamp 2 16 = .error fault ∧ (InPlace.stamp 2 16).on r = (.error fault, r)) ∧
      (0 ≤ (11 : Int32).toInt ∧ (11 : Int32).toInt ≤ 15) ∧
      ∃ u v next, r.decode 2 = .ok u ∧ u.stampWithCode 11 = .ok v ∧ r.encode 2 v = .ok next ∧
        (InPlace.stamp 2 11).on r = (.ok v, next) ∧ next.contents[9]? = r.contents[9]? := by
  intro r
  have hb : r.Backed := backed_ofBytes _
  have hfar : r.check 5 = .error (.noRoom 5 20) := by decide
  have hnear : r.check 2 = .ok () := by decide
  have hwide : 15 < (16 : Int32).toInt := by decide
  have hlo : 0 ≤ (11 : Int32).toInt := by decide
  have hhi : (11 : Int32).toInt ≤ 15 := by decide
  obtain ⟨hrefused, -, -⟩ := stamp_in_place_or_not_at_all hb 5 16
  obtain ⟨-, htooWide, -⟩ := stamp_in_place_or_not_at_all hb 2 16
  obtain ⟨-, -, hfits⟩ := stamp_in_place_or_not_at_all hb 2 11
  obtain ⟨u, v, next, hdecode, hstamped, hencode, -, hplace, -, -, hkept, -⟩ := hfits hnear hlo hhi
  exact ⟨hb, ⟨hfar, hrefused _ hfar⟩, hnear, ⟨hwide, htooWide hnear (.inr hwide)⟩, ⟨hlo, hhi⟩,
    u, v, next, hdecode, hstamped, hencode, hplace, hkept 9 (by decide) (by decide)⟩

end Region

end UniqueId
