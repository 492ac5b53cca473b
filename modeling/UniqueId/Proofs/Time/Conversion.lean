import UniqueId.Proofs.Time.Layout
import UniqueId.Proofs.Uuid.Stamp

/-!
# Conversions between layouts

Both layouts of ticks are bijections between the counts below `2 ^ 60` and the high words without
their version. `Time.Layout` says what that takes: nothing but these bits is read, and reading and
writing undo each other. What follows is then proved for any layout.

* **One high word for each version and count** (`Time.Layout.existsUnique_high`).
* **Conversion** (`Time.Layout.convert`): a count read in one layout, written in another and stamped
  is read in the other (`Time.Layout.read_stamp_convert`), and converted back and stamped with the
  version it had, the high word is the one at the start (`Time.Layout.high_convert_convert`).

So the time-based identifiers and the reordered ones show the same times
(`Uuid.raw_timestamps_bijective`).
-/

namespace UniqueId

namespace Uuid

/-- The version and the bits around it are all of the high word. -/
theorem high_eq_of_version_eq {u v : Uuid} (hversion : u.version = v.version)
    (hrest : u.highWithoutVersion = v.highWithoutVersion) : u.high = v.high := by
  have hu := u.version_eq
  have hv := v.version_eq
  have hnat := congrArg UInt64.toNat hrest
  rw [toNat_highWithoutVersion, toNat_highWithoutVersion] at hnat
  exact UInt64.toNat_inj.mp (by omega)

end Uuid

namespace Time

/-- A **layout** of tick counts: how they are read off an identifier, and how they are written to a
high word. -/
structure Layout where
  read : Uuid → UInt64
  write : UInt64 → UInt64
  /-- What is read has room in 60 bits. -/
  toNat_read_lt : ∀ u, (read u).toNat < 2 ^ 60
  /-- Only the bits of the high word around the version are read. -/
  read_congr : ∀ {u v : Uuid}, u.highWithoutVersion = v.highWithoutVersion → read u = read v
  /-- What is written is read. -/
  read_write : ∀ {t : UInt64}, t.toNat < 2 ^ 60 → ∀ low, read ⟨write t, low⟩ = t
  /-- What was read is written to where it was read. -/
  write_read : ∀ u, write (read u) = u.highWithoutVersion

namespace Layout

/-- The low part first. -/
def ticks : Layout where
  read := Uuid.ticks
  write := highOfTicks
  toNat_read_lt := Uuid.toNat_ticks_lt
  read_congr := congrArg ticksOfHigh
  read_write := Uuid.ticks_highOfTicks
  write_read := Uuid.highOfTicks_ticks

/-- The high part first. -/
def reorderedTicks : Layout where
  read := Uuid.reorderedTicks
  write := highOfReorderedTicks
  toNat_read_lt := Uuid.toNat_reorderedTicks_lt
  read_congr := congrArg reorderedTicksOfHigh
  read_write := Uuid.reorderedTicks_highOfReorderedTicks
  write_read := Uuid.highOfReorderedTicks_reorderedTicks

variable (l m : Layout) {u v : Uuid}

/-- What is read tells the bits around the version. -/
theorem highWithoutVersion_eq_of_read_eq (h : l.read u = l.read v) :
    u.highWithoutVersion = v.highWithoutVersion := by
  rw [← l.write_read u, h, l.write_read]

/-- **One high word** for each version and each count that has room. -/
theorem existsUnique_high {t : UInt64} (ht : t.toNat < 2 ^ 60) (version : Fin 16) (low : UInt64) :
    ∃! high : UInt64, (⟨high, low⟩ : Uuid).version = version ∧ l.read ⟨high, low⟩ = t := by
  let raw : Uuid := ⟨l.write t, low⟩
  -- only the high half of what is stamped counts, so the low half given may stand beside it
  let u : Uuid := ⟨(raw.stamp version).high, low⟩
  have hversion : u.version = version := Uuid.version_stamp version raw
  have hrest : u.highWithoutVersion = raw.highWithoutVersion :=
    Uuid.highWithoutVersion_stamp version raw
  have hread : l.read u = t := (l.read_congr hrest).trans (l.read_write ht low)
  refine ⟨u.high, ⟨hversion, hread⟩, ?_⟩
  rintro high ⟨hversion', hread'⟩
  exact Uuid.high_eq_of_version_eq (v := u) (hversion'.trans hversion.symm)
    (l.highWithoutVersion_eq_of_read_eq (hread'.trans hread.symm))

/-! ### Conversion -/

/-- An identifier's time read in one layout and written in another. The version is left zero. -/
def convert (u : Uuid) : Uuid :=
  ⟨m.write (l.read u), u.low⟩

/-- **Conversion keeps the time**, whatever version is stamped. -/
theorem read_stamp_convert (version : Fin 16) (u : Uuid) :
    m.read ((l.convert m u).stamp version) = l.read u :=
  (m.read_congr (Uuid.highWithoutVersion_stamp version _)).trans
    (m.read_write (l.toNat_read_lt u) u.low)

/-- **The way back**: converted back and stamped with the version it had, the high word is the one
at the start, whatever version was stamped in between. -/
theorem high_convert_convert {version : Fin 16} (h : u.version = version) (between : Fin 16) :
    ((m.convert l ((l.convert m u).stamp between)).stamp version).high = u.high := by
  have hread := l.read_stamp_convert m between u
  refine Uuid.high_eq_of_version_eq ?_ (l.highWithoutVersion_eq_of_read_eq ?_)
  · rw [Uuid.version_stamp, h]
  · rw [m.read_stamp_convert l, hread]

end Layout

end Time

namespace Uuid

/-! ### Time-based identifiers, reordered -/

/-- A time-based identifier laid out high part first and stamped is a reordered one of the same
time, and the way back leads to its high word again. -/
theorem exists_reordered_of_timeBased {u : Uuid} (h : u.kind? = some .timeBased) :
    ∃ v, (⟨Time.highOfReorderedTicks u.ticks, u.low⟩ : Uuid).stampWithCode
        Kind.timeReordered.code = .ok v ∧
      v.kind? = some .timeReordered ∧ v.reorderedTicks = u.ticks ∧
      (∃ millis, u.timestamp = .ok millis ∧ v.timestamp = .ok millis) ∧
      ∃ w, (⟨Time.highOfTicks v.reorderedTicks, v.low⟩ : Uuid).stampWithCode
          Kind.timeBased.code = .ok w ∧ w.high = u.high := by
  let l := Time.Layout.ticks
  let m := Time.Layout.reorderedTicks
  obtain ⟨six, hsix, hstampSix⟩ := exists_stampWithCode_code_eq .timeReordered (l.convert m u)
  let v := (l.convert m u).stamp six
  obtain ⟨one, hone, hstampOne⟩ := exists_stampWithCode_code_eq .timeBased (m.convert l v)
  have hkind : v.kind? = some .timeReordered := kind?_stamp_of_code (by decide) hsix _
  have hread : v.reorderedTicks = u.ticks := l.read_stamp_convert m six u
  have htime : v.timestampAs .timeReordered = u.timestampAs .timeBased :=
    congrArg (fun t => (Time.millisOfTicks t).toUInt64) hread
  have hversion : u.version = one := by
    have hcode := version_of_kind?_eq_some h
    omega
  refine ⟨v, hstampSix, hkind, hread, ⟨_, timestamp_of_kind?_eq_some h, ?_⟩, _, hstampOne,
    l.high_convert_convert m hversion six⟩
  rw [timestamp_of_kind?_eq_some hkind, htime]

/-- **Raw timestamps are bijective.** The ticks of either layout have room in 60 bits and the
milliseconds in 48. The layouts of ticks place three fields in the high word, and written back a
count gives the high word without its version. For each count that has room and each version there
is one high word that holds both, in either layout. So a time-based identifier can be converted to a
reordered one of the same ticks and timestamp, and back to the high word that it had. -/
theorem raw_timestamps_bijective :
    (∀ u : Uuid, u.ticks.toNat < 2 ^ 60 ∧ u.reorderedTicks.toNat < 2 ^ 60 ∧
      u.millis.toNat < 2 ^ 48) ∧
    (∀ t : UInt64, t.toNat < 2 ^ 60 →
      (Time.highOfTicks t).toNat = 2 ^ 32 * (t.toNat % 2 ^ 32) +
        2 ^ 16 * (t.toNat / 2 ^ 32 % 2 ^ 16) + t.toNat / 2 ^ 48 ∧
      (Time.highOfReorderedTicks t).toNat = 2 ^ 32 * (t.toNat / 2 ^ 28) +
        2 ^ 16 * (t.toNat / 2 ^ 12 % 2 ^ 16) + t.toNat % 2 ^ 12) ∧
    (∀ u : Uuid, Time.highOfTicks u.ticks = u.highWithoutVersion ∧
      Time.highOfReorderedTicks u.reorderedTicks = u.highWithoutVersion) ∧
    (∀ (t low : UInt64) (version : Fin 16), t.toNat < 2 ^ 60 →
      (∃! high, (⟨high, low⟩ : Uuid).version = version ∧ (⟨high, low⟩ : Uuid).ticks = t) ∧
      ∃! high, (⟨high, low⟩ : Uuid).version = version ∧
        (⟨high, low⟩ : Uuid).reorderedTicks = t) ∧
    ∀ u : Uuid, u.kind? = some .timeBased →
      ∃ v, (⟨Time.highOfReorderedTicks u.ticks, u.low⟩ : Uuid).stampWithCode
          Kind.timeReordered.code = .ok v ∧
        v.kind? = some .timeReordered ∧ v.reorderedTicks = u.ticks ∧
        (∃ millis, u.timestamp = .ok millis ∧ v.timestamp = .ok millis) ∧
        ∃ w, (⟨Time.highOfTicks v.reorderedTicks, v.low⟩ : Uuid).stampWithCode
            Kind.timeBased.code = .ok w ∧ w.high = u.high := by
  refine ⟨fun u => ⟨toNat_ticks_lt u, toNat_reorderedTicks_lt u, toNat_millis_lt u⟩,
    fun t ht => ⟨?_, ?_⟩,
    fun u => ⟨highOfTicks_ticks u, highOfReorderedTicks_reorderedTicks u⟩,
    fun t low version ht => ⟨Time.Layout.ticks.existsUnique_high ht version low,
      Time.Layout.reorderedTicks.existsUnique_high ht version low⟩,
    fun u => exists_reordered_of_timeBased⟩
  · rw [Time.toNat_highOfTicks]
    omega
  · rw [Time.toNat_highOfReorderedTicks]
    omega

/-- The last tick that there is room for, and a time-based identifier of the other variant converted
there and back. -/
theorem raw_timestamps_bijective_of_ends :
    let last : UInt64 := 0x0FFFFFFFFFFFFFFF
    let u : Uuid := ⟨0xC232AB0094041234, 0x3C27B3F6FF6E0000⟩
    last.toNat < 2 ^ 60 ∧
      (∃! high, (⟨high, 7⟩ : Uuid).version = 15 ∧ (⟨high, 7⟩ : Uuid).ticks = last) ∧
      u.kind? = some .timeBased ∧
      ∃ v, (⟨Time.highOfReorderedTicks u.ticks, u.low⟩ : Uuid).stampWithCode 6 = .ok v ∧
        v.reorderedTicks = u.ticks ∧
        ∃ w, (⟨Time.highOfTicks v.reorderedTicks, v.low⟩ : Uuid).stampWithCode 1 = .ok w ∧
          w.high = u.high := by
  intro last u
  have hlast : last.toNat < 2 ^ 60 := by decide
  have hkind : u.kind? = some .timeBased := by decide
  obtain ⟨-, -, -, hunique, hconvert⟩ := raw_timestamps_bijective
  obtain ⟨v, hv, -, hticks, -, w, hw, hhigh⟩ := hconvert u hkind
  exact ⟨hlast, (hunique last 7 15 hlast).1, hkind, v, hv, hticks, w, hw, hhigh⟩

end Uuid

end UniqueId
