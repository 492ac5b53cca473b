import UniqueId.Proofs.Region.Window
import UniqueId.Proofs.Text.RoundTrip
import UniqueId.Proofs.Time.Layout
import UniqueId.Proofs.Time.Ticks
import UniqueId.Proofs.Uuid.Stamp

/-!
# Times in transit

A generator lays a time out in the high word, stamps the kind and hands the identifier on. Whoever
receives it, through text and memory, asks for its timestamp and finds the time that was laid out.

* **Nothing is lost on the way**: through text in either letter case and through memory at any
  offset in reach, the identifier arrives as it was sent.
* **What was stamped is told**: the receiver classifies the identifier as the generator stamped it,
  so both use one layout, and the stamp has left the time alone (`delivers_timestampAs`).
* **The layout and the clock are undone** (`delivers_timeBased` and its likes).

Together: `timestamp_survives_transit`, for every time that has room in the layout, from the first
tick in 1582 to the last in 5236, and for 48 bits of milliseconds.
-/

namespace UniqueId.Uuid

variable {r : Region} {o : Int64} {kind : Kind}

/-! ### Through text and memory -/

/-- Raw bits **deliver** a timestamp as a kind: stamped with the kind's code, written as text in
either letter case, read from the text, written to memory anywhere in reach and read from there,
they arrive as an identifier that has this timestamp. -/
def Delivers (kind : Kind) (raw : Uuid) (timestamp : UInt64) : Prop :=
  ∃ u, raw.stampWithCode kind.code = .ok u ∧
    ∀ letters (r : Region) o, r.Backed → r.InReach o →
      ∃ text parsed next decoded, text = u.toText letters ∧ Text.parse text = .ok parsed ∧
        r.encode o parsed = .ok next ∧ next.decode o = .ok decoded ∧
          decoded.timestamp = .ok timestamp

/-- **Nothing is lost on the way**: what is delivered is the time that the raw bits hold in the
layout of the kind. -/
theorem delivers_timestampAs (hkind : kind ≠ .unknown) (raw : Uuid) :
    Delivers kind raw (raw.timestampAs kind) := by
  obtain ⟨u, hstamp, -, htimestamp⟩ := exists_stampWithCode_and_timestamp hkind raw
  refine ⟨u, hstamp, fun letters r o hb ho => ?_⟩
  exact ⟨u.toText letters, u, r.write o u, u, rfl, parse_toText letters u,
    Region.encode_of_inReach ho u, Region.decode_write_self ho hb u, htimestamp⟩

/-! ### Through the layouts and the clock -/

/-- The milliseconds whose tick count has room in 60 bits. -/
theorem room_for_ticks_iff {millis : Int} :
    0 ≤ millis * 10000 + Time.epochTicks.toInt ∧
        millis * 10000 + Time.epochTicks.toInt < 2 ^ 60 ↔
      -12219292800000 ≤ millis ∧ millis ≤ 103072857660684 := by
  rw [Time.toInt_epochTicks]
  omega

section Room

variable {millis : Int} (hlo : 0 ≤ millis * 10000 + Time.epochTicks.toInt)
  (hhi : millis * 10000 + Time.epochTicks.toInt < 2 ^ 60)

include hlo hhi

theorem toInt_ofInt_of_room : (Int64.ofInt millis).toInt = millis := by
  have hroom := room_for_ticks_iff.mp ⟨hlo, hhi⟩
  exact Int64.toInt_ofInt_of_le (by omega) (by omega)

/-- The tick count of a time that has room. -/
theorem toNat_ticksOfMillis_of_room :
    ((Time.ticksOfMillis (Int64.ofInt millis)).toNat : Int) =
      millis * 10000 + Time.epochTicks.toInt := by
  have hint := toInt_ofInt_of_room hlo hhi
  rw [Time.toNat_ticksOfMillis (by rwa [hint]) (by omega), hint]

theorem millisOfTicks_ticksOfMillis_of_room :
    Time.millisOfTicks (Time.ticksOfMillis (Int64.ofInt millis)) = Int64.ofInt millis := by
  have hint := toInt_ofInt_of_room hlo hhi
  have hepoch := Time.toInt_epochTicks
  exact Time.millisOfTicks_ticksOfMillis (by omega) (by omega)

/-- A tick count laid out low part first delivers its time. -/
theorem delivers_timeBased (low : UInt64) :
    Delivers .timeBased ⟨Time.highOfTicks (Time.ticksOfMillis (Int64.ofInt millis)), low⟩
      (Int64.ofInt millis).toUInt64 := by
  have hticks := toNat_ticksOfMillis_of_room hlo hhi
  have hkind : Kind.timeBased ≠ .unknown := by decide
  have hdelivers := delivers_timestampAs hkind
    ⟨Time.highOfTicks (Time.ticksOfMillis (Int64.ofInt millis)), low⟩
  rwa [timestampAs, ticks_highOfTicks (by omega), millisOfTicks_ticksOfMillis_of_room hlo hhi]
    at hdelivers

/-- A tick count laid out high part first delivers its time. -/
theorem delivers_timeReordered (low : UInt64) :
    Delivers .timeReordered
      ⟨Time.highOfReorderedTicks (Time.ticksOfMillis (Int64.ofInt millis)), low⟩
      (Int64.ofInt millis).toUInt64 := by
  have hticks := toNat_ticksOfMillis_of_room hlo hhi
  have hkind : Kind.timeReordered ≠ .unknown := by decide
  have hdelivers := delivers_timestampAs hkind
    ⟨Time.highOfReorderedTicks (Time.ticksOfMillis (Int64.ofInt millis)), low⟩
  rwa [timestampAs, reorderedTicks_highOfReorderedTicks (by omega),
    millisOfTicks_ticksOfMillis_of_room hlo hhi] at hdelivers

end Room

/-- A count of milliseconds delivers itself, whatever stands in the bits below it. -/
theorem delivers_timeEpoch {millis : UInt64} (h : millis.toNat < 2 ^ 48) (rest : UInt16)
    (low : UInt64) : Delivers .timeEpoch ⟨Time.highOfMillis millis rest, low⟩ millis := by
  have hkind : Kind.timeEpoch ≠ .unknown := by decide
  have hdelivers := delivers_timestampAs hkind
    ⟨Time.highOfMillis millis rest, low⟩
  rwa [timestampAs, millis_highOfMillis h] at hdelivers

/-- **A generator's time survives transit.** Take a number of milliseconds whose tick count has room
in 60 bits, which are those from the year 1582 to the year 5236. Laid out in either order around the
version and stamped accordingly, the tick count delivers the milliseconds, a negative number as its
two's complement. So do 48 bits of milliseconds that are laid out as they are. -/
theorem timestamp_survives_transit :
    (∀ millis : Int, 0 ≤ millis * 10000 + Time.epochTicks.toInt ∧
        millis * 10000 + Time.epochTicks.toInt < 2 ^ 60 ↔
      -12219292800000 ≤ millis ∧ millis ≤ 103072857660684) ∧
    (∀ millis : Int, 0 ≤ millis * 10000 + Time.epochTicks.toInt →
      millis * 10000 + Time.epochTicks.toInt < 2 ^ 60 → ∀ low : UInt64,
        ∃ t timestamp : UInt64, t = Time.ticksOfMillis (Int64.ofInt millis) ∧
          (t.toNat : Int) = millis * 10000 + Time.epochTicks.toInt ∧
          (timestamp.toNat : Int) = millis % 2 ^ 64 ∧
          (Time.highOfTicks t).toNat = 2 ^ 32 * (t.toNat % 2 ^ 32) +
            2 ^ 16 * (t.toNat / 2 ^ 32 % 2 ^ 16) + t.toNat / 2 ^ 48 ∧
          Delivers .timeBased ⟨Time.highOfTicks t, low⟩ timestamp ∧
          (Time.highOfReorderedTicks t).toNat = 2 ^ 32 * (t.toNat / 2 ^ 28) +
            2 ^ 16 * (t.toNat / 2 ^ 12 % 2 ^ 16) + t.toNat % 2 ^ 12 ∧
          Delivers .timeReordered ⟨Time.highOfReorderedTicks t, low⟩ timestamp) ∧
    ∀ (millis low : UInt64) (rest : UInt16), millis.toNat < 2 ^ 48 →
      (Time.highOfMillis millis rest).toNat = millis.toNat * 2 ^ 16 + rest.toNat ∧
        Delivers .timeEpoch ⟨Time.highOfMillis millis rest, low⟩ millis := by
  refine ⟨fun millis => room_for_ticks_iff, ?_, ?_⟩
  · intro millis hlo hhi low
    have hticks := toNat_ticksOfMillis_of_room hlo hhi
    have htimestamp := Time.toNat_toUInt64 (Int64.ofInt millis)
    rw [toInt_ofInt_of_room hlo hhi] at htimestamp
    refine ⟨_, _, rfl, hticks, htimestamp, ?_, delivers_timeBased hlo hhi low, ?_,
      delivers_timeReordered hlo hhi low⟩
    · rw [Time.toNat_highOfTicks]
      omega
    · rw [Time.toNat_highOfReorderedTicks]
      omega
  · intro millis low rest h
    refine ⟨?_, delivers_timeEpoch h rest low⟩
    rw [Time.toNat_highOfMillis]
    omega

/-- The last millisecond before 1970, and the last one that 48 bits can hold, sent through text in
upper case and twenty bytes of memory. The first of them arrives as a two's complement. -/
theorem timestamp_survives_transit_of_ends :
    let r := Region.ofBytes (List.replicate 20 0xAB)
    let before : Uuid := ⟨0x138118F01DD211B2, 0x8000000000000007⟩
    let last : Uuid := ⟨0xFFFFFFFFFFFF7FFF, 0x8000000000000007⟩
    r.Backed ∧ r.InReach 3 ∧
      (0 ≤ (-1 : Int) * 10000 + Time.epochTicks.toInt ∧
        (-1 : Int) * 10000 + Time.epochTicks.toInt < 2 ^ 60) ∧
      (⟨Time.highOfTicks (Time.ticksOfMillis (Int64.ofInt (-1))), 7⟩ : Uuid).stampWithCode
        Kind.timeBased.code = .ok before ∧
      Text.parse (Bytes.ascii "138118F0-1DD2-11B2-8000-000000000007") = .ok before ∧
      (∃ next decoded, r.encode 3 before = .ok next ∧ next.decode 3 = .ok decoded ∧
        decoded.timestamp = .ok 0xFFFFFFFFFFFFFFFF) ∧
      (0xFFFFFFFFFFFF : UInt64).toNat < 2 ^ 48 ∧
      (⟨Time.highOfMillis 0xFFFFFFFFFFFF 0xFFFF, 7⟩ : Uuid).stampWithCode
        Kind.timeEpoch.code = .ok last ∧
      Text.parse (Bytes.ascii "FFFFFFFF-FFFF-7FFF-8000-000000000007") = .ok last ∧
      ∃ next decoded, r.encode 3 last = .ok next ∧ next.decode 3 = .ok decoded ∧
        decoded.timestamp = .ok 0xFFFFFFFFFFFF := by
  intro r before last
  have hb : r.Backed := Region.backed_ofBytes _
  have ho : r.InReach 3 := ⟨by decide, by decide, by decide⟩
  have hlo : 0 ≤ (-1 : Int) * 10000 + Time.epochTicks.toInt := by decide
  have hhi : (-1 : Int) * 10000 + Time.epochTicks.toInt < 2 ^ 60 := by decide
  have hroom : (0xFFFFFFFFFFFF : UInt64).toNat < 2 ^ 48 := by decide
  have hbefore : before.toText .upper = Bytes.ascii "138118F0-1DD2-11B2-8000-000000000007" := by
    decide
  have hlast : last.toText .upper = Bytes.ascii "FFFFFFFF-FFFF-7FFF-8000-000000000007" := by decide
  have hbeforeRead : Text.parse (before.toText .upper) = .ok before := by decide
  have hlastRead : Text.parse (last.toText .upper) = .ok last := by decide
  obtain ⟨-, hticks, hmillis⟩ := timestamp_survives_transit
  obtain ⟨_, timestamp, rfl, -, htimestamp, -, ⟨u, hu, husent⟩, -⟩ := hticks (-1) hlo hhi 7
  obtain ⟨-, v, hv, hvsent⟩ := hmillis 0xFFFFFFFFFFFF 7 0xFFFF hroom
  have hallOnes : timestamp = 0xFFFFFFFFFFFFFFFF := by
    have hones : (0xFFFFFFFFFFFFFFFF : UInt64).toNat = 2 ^ 64 - 1 := rfl
    rw [← UInt64.toNat_inj]
    omega
  obtain rfl : u = before := Except.ok.inj (hu.symm.trans (by decide))
  obtain rfl : v = last := Except.ok.inj (hv.symm.trans (by decide))
  obtain ⟨_, parsed, next, decoded, rfl, hparse, hencode, hdecode, htold⟩ := husent .upper r 3 hb ho
  obtain rfl : parsed = before := Except.ok.inj (hparse.symm.trans hbeforeRead)
  obtain ⟨_, parsed', next', decoded', rfl, hparse', hencode', hdecode', htold'⟩ :=
    hvsent .upper r 3 hb ho
  obtain rfl : parsed' = last := Except.ok.inj (hparse'.symm.trans hlastRead)
  rw [hallOnes] at htold
  rw [hbefore] at hparse
  rw [hlast] at hparse'
  exact ⟨hb, ho, ⟨hlo, hhi⟩, hu, hparse, ⟨next, decoded, hencode, hdecode, htold⟩, hroom, hv,
    hparse', next', decoded', hencode', hdecode', htold'⟩

end UniqueId.Uuid
