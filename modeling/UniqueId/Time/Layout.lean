import UniqueId.Uuid.Basic

/-!
# Time layouts

Three layouts place a time in the 60 bits of the high word around the version field:

| layout      | bits 32 to 63 | bits 16 to 31 | bits 0 to 11 |
|-------------|---------------|---------------|--------------|
| ticks       | low 32        | next 16       | top 12       |
| reordered   | top 32        | next 16       | low 12       |
| milliseconds| top 32        | low 16        | (not time)   |

Each layout has a reader and a writer. The readers ignore the version field and the writers leave
it zero.
-/

namespace UniqueId.Time

/-! ### Readers -/

/-- The tick count in a high word laid out low part first. -/
def ticksOfHigh (high : UInt64) : UInt64 :=
  ((high &&& 0x0FFF) <<< 48) ||| ((high >>> 16 &&& 0xFFFF) <<< 32) ||| (high >>> 32)

/-- The tick count in a high word laid out high part first. -/
def reorderedTicksOfHigh (high : UInt64) : UInt64 :=
  ((high >>> 32) <<< 28) ||| ((high >>> 16 &&& 0xFFFF) <<< 12) ||| (high &&& 0x0FFF)

/-- The milliseconds in a high word. -/
def millisOfHigh (high : UInt64) : UInt64 :=
  high >>> 16

/-! ### Writers -/

/-- The high word that holds a 60-bit tick count, low part first. -/
def highOfTicks (ticks : UInt64) : UInt64 :=
  (ticks <<< 32) ||| ((ticks >>> 32 &&& 0xFFFF) <<< 16) ||| (ticks >>> 48 &&& 0x0FFF)

/-- The high word that holds a 60-bit tick count, high part first. -/
def highOfReorderedTicks (ticks : UInt64) : UInt64 :=
  ((ticks >>> 28) <<< 32) ||| ((ticks >>> 12 &&& 0xFFFF) <<< 16) ||| (ticks &&& 0x0FFF)

/-- The high word that holds a 48-bit count of milliseconds and 16 other bits, of which the
version will overwrite four. -/
def highOfMillis (millis : UInt64) (rest : UInt16) : UInt64 :=
  (millis <<< 16) ||| rest.toUInt64

end UniqueId.Time

namespace UniqueId.Uuid

/-- The tick count of an identifier laid out low part first. The version is not checked. -/
def ticks (u : Uuid) : UInt64 :=
  Time.ticksOfHigh u.highWithoutVersion

/-- The tick count of an identifier laid out high part first. The version is not checked. -/
def reorderedTicks (u : Uuid) : UInt64 :=
  Time.reorderedTicksOfHigh u.highWithoutVersion

/-- The milliseconds of an identifier. The version is not checked. -/
def millis (u : Uuid) : UInt64 :=
  Time.millisOfHigh u.highWithoutVersion

end UniqueId.Uuid
