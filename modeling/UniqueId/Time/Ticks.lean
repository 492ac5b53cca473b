/-!
# Ticks and milliseconds

Two clocks count time:

* **ticks** of 100 nanoseconds since the Gregorian reform, 1582-10-15;
* **milliseconds** since 1970-01-01, negative before.

Both conversions are signed 64-bit arithmetic. The one to milliseconds truncates toward 1970, so
the millisecond zero takes in nearly twice as many ticks as any other.
-/

namespace UniqueId.Time

/-- The ticks between 1582-10-15 and 1970-01-01. -/
def epochTicks : Int64 := 0x01B21DD213814000

/-- The ticks in a millisecond. -/
def ticksPerMilli : Int64 := 10000

/-- The milliseconds since 1970 at a tick count. -/
def millisOfTicks (ticks : UInt64) : Int64 :=
  (ticks.toInt64 - epochTicks) / ticksPerMilli

/-- The tick count at a number of milliseconds since 1970. -/
def ticksOfMillis (millis : Int64) : UInt64 :=
  (millis * ticksPerMilli + epochTicks).toUInt64

end UniqueId.Time
