import DieselDualdb.Lib.Calendar
import Mathlib.Algebra.Group.Int.Defs
import Mathlib.Algebra.Group.Nat.Defs

/-!
# The timestamp type on both backends

`Timestamp` wraps a `chrono` UTC instant.  Its Postgres arms delegate to
diesel's `timestamptz`, its SQLite arms format and parse an RFC 3339 text.
chrono and diesel are a parameter (`Drivers`); what they are documented to do
is `Documented`, and every result about the arms assumes no more than that.
-/

namespace DualdbTimestamp

open Calendar

/-- A `chrono` UTC date and time: day, second of the day, nanosecond.  In a
    leap second the nanosecond runs on past `10 ^ 9`; chrono takes one after any
    second. -/
@[ext] structure DateTime where
  /-- Days from 1 January of year 1. -/
  day : Int
  secs : Nat
  frac : Nat
  day_ge : daysBeforeYear (-262143) ≤ day
  day_lt : day < daysBeforeYear 262143
  secs_lt : secs < 86400
  frac_lt : frac < 2 * 10 ^ 9
deriving DecidableEq

namespace DateTime

def date (t : DateTime) : CivilDate := CivilDate.ofDayNumber t.day

def hour (t : DateTime) : Nat := t.secs / 3600

def minute (t : DateTime) : Nat := t.secs / 60 % 60

/-- `%S`: 60 in a leap second at the end of a minute. -/
def second (t : DateTime) : Nat := t.secs % 60 + t.frac / 10 ^ 9

/-- `%.6f`: the six digits after the point. -/
def micros (t : DateTime) : Nat := t.frac % 10 ^ 9 / 1000

/-- The instant without its nanoseconds below the microsecond. -/
def truncated (t : DateTime) : DateTime where
  day := t.day
  secs := t.secs
  frac := t.frac - t.frac % 1000
  day_ge := t.day_ge
  day_lt := t.day_lt
  secs_lt := t.secs_lt
  frac_lt := Nat.lt_of_le_of_lt (Nat.sub_le _ _) t.frac_lt

/-- A leap second stands at the end of a minute. -/
def LeapLast (t : DateTime) : Prop := 10 ^ 9 ≤ t.frac → t.secs % 60 = 59

instance (t : DateTime) : Decidable t.LeapLast :=
  inferInstanceAs (Decidable (10 ^ 9 ≤ t.frac → t.secs % 60 = 59))

end DateTime

/-- A date and time with the offset it was written in. -/
structure FixedDateTime where
  utc : DateTime
  offset : Int

def FixedDateTime.withTimezoneUtc (t : FixedDateTime) : DateTime := t.utc

/-- What the two arms use of `chrono` and diesel. -/
structure Drivers where
  /-- `t.format(pattern).to_string()` -/
  format : DateTime → String → String
  /-- `DateTime::parse_from_rfc3339`, the error as displayed. -/
  parseFromRfc3339 : String → Except String FixedDateTime
  /-- `Debug` of a text. -/
  debugStr : String → String
  /-- `ToSql<Timestamptz, Pg>`: the `i64` that is written. -/
  timestamptzToSql : DateTime → Except String Int
  /-- `FromSql<Timestamptz, Pg>` -/
  timestamptzFromSql : Int → Except String DateTime

/-- Canonical SQLite text format. -/
def sqliteFormat : String := "%Y-%m-%dT%H:%M:%S%.6fZ"

@[ext] structure Timestamp where
  value : DateTime
deriving DecidableEq

namespace Timestamp

def toSqlPg (d : Drivers) (t : Timestamp) : Except String Int :=
  d.timestamptzToSql t.value

def fromSqlPg (d : Drivers) (bytes : Int) : Except String Timestamp :=
  Timestamp.mk <$> d.timestamptzFromSql bytes

def toSqlSqlite (d : Drivers) (t : Timestamp) : String :=
  d.format t.value sqliteFormat

def fromSqlSqlite (d : Drivers) (s : String) : Except String Timestamp := do
  let dt ← (d.parseFromRfc3339 s).mapError fun e =>
    "invalid RFC3339 timestamp " ++ d.debugStr s ++ ": " ++ e
  pure ⟨dt.withTimezoneUtc⟩

def truncated (t : Timestamp) : Timestamp := ⟨t.value.truncated⟩

end Timestamp

end DualdbTimestamp
