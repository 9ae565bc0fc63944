import Milestone.Instant.Date

/-!
# Instants

A moment in universal time, exact to the nanosecond. A leap second is the second 59 of its minute
with a thousand million nanoseconds or more.
-/

namespace Milestone

/-- Whether a second of the day and its nanoseconds name a time of day. -/
def isTimeOfDay (second nano : Nat) : Bool :=
  second < 86400 && (nano < 1000000000 || (nano < 2000000000 && second % 60 == 59))

/-- A moment in universal time. -/
structure Instant where
  date : Date
  second : Nat
  nano : Nat
  valid : isTimeOfDay second nano = true
  deriving DecidableEq

namespace Instant

/-- The instant of a date, a second of the day and its nanoseconds. -/
def of? (date : Date) (second nano : Nat) : Option Instant :=
  if h : isTimeOfDay second nano = true then some ⟨date, second, nano, h⟩ else none

/-- The instant that local clocks `offset` seconds ahead of universal time show as the given date and
second of the day. -/
def ofLocal? (date : Date) (second nano : Nat) (offset : Int) : Option Instant :=
  let shifted : Int := second - offset
  let universal := (shifted % 86400).toNat
  if shifted < 0 then date.previous?.bind (of? · universal nano)
  else if shifted < 86400 then of? date universal nano
  else date.next?.bind (of? · universal nano)

/-- The instant a number of seconds and nanoseconds after the start of 1970. -/
def ofEpoch? (second : Int) (nano : Nat) : Option Instant :=
  (Date.ofEpochDay? (second / 86400)).bind (of? · (second % 86400).toNat nano)

end Instant

end Milestone
