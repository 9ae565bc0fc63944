/-!
# Debouncing

Holds the latest value of each key until the key has been quiet for an interval. Time moves in whole
milliseconds. A value whose time has come is released before anything else happens at that moment, and
closing releases all that is held.
-/

namespace Milestone

/-- A value that is held for a key until a deadline. -/
structure Held (κ ν : Type) where
  key : κ
  value : ν
  deadline : Nat
  deriving DecidableEq

/-- A value released at a time. -/
structure Released (κ ν : Type) where
  time : Nat
  key : κ
  value : ν
  deriving DecidableEq

/-- What is held, at the current time. -/
structure Debouncer (κ ν : Type) where
  interval : Nat
  now : Nat
  held : List (Held κ ν)
  closed : Bool
  deriving DecidableEq

namespace Debouncer

variable {κ ν : Type} [DecidableEq κ]

/-- How many values are taken at once. -/
def capacity : Nat := 256

/-- Nothing held at the time 0. -/
def new (interval : Nat) : Debouncer κ ν := ⟨interval, 0, [], false⟩

/-- Takes a value in the stead of one that is held for the key. -/
def accept (d : Debouncer κ ν) (key : κ) (value : ν) : Debouncer κ ν :=
  if d.closed then d
  else { d with
    held := d.held.filter (fun h => h.key ≠ key) ++ [⟨key, value, d.now + d.interval⟩] }

/-- Whether a single value is taken. -/
def accepts (d : Debouncer κ ν) : Bool :=
  !d.closed

/-- Takes as many of the values as are taken at once, and tells of each whether it was. -/
def acceptAll (d : Debouncer κ ν) (items : List (κ × ν)) : List Bool × Debouncer κ ν :=
  if d.closed then ([], d)
  else
    (items.mapIdx fun i _ => decide (i < capacity),
      (items.take capacity).foldl (fun d item => d.accept item.1 item.2) d)

/-- The values whose time has come by a moment, each released at its deadline. -/
def due (d : Debouncer κ ν) (time : Nat) : List (Released κ ν) :=
  (d.held.filter (fun h => h.deadline ≤ time)).map fun h => ⟨h.deadline, h.key, h.value⟩

/-- Moves on to a time, releasing what is due by then. -/
def moveTo (d : Debouncer κ ν) (time : Nat) : List (Released κ ν) × Debouncer κ ν :=
  (d.due time, { d with now := time, held := d.held.filter fun h => time < h.deadline })

/-- Moves on by some milliseconds. -/
def advance (d : Debouncer κ ν) (ms : Nat) : List (Released κ ν) × Debouncer κ ν :=
  d.moveTo (d.now + ms)

/-- The longest time that a single wait takes: thirty years of 365 days. -/
def longestWait : Nat := 30 * 365 * 86400 * 1000

/-- Moves on by the milliseconds of a wait, of which those beyond the longest one do not count. -/
def wait (d : Debouncer κ ν) (ms : Nat) : List (Released κ ν) × Debouncer κ ν :=
  d.advance (min ms longestWait)

/-- Releases all that is held. -/
def close (d : Debouncer κ ν) : List (Released κ ν) × Debouncer κ ν :=
  (d.held.map fun h => ⟨d.now, h.key, h.value⟩, { d with held := [], closed := true })

end Debouncer

end Milestone
