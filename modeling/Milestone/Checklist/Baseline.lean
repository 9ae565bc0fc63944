import Milestone.Counter
import Milestone.Instant.Basic
import Milestone.Keyed

/-!
# Baselines

Where counters run through all worlds, progress in one world is what came since the baseline of that
world was captured.
-/

namespace Milestone

/-- The counters and achievements at the time when the tracking of a world began. -/
structure Baseline where
  world : Option String
  playTime : Counter
  capturedAt : Option Instant
  counters : Keyed Counter
  earned : Keyed Bool
  deriving DecidableEq

namespace Baseline

/-- The baseline of no world. -/
def empty : Baseline where
  world := none
  playTime := 0
  capturedAt := none
  counters := ∅
  earned := ∅

instance : Inhabited Baseline where
  default := empty

/-- The count under an address; zero where none was captured. -/
def counter (b : Baseline) (address : String) : Counter :=
  (b.counters.get? address).getD 0

/-- Whether an achievement was earned before the capture. -/
def wasEarned (b : Baseline) (name : String) : Bool :=
  (b.earned.get? name).getD false

/-- Whether this is not the baseline of a world. -/
def isNeededFor (b : Baseline) (world : String) : Bool :=
  b.world != some world

end Baseline

end Milestone
