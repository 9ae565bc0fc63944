import Milestone.Checklist.Address
import Milestone.Counter

/-!
# Items

The leaves of a checklist: a criterion, a statistic, an unlock or a custom goal. Only an item with a
positive target is done by its progress alone.
-/

namespace Milestone

/-- One thing to do. Its target is 0 for a switch, positive for a bounded count, and -1 for a count
without bound. -/
structure Item where
  name : String
  displayName : String
  target : Counter
  progress : Counter
  done : Bool
  /-- Whether it counts as done because somebody said so. -/
  manual : Bool
  hidden : Bool
  /-- Where its count is found, for statistics. -/
  address : Option Address
  deriving DecidableEq, Inhabited

namespace Item

/-- A switch without progress. -/
def new (name displayName : String) : Item where
  name := name
  displayName := displayName
  target := 0
  progress := 0
  done := false
  manual := false
  hidden := false
  address := none

/-- Whether an item counts up to a target. -/
def isBounded (item : Item) : Bool :=
  0 < item.target

/-- Whether the progress reaches a positive target. -/
def isReached (item : Item) : Bool :=
  item.isBounded && item.target ≤ item.progress

end Item

end Milestone
