import Milestone.Binary64
import Milestone.Checklist.Baseline
import Milestone.Checklist.Category
import Milestone.Checklist.Counts
import Milestone.Checklist.StagedGoal

/-!
# Checklists

All that a template asks for, with what has been done of it.
-/

namespace Milestone

/-- The entries of a template with their progress. -/
structure Checklist where
  advancements : List Category
  statistics : List Category
  unlocks : List Item
  custom : List Item
  goals : List StagedGoal
  counts : Counts
  baseline : Baseline
  /-- The world that was seen last. -/
  world : Option String
  /-- The ticks played in that world. -/
  playTime : Counter
  percentage : Binary64
  totalSteps : Nat
  completedSteps : Nat
  deriving DecidableEq

namespace Checklist

/-- The checklist without entries. -/
def empty : Checklist where
  advancements := []
  statistics := []
  unlocks := []
  custom := []
  goals := []
  counts := .zero
  baseline := .empty
  world := none
  playTime := 0
  percentage := .zero
  totalSteps := 0
  completedSteps := 0

instance : Inhabited Checklist where
  default := empty

/-- The first advancement of a name. -/
def advancement? (c : Checklist) (name : String) : Option Category :=
  c.advancements.find? (·.name == name)

/-- The first group of statistics of a name. -/
def statistic? (c : Checklist) (name : String) : Option Category :=
  c.statistics.find? (·.name == name)

/-- The first unlock of a name. -/
def unlock? (c : Checklist) (name : String) : Option Item :=
  c.unlocks.find? (·.name == name)

/-- The first custom goal of a name. -/
def custom? (c : Checklist) (name : String) : Option Item :=
  c.custom.find? (·.name == name)

/-- The first staged goal of a name. -/
def goal? (c : Checklist) (name : String) : Option StagedGoal :=
  c.goals.find? (·.name == name)

/-- Whether there is nothing to do. -/
def isEmpty (c : Checklist) : Bool :=
  c.advancements.isEmpty && c.statistics.isEmpty && c.unlocks.isEmpty && c.custom.isEmpty &&
    c.goals.isEmpty

end Checklist

end Milestone
