import Milestone.Checklist.Item

/-!
# Categories

A named group of criteria: an advancement or a group of statistics.
-/

namespace Milestone

/-- An advancement with its criteria, or a group of statistics. -/
structure Category where
  name : String
  displayName : String
  criteria : List Item
  /-- How many of the criteria are done. -/
  completed : Nat
  done : Bool
  /-- Whether all that the template asks of it is done. -/
  allMet : Bool
  manual : Bool
  /-- Whether it was declared without criteria and holds one of its own name. -/
  single : Bool
  recipe : Bool
  hidden : Bool
  /-- Whether it was earned before the baseline was captured. -/
  earnedBefore : Bool
  deriving DecidableEq, Inhabited

namespace Category

/-- A category without progress. -/
def new (name displayName : String) (criteria : List Item) : Category where
  name := name
  displayName := displayName
  criteria := criteria
  completed := 0
  done := false
  allMet := false
  manual := false
  single := false
  recipe := false
  hidden := false
  earnedBefore := false

/-- A category of one statistic, whose criterion has its name and target. -/
def ofStatistic (name displayName : String) (address : Address) (target : Counter)
    (hidden : Bool) : Category :=
  let criterion :=
    { Item.new name displayName with target := target, address := some address, hidden := hidden }
  { new name displayName [criterion] with single := true, hidden := hidden }

/-- The number of criteria that are done. -/
def countDone (criteria : List Item) : Nat :=
  criteria.countP (·.done)

/-- The criterion of a name. -/
def criterion? (category : Category) (name : String) : Option Item :=
  category.criteria.find? (·.name == name)

theorem countDone_le_length (criteria : List Item) : countDone criteria ≤ criteria.length :=
  List.countP_le_length

end Category

end Milestone
