import Milestone.Checklist.Category
import Milestone.Saved.State
import Milestone.Snapshot.Lookup

/-!
# The statistics pass

Brings groups of statistics up to date with the statistics document and the overrides. A criterion is
done when its progress reaches its target, when its own override is set, or when that of its group is.
The only criterion of a group shares the override of the group.
-/

namespace Milestone

open Json

namespace Category

/-- Whether the override of a criterion is set. -/
def hasOwnOverride (state : SavedState) (c : Category) (criterion : Item) : Bool :=
  if c.criteria.length = 1 then state.override c.name
  else state.override (SavedState.criterionKey c.name criterion.name)

/-- A criterion brought up to date. -/
def updateCriterion (era : Era) (doc : Value) (baseline : Baseline) (state : SavedState)
    (c : Category) (criterion : Item) : Item :=
  let manual := c.hasOwnOverride state criterion || state.override c.name
  let counted := { criterion with
    progress := (criterion.address.map fun a => era.progress doc a baseline).getD 0 }
  { counted with manual := manual, done := counted.isReached || manual }

/-- A group of statistics brought up to date. -/
def updateStatistic (era : Era) (doc : Value) (baseline : Baseline) (state : SavedState)
    (c : Category) : Category :=
  let criteria := c.criteria.map (c.updateCriterion era doc baseline state)
  let completed := countDone criteria
  let allMet := !criteria.isEmpty && completed == criteria.length
  let manual := state.override c.name
  { c with
    criteria := criteria
    completed := completed
    allMet := allMet
    manual := manual
    done := allMet || manual }

end Category

end Milestone
