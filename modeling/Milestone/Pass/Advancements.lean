import Milestone.Checklist.Category
import Milestone.Snapshot.Lookup

/-!
# The advancements pass

Brings advancements up to date with the achievements document. An advancement is done when the game
says so or when every criterion that the template declares has been earned.
-/

namespace Milestone

open Json

namespace Category

/-- A criterion that has or has not been earned. -/
def markEarned (criterion : Item) (earned : Bool) : Item :=
  { criterion with done := earned, progress := .ofFlag earned, manual := false }

/-- Whether a criterion of an advancement has been earned; the oldest era knows no criteria, so there
each shares the fate of its achievement. -/
def isEarned (era : Era) (doc : Value) (advancement : String) (criterion : Item) : Bool :=
  match era with
  | .legacy => era.entryDone doc advancement
  | _ => era.criterionPresent doc advancement criterion.name

/-- An advancement brought up to date. -/
def updateAdvancement (era : Era) (doc : Value) (baseline : Baseline) (c : Category) : Category :=
  let reported := era.entryDone doc c.name
  let criteria := c.criteria.map fun item => markEarned item (isEarned era doc c.name item)
  let completed := countDone criteria
  let allMet := if criteria.isEmpty then reported else completed == criteria.length
  { c with
    criteria := criteria
    completed := completed
    allMet := allMet
    done := reported || allMet
    manual := false
    earnedBefore := era == .legacy && baseline.wasEarned c.name }

end Category

end Milestone
