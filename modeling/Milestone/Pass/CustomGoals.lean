import Milestone.Checklist.Item
import Milestone.Saved.State

/-!
# The custom goals pass

Brings custom goals up to date with what the player recorded. A switch takes a flag or any positive
count; a bounded goal is done from its target on, or at once by the flag true, which also sets its
progress to the target; a goal without bound is done by the flag true alone.
-/

namespace Milestone

/-- Progress, completion and the manual mark of a goal with a target, for a recorded value. -/
def customProgress (target : Counter) : Option CustomValue → Counter × Bool × Bool
  | none => (0, false, false)
  | some value =>
    if target = 0 then
      match value with
      | .flag b => (.ofFlag b, b, false)
      | .count n => (.ofFlag (0 < n), 0 < n, false)
    else if target.value = -1 then
      match value with
      | .flag true => (1, true, true)
      | .flag false => (0, false, false)
      | .count n => (n, false, false)
    else
      match value with
      | .count n => (n, target ≤ n, false)
      | .flag true => (target, true, true)
      | .flag false => (0, false, false)

/-- A custom goal with a recorded value. -/
def Item.applyCustom (item : Item) (value : Option CustomValue) : Item :=
  let (progress, done, manual) := customProgress item.target value
  { item with progress, done, manual }

/-- A custom goal brought up to date. -/
def Item.updateCustom (state : SavedState) (item : Item) : Item :=
  item.applyCustom (state.customValue? item.name)

end Milestone
