import Milestone.Checklist.Basic
import Milestone.Version

/-!
# Overall progress

Every step of a checklist weighs the same. An advancement has a step for each criterion and at least
one, a recipe one, a group of statistics one for each criterion, an unlock or custom goal one, and a
staged goal one for each stage but the last. Main fact: a sum of steps has no more completed than there
are, if none of its parts has.
-/

namespace Milestone

/-- The sum of a number of every item. -/
def sumBy {α : Type} (f : α → Nat) : List α → Nat
  | [] => 0
  | x :: rest => f x + sumBy f rest

/-- Steps and how many of them are completed. -/
structure Steps where
  total : Nat
  completed : Nat
  deriving DecidableEq

namespace Steps

/-- A single step. -/
def one (done : Bool) : Steps := ⟨1, if done then 1 else 0⟩

/-- The sum of a list of steps. -/
def sum (steps : List Steps) : Steps :=
  ⟨sumBy (·.total) steps, sumBy (·.completed) steps⟩

/-- The completed part in percent; all of it where there is nothing to do. -/
def percentage (s : Steps) : Binary64 :=
  if s.total = 0 then .ofNat 100
  else ((Binary64.ofNat 100).mul (.ofNat s.completed)).div (.ofNat s.total)

end Steps

namespace Category

/-- Whether a group of statistics only serves the stages of goals: a single switch in the oldest
era. -/
def isHelper (era : Era) (c : Category) : Bool :=
  era == .legacy && c.single &&
    match c.criteria with
    | [criterion] => criterion.target == 0
    | _ => false

/-- The steps of an advancement or recipe. -/
def advancementSteps (c : Category) : Steps :=
  if c.recipe then .one c.done
  else
    let total := max 1 c.criteria.length
    ⟨total, if c.done then total else min c.completed total⟩

/-- The steps of a group of statistics. -/
def statisticSteps (c : Category) : Steps :=
  ⟨c.criteria.length, min c.completed c.criteria.length⟩

end Category

/-- The steps of a staged goal. -/
def StagedGoal.goalSteps (goal : StagedGoal) : Steps :=
  ⟨goal.steps, min goal.current goal.steps⟩

namespace Checklist

/-- The groups of statistics that count. -/
def countedStatistics (era : Era) (c : Checklist) : List Category :=
  c.statistics.filter (!·.isHelper era)

/-- The steps of every entry that counts. -/
def entrySteps (era : Era) (c : Checklist) : List Steps :=
  c.advancements.map (·.advancementSteps) ++ (c.countedStatistics era).map (·.statisticSteps) ++
    (c.unlocks ++ c.custom).map (fun item => .one item.done) ++ c.goals.map (·.goalSteps)

/-- The steps of a checklist. -/
def overall (era : Era) (c : Checklist) : Steps :=
  .sum (c.entrySteps era)

/-- The counts of every section. -/
def sectionCounts (era : Era) (c : Checklist) : Counts :=
  let recipes := c.advancements.filter (·.recipe)
  let advancements := c.advancements.filter (!·.recipe)
  { advancements := .ofMarks (advancements.map fun a => (a.done, a.hidden))
    recipes := .ofMarks (recipes.map fun a => (a.done, a.hidden))
    statistics := .ofMarks ((c.countedStatistics era).map fun s => (s.done, s.hidden))
    unlocks := .ofMarks (c.unlocks.map fun u => (u.done, u.hidden))
    custom := .ofMarks (c.custom.map fun g => (g.done, g.hidden))
    staged := .ofMarks (c.goals.map fun g => (g.isComplete, g.hidden))
    criteria := sumBy (·.criteria.length) advancements
    completedCriteria := sumBy (·.completed) advancements }

/-- The checklist with its counts and percentage brought up to date. -/
def recompute (era : Era) (c : Checklist) : Checklist :=
  let steps := c.overall era
  { c with
    counts := c.sectionCounts era
    totalSteps := steps.total
    completedSteps := steps.completed
    percentage := steps.percentage }

end Checklist

/-- A sum of steps has no more completed than there are, if none of its parts has. -/
theorem Steps.completed_sum_le_total {steps : List Steps}
    (h : ∀ s ∈ steps, s.completed ≤ s.total) : (sum steps).completed ≤ (sum steps).total := by
  induction steps with
  | nil => exact Nat.le_refl 0
  | cons s rest ih =>
    have hs := h s List.mem_cons_self
    have hr := ih fun t ht => h t (List.mem_cons_of_mem _ ht)
    simp only [sum, sumBy] at hr ⊢
    omega

end Milestone
