import Milestone.Proofs.Tick.Entries
import Milestone.Proofs.Tick.Scan
import Milestone.Session.Basic

/-!
# Checklists without progress

What a template says of an entry lies apart from the progress that ticks record for it. This file takes
the progress away from each kind of entry. A pass reads only what is left then, and changes only what was
taken away. So all checklists that are reached from one checklist are the same without their progress.
-/

namespace Milestone

open Json

/-- A criterion or a custom goal without its progress. -/
def Item.bare (item : Item) : Item :=
  { item with progress := 0, done := false, manual := false }

/-- An unlock without its progress; no pass marks it as set by hand. -/
def Item.bareUnlock (item : Item) : Item :=
  { item with progress := 0, done := false }

namespace Category

/-- A group of statistics without its progress. -/
def bareStatistic (c : Category) : Category :=
  { c with
    criteria := c.criteria.map (·.bare)
    completed := 0
    done := false
    allMet := false
    manual := false }

/-- An advancement without its progress, nor the mark that it takes from a baseline. -/
def bareAdvancement (c : Category) : Category :=
  { c.bareStatistic with earnedBefore := false }

end Category

/-- A staged goal without its progress. -/
def StagedGoal.bare (goal : StagedGoal) : StagedGoal :=
  { goal with stages := goal.stages.map (·.bare), current := 0 }

namespace Checklist

/-- The entries of a checklist without their progress, and nothing else. -/
def bare (c : Checklist) : Checklist :=
  { Checklist.empty with
    advancements := c.advancements.map (·.bareAdvancement)
    statistics := c.statistics.map (·.bareStatistic)
    unlocks := c.unlocks.map (·.bareUnlock)
    custom := c.custom.map (·.bare)
    goals := c.goals.map (·.bare) }

/-- The checklists that runs lead to from one checklist, such as a new one: by ticks of any versions on any
sources and states, and by taking over what a saved state knows. -/
inductive ReachedFrom (origin : Checklist) : Checklist → Prop where
  | refl : ReachedFrom origin origin
  | seed (era : Era) (state : SavedState) {c : Checklist} (h : ReachedFrom origin c) :
      ReachedFrom origin (Session.seed era state c)
  | tick (version : Version) (now : Instant) (s : Sources) (state : SavedState) {c : Checklist}
      (h : ReachedFrom origin c) : ReachedFrom origin (tick version now s c state).checklist

end Checklist

section Documents

variable (era : Era) (doc : Value) (b : Baseline) (state : SavedState)

namespace Category

/-- The pass changes nothing of an advancement but its progress. -/
@[simp] theorem bareAdvancement_updateAdvancement (c : Category) :
    (c.updateAdvancement era doc b).bareAdvancement = c.bareAdvancement := by
  simp [bareAdvancement, bareStatistic, updateAdvancement, Function.comp_def, markEarned, Item.bare]

/-- What was recorded for an advancement does not matter for what its pass records. -/
@[simp] theorem updateAdvancement_bareAdvancement (c : Category) :
    c.bareAdvancement.updateAdvancement era doc b = c.updateAdvancement era doc b := by
  simp [bareAdvancement, bareStatistic, updateAdvancement, Function.comp_def, markEarned, isEarned,
    Item.bare]

/-- The pass changes nothing of a group of statistics but its progress. -/
@[simp] theorem bareStatistic_updateStatistic (c : Category) :
    (c.updateStatistic era doc b state).bareStatistic = c.bareStatistic := by
  simp [bareStatistic, updateStatistic, Function.comp_def, updateCriterion, Item.bare]

/-- What was recorded for a criterion does not matter for what its pass records. -/
theorem updateCriterion_bare (c : Category) (item : Item) :
    c.bareStatistic.updateCriterion era doc b state item.bare =
      c.updateCriterion era doc b state item := by
  have hlength : c.bareStatistic.criteria.length = c.criteria.length := List.length_map _
  simp only [updateCriterion, hasOwnOverride, hlength]
  rfl

/-- What was recorded for a group of statistics does not matter for what its pass records. -/
@[simp] theorem updateStatistic_bareStatistic (c : Category) :
    c.bareStatistic.updateStatistic era doc b state = c.updateStatistic era doc b state := by
  have hcriteria : c.bareStatistic.criteria.map (c.bareStatistic.updateCriterion era doc b state) =
      c.criteria.map (c.updateCriterion era doc b state) := by
    rw [bareStatistic, List.map_map]
    exact List.map_congr_left fun item _ => updateCriterion_bare era doc b state c item
  unfold updateStatistic
  simp only [hcriteria]
  rfl

end Category

/-- What was recorded for an unlock does not matter for what its pass records. -/
@[simp] theorem Item.updateUnlock_bareUnlock (item : Item) :
    item.bareUnlock.updateUnlock doc = item.updateUnlock doc :=
  rfl

/-- The pass changes nothing of a custom goal but its progress. -/
@[simp] theorem Item.bare_updateCustom (item : Item) :
    (item.updateCustom state).bare = item.bare :=
  rfl

/-- What was recorded for a custom goal does not matter for what its pass records. -/
@[simp] theorem Item.updateCustom_bare (item : Item) :
    item.bare.updateCustom state = item.updateCustom state :=
  rfl

end Documents

section Passes

variable (era : Era) (s : Sources) (b : Baseline) (state : SavedState)

/-- So a tick changes nothing of an advancement but its progress, with its document or without. -/
@[simp] theorem Category.bareAdvancement_tickAdvancement (c : Category) :
    (c.tickAdvancement era s b).bareAdvancement = c.bareAdvancement := by
  unfold tickAdvancement
  split
  · exact bareAdvancement_updateAdvancement ..
  · rfl

/-- The same for a group of statistics. -/
@[simp] theorem Category.bareStatistic_tickStatistic (c : Category) :
    (c.tickStatistic era s b state).bareStatistic = c.bareStatistic := by
  unfold tickStatistic
  split
  · exact bareStatistic_updateStatistic ..
  · rfl

/-- The same for an unlock. -/
@[simp] theorem Item.bareUnlock_tickUnlock (item : Item) :
    (item.tickUnlock s).bareUnlock = item.bareUnlock := by
  unfold tickUnlock
  split <;> rfl

/-- A scan changes nothing of a staged goal but where it stands and what its stages show. -/
@[simp] theorem StageContext.bare_updateGoal (ctx : StageContext) (goal : StagedGoal) :
    (ctx.updateGoal goal).bare = goal.bare := by
  unfold updateGoal
  split
  · rename_i reached scanned hscan
    obtain ⟨-, rfl⟩ := scan_eq_some hscan
    simp only [StagedGoal.bare, bare_shown]
  · rfl

end Passes

namespace Checklist

/-- The passes record progress, and change nothing else in an entry. -/
theorem bare_afterPasses (c : Checklist) (version : Version) (s : Sources) (state : SavedState) :
    (c.afterPasses version s state).bare = c.bare := by
  simp [bare, afterPasses, Function.comp_def]

/-- So does a tick. -/
theorem bare_tick (version : Version) (now : Instant) (s : Sources) (c : Checklist)
    (state : SavedState) : (tick version now s c state).checklist.bare = c.bare := by
  rw [tick_checklist]
  exact bare_afterPasses ..

/-- No run changes what is left of a checklist without its progress. -/
theorem ReachedFrom.bare_eq {origin c : Checklist} (h : origin.ReachedFrom c) :
    c.bare = origin.bare := by
  induction h with
  | refl => rfl
  | seed era state _ ih => exact ih
  | tick version now s state _ ih => rw [bare_tick, ih]

end Checklist

end Milestone
