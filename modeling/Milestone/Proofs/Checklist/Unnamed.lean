import Milestone.Proofs.Checklist.Declared

/-!
# Checklists without the names to show

The names to show are for a reader; entries are known by their own names. This file takes the names to show away
from every entry that has one. Main fact: this commutes with a tick. So a tick leaves the same state, reports the same
and calls for a save just as it does on the checklist without those names.
-/

namespace Milestone

open Json

/-- An item without the name to show for it. -/
def Item.unnamed (item : Item) : Item :=
  { item with displayName := "" }

/-- A category without the names to show for it and for its criteria. -/
def Category.unnamed (c : Category) : Category :=
  { c with displayName := "", criteria := c.criteria.map (·.unnamed) }

/-- A goal without the name to show for it; the texts of its stages are left. -/
def StagedGoal.unnamed (goal : StagedGoal) : StagedGoal :=
  { goal with displayName := "" }

/-- A checklist without the names to show for its entries. -/
def Checklist.unnamed (c : Checklist) : Checklist :=
  { c with
    advancements := c.advancements.map (·.unnamed)
    statistics := c.statistics.map (·.unnamed)
    unlocks := c.unlocks.map (·.unnamed)
    custom := c.custom.map (·.unnamed)
    goals := c.goals.map (·.unnamed) }

/-- What a tick leaves, without the names to show. -/
def Tick.unnamed (t : Tick) : Tick :=
  { t with checklist := t.checklist.unnamed }

/-- The advancements that stages are evaluated against, without the names to show. -/
def StageContext.unnamed (ctx : StageContext) : StageContext :=
  { ctx with advancements := ctx.advancements.map (·.unnamed) }

/-- What commutes on every item commutes on lists of them. -/
theorem map_comm_of_forall {α β : Type} {f g : α → β} {u : α → α} {v : β → β}
    (h : ∀ x, f (u x) = v (g x)) (xs : List α) : (xs.map u).map f = (xs.map g).map v := by
  rw [List.map_map, List.map_map]
  exact List.map_congr_left fun x _ => h x

section Documents

variable (era : Era) (doc : Value) (b : Baseline) (state : SavedState)

namespace Category

/-- Criteria count as done whatever name is shown for them. -/
@[simp] theorem countDone_unnamed (criteria : List Item) :
    countDone (criteria.map (·.unnamed)) = countDone criteria := by
  simp only [countDone, List.countP_map, Function.comp_def, Item.unnamed]

/-- The pass finds an advancement and its criteria in the document by their own names. -/
theorem updateAdvancement_unnamed (c : Category) :
    c.unnamed.updateAdvancement era doc b = (c.updateAdvancement era doc b).unnamed := by
  have hcriteria (name : String) :
      (c.criteria.map (·.unnamed)).map (fun item => markEarned item (isEarned era doc name item)) =
        (c.criteria.map fun item => markEarned item (isEarned era doc name item)).map (·.unnamed) :=
    map_comm_of_forall (fun _ => by rfl) c.criteria
  simp only [updateAdvancement, unnamed, hcriteria, countDone_unnamed, List.isEmpty_map,
    List.length_map]

/-- Overrides are found by the names of entries. -/
theorem updateCriterion_unnamed (c : Category) (item : Item) :
    c.unnamed.updateCriterion era doc b state item.unnamed =
      (c.updateCriterion era doc b state item).unnamed := by
  have hlength : c.unnamed.criteria.length = c.criteria.length := List.length_map _
  simp only [updateCriterion, hasOwnOverride, hlength]
  rfl

/-- The pass treats a group of statistics the same whatever names are shown. -/
theorem updateStatistic_unnamed (c : Category) :
    c.unnamed.updateStatistic era doc b state = (c.updateStatistic era doc b state).unnamed := by
  have hcriteria : c.unnamed.criteria.map (c.unnamed.updateCriterion era doc b state) =
      (c.criteria.map (c.updateCriterion era doc b state)).map (·.unnamed) :=
    map_comm_of_forall (updateCriterion_unnamed era doc b state c) c.criteria
  simp only [updateStatistic, hcriteria, countDone_unnamed, List.isEmpty_map, List.length_map]
  rfl

end Category

end Documents

section Passes

variable (era : Era) (s : Sources) (b : Baseline) (state : SavedState)

/-- A tick treats an advancement the same whatever names are shown, with its document or without. -/
theorem Category.tickAdvancement_unnamed (c : Category) :
    c.unnamed.tickAdvancement era s b = (c.tickAdvancement era s b).unnamed := by
  unfold tickAdvancement
  split
  · exact updateAdvancement_unnamed ..
  · rfl

/-- The same for a group of statistics. -/
theorem Category.tickStatistic_unnamed (c : Category) :
    c.unnamed.tickStatistic era s b state = (c.tickStatistic era s b state).unnamed := by
  unfold tickStatistic
  split
  · exact updateStatistic_unnamed ..
  · rfl

/-- A tick finds an unlock by its own name. -/
theorem Item.tickUnlock_unnamed (item : Item) :
    item.unnamed.tickUnlock s = (item.tickUnlock s).unnamed := by
  unfold tickUnlock
  split <;> rfl

/-- The recorded value of a custom goal is found by its own name. -/
theorem Item.updateCustom_unnamed (item : Item) :
    item.unnamed.updateCustom state = (item.updateCustom state).unnamed :=
  rfl

end Passes

namespace StageContext

variable (ctx : StageContext)

/-- A stage finds an advancement by its own name. -/
theorem isAdvancementDone_unnamed (doc : Value) (name : String) :
    ctx.unnamed.isAdvancementDone doc name = ctx.isAdvancementDone doc name := by
  have hfind : ctx.unnamed.advancements.find? (·.name == name) =
      (ctx.advancements.find? (·.name == name)).map (·.unnamed) := List.find?_map ..
  rw [isAdvancementDone, isAdvancementDone, hfind]
  cases ctx.advancements.find? (·.name == name) <;> rfl

/-- No requirement of a stage looks at a name to show. -/
theorem evaluate_unnamed (requirement : Requirement) :
    ctx.unnamed.evaluate requirement = ctx.evaluate requirement := by
  cases requirement with
  | advancement name => simp only [evaluate, isAdvancementDone_unnamed]; rfl
  | _ => rfl

/-- So a scan goes as far, and finds the same progress. -/
theorem scan_unnamed (stages : List Stage) : ctx.unnamed.scan stages = ctx.scan stages := by
  induction stages with
  | nil => rfl
  | cons stage rest ih => rw [scan, scan, evaluate_unnamed, ih]

/-- The pass treats a staged goal the same whatever names are shown. -/
theorem updateGoal_unnamed (goal : StagedGoal) :
    ctx.unnamed.updateGoal goal.unnamed = (ctx.updateGoal goal).unnamed := by
  have hscan : ctx.unnamed.scan goal.unnamed.stages = ctx.scan goal.stages :=
    ctx.scan_unnamed goal.stages
  rw [updateGoal, updateGoal, hscan]
  cases ctx.scan goal.stages <;> rfl

end StageContext

namespace Category

/-- Whether a group only serves the stages of goals depends on no name to show. -/
theorem isHelper_unnamed (era : Era) (c : Category) : c.unnamed.isHelper era = c.isHelper era := by
  unfold isHelper
  -- a helper has exactly one criterion
  rcases hcriteria : c.criteria with _ | ⟨item, _ | _⟩ <;> simp [unnamed, hcriteria, Item.unnamed]

/-- An advancement has the same steps. -/
theorem advancementSteps_unnamed (c : Category) : c.unnamed.advancementSteps = c.advancementSteps := by
  simp only [advancementSteps, unnamed, List.length_map]

/-- A group of statistics has the same steps. -/
theorem statisticSteps_unnamed (c : Category) : c.unnamed.statisticSteps = c.statisticSteps := by
  simp only [statisticSteps, unnamed, List.length_map]

end Category

namespace Checklist

variable (era : Era) (c : Checklist)

/-- The same groups of statistics count. -/
theorem countedStatistics_unnamed :
    c.unnamed.countedStatistics era = (c.countedStatistics era).map (·.unnamed) :=
  filter_map_of_forall (fun group => by rw [Category.isHelper_unnamed]) c.statistics

/-- So the entries that count have the same steps. -/
theorem entrySteps_unnamed : c.unnamed.entrySteps era = c.entrySteps era := by
  unfold entrySteps
  rw [countedStatistics_unnamed]
  simp only [unnamed, List.map_append, List.map_map, Function.comp_def,
    Category.advancementSteps_unnamed, Category.statisticSteps_unnamed]
  rfl

/-- The sections count the same entries as done and as hidden. -/
theorem sectionCounts_unnamed : c.unnamed.sectionCounts era = c.sectionCounts era := by
  have hadvancements (p : Category → Bool) (hp : ∀ a, p a.unnamed = p a) :
      c.unnamed.advancements.filter p = (c.advancements.filter p).map (·.unnamed) :=
    filter_map_of_forall hp c.advancements
  have hcriteria (advancements : List Category) :
      sumBy (·.criteria.length) (advancements.map (·.unnamed)) =
        sumBy (·.criteria.length) advancements :=
    sumBy_map (fun _ => by exact List.length_map _) advancements
  have hcompleted (advancements : List Category) :
      sumBy (·.completed) (advancements.map (·.unnamed)) = sumBy (·.completed) advancements :=
    sumBy_map (fun _ => by rfl) advancements
  unfold sectionCounts
  rw [hadvancements (·.recipe) fun _ => by rfl, hadvancements (!·.recipe) fun _ => by rfl,
    countedStatistics_unnamed]
  simp only [hcriteria, hcompleted, unnamed, List.map_map]
  rfl

/-- What is counted depends on no name to show. -/
theorem recompute_unnamed : c.unnamed.recompute era = (c.recompute era).unnamed := by
  simp only [recompute, overall, entrySteps_unnamed, sectionCounts_unnamed]
  rfl

/-- The passes of a tick treat each entry on its own, so that they commute on the whole checklist. -/
theorem afterPasses_unnamed (version : Version) (s : Sources) (state : SavedState) :
    c.unnamed.afterPasses version s state = (c.afterPasses version s state).unnamed := by
  have hadvancements : c.unnamed.advancements.map (·.tickAdvancement version.era s c.baseline) =
      (c.advancements.map (·.tickAdvancement version.era s c.baseline)).map (·.unnamed) :=
    map_comm_of_forall (·.tickAdvancement_unnamed version.era s c.baseline) c.advancements
  have hstatistics : c.unnamed.statistics.map (·.tickStatistic version.era s c.baseline state) =
      (c.statistics.map (·.tickStatistic version.era s c.baseline state)).map (·.unnamed) :=
    map_comm_of_forall (·.tickStatistic_unnamed version.era s c.baseline state) c.statistics
  have hunlocks : c.unnamed.unlocks.map (·.tickUnlock s) =
      (c.unlocks.map (·.tickUnlock s)).map (·.unnamed) :=
    map_comm_of_forall (·.tickUnlock_unnamed s) c.unlocks
  have hcustom : c.unnamed.custom.map (·.updateCustom state) =
      (c.custom.map (·.updateCustom state)).map (·.unnamed) :=
    map_comm_of_forall (·.updateCustom_unnamed state) c.custom
  have hgoals (ctx : StageContext) : c.unnamed.goals.map ctx.unnamed.updateGoal =
      (c.goals.map ctx.updateGoal).map (·.unnamed) :=
    map_comm_of_forall ctx.updateGoal_unnamed c.goals
  have hbaseline : c.unnamed.baseline = c.baseline := rfl
  simp only [afterPasses, hbaseline, hadvancements, hstatistics, hunlocks, hcustom]
  simp only [unnamed, ← hgoals, StageContext.unnamed]

end Checklist

/-- A baseline takes from a checklist the own names of its advancements. -/
theorem Baseline.renewed_unnamed (b : Baseline) (version : Version) (now : Instant) (s : Sources)
    (c : Checklist) : b.renewed version now s c.unnamed = b.renewed version now s c :=
  renewed_congr List.map_map b version now s

/-- **A tick commutes with taking away the names to show.** -/
theorem tick_unnamed (version : Version) (now : Instant) (s : Sources) (c : Checklist)
    (state : SavedState) :
    tick version now s c.unnamed state = (tick version now s c state).unnamed := by
  have hworld : c.unnamed.world = c.world := rfl
  have hstate : (tick version now s c.unnamed state).state = (tick version now s c state).state := by
    rw [tick_state, tick_state, s.clearsProgress_congr hworld, s.entersWorld_congr hworld,
      Baseline.renewed_unnamed]
  have hdetected : c.unnamed.detected version now s state =
      (c.detected version now s state).unnamed := by
    rw [Checklist.detected, Baseline.renewed_unnamed]
    rfl
  have hchecklist : (tick version now s c.unnamed state).checklist =
      (tick version now s c state).checklist.unnamed := by
    rw [tick_checklist, tick_checklist, hstate, hdetected, Checklist.afterPasses_unnamed,
      Checklist.recompute_unnamed]
  have hreport : (tick version now s c.unnamed state).report = (tick version now s c state).report := by
    rw [tick_report_eq, tick_report_eq, hchecklist, s.changesWorld_congr hworld]
    rfl
  have hdirty : (tick version now s c.unnamed state).dirty = (tick version now s c state).dirty := by
    rw [tick_dirty, tick_dirty, s.entersWorld_congr hworld]
  rw [Tick.unnamed, ← hchecklist, ← hstate, ← hreport, ← hdirty]

end Milestone
