import Milestone.Proofs.Checklist.AtMost
import Milestone.Proofs.Template.WellFormed

/-!
# What a template declared

Ticks write progress into the entries in place, even into the stages of goals. Once it is taken away again, a
checklist that a run leads to is the one that was read from the template. The number of steps and the sizes of the
sections depend on nothing else, so that they are those of the template after every tick.
-/

namespace Milestone

open Json

/-- The size of a section, without how much of it is done. -/
def SectionCounts.bare (s : SectionCounts) : SectionCounts :=
  { s with completed := 0, visibleCompleted := 0 }

/-- The sizes of all sections, without how much of them is done. -/
def Counts.bare (counts : Counts) : Counts where
  advancements := counts.advancements.bare
  recipes := counts.recipes.bare
  statistics := counts.statistics.bare
  unlocks := counts.unlocks.bare
  custom := counts.custom.bare
  staged := counts.staged.bare
  criteria := counts.criteria
  completedCriteria := 0

section Sizes

variable {α : Type}

/-- The size of a section depends on which of its entries are hidden. -/
theorem SectionCounts.bare_ofMarks_map {f : α → α} {mark : α → Bool × Bool}
    (h : ∀ x, (mark (f x)).2 = (mark x).2) (xs : List α) :
    (ofMarks ((xs.map f).map mark)).bare = (ofMarks (xs.map mark)).bare := by
  have hvisible : ((xs.map f).map mark).countP (!·.2) = (xs.map mark).countP (!·.2) := by
    simp only [List.countP_map, Function.comp_def, h]
  simp only [bare, ofMarks, List.length_map, hvisible]

/-- A sum does not change where its numbers do not. -/
theorem sumBy_map {f : α → α} {g : α → Nat} (h : ∀ x, g (f x) = g x) (xs : List α) :
    sumBy g (xs.map f) = sumBy g xs := by
  induction xs with
  | nil => rfl
  | cons x rest ih => rw [List.map_cons, sumBy, sumBy, h, ih]

/-- Taking progress away commutes with leaving out entries for what was declared of them. -/
theorem filter_map_of_forall {f : α → α} {p : α → Bool} (h : ∀ x, p (f x) = p x) (xs : List α) :
    (xs.map f).filter p = (xs.filter p).map f := by
  rw [List.filter_map]
  exact congrArg (List.map f) (List.filter_congr fun x _ => h x)

end Sizes

namespace Checklist

variable (era : Era) (c : Checklist)

/-- The groups that count do so without their progress. -/
theorem countedStatistics_bare :
    c.bare.countedStatistics era = (c.countedStatistics era).map (·.bareStatistic) :=
  filter_map_of_forall (fun group => by rw [Category.isHelper_bareStatistic]) c.statistics

/-- The number of steps depends on what was declared. -/
theorem total_overall_bare : (c.bare.overall era).total = (c.overall era).total := by
  have hadvancement (a : Category) : a.bareAdvancement.advancementSteps.total =
      a.advancementSteps.total := by
    simp only [Category.advancementSteps, Category.bareAdvancement, Category.bareStatistic,
      List.length_map]
    split <;> rfl
  have hgoal (goal : StagedGoal) : goal.bare.goalSteps.total = goal.goalSteps.total := by
    simp only [StagedGoal.goalSteps, StagedGoal.steps, StagedGoal.bare, List.length_map]
  apply sumBy_eq_of_forall₂
  unfold entrySteps
  rw [countedStatistics_bare]
  simp only [bare, List.map_append, List.map_map]
  refine List.rel_append (List.rel_append (List.rel_append ?_ ?_) (List.rel_append ?_ ?_)) ?_
  · exact forall₂_map_of_forall fun a _ => hadvancement a
  · exact forall₂_map_of_forall fun group _ => List.length_map _
  · exact forall₂_map_of_forall fun _ _ => rfl
  · exact forall₂_map_of_forall fun _ _ => rfl
  · exact forall₂_map_of_forall fun goal _ => hgoal goal

/-- So do the sizes of all sections. -/
theorem bare_sectionCounts_bare :
    (c.bare.sectionCounts era).bare = (c.sectionCounts era).bare := by
  have hadvancements : c.bare.advancements.filter (!·.recipe) =
      (c.advancements.filter (!·.recipe)).map (·.bareAdvancement) :=
    filter_map_of_forall (fun _ => by rfl) c.advancements
  have hrecipes : c.bare.advancements.filter (·.recipe) =
      (c.advancements.filter (·.recipe)).map (·.bareAdvancement) :=
    filter_map_of_forall (fun _ => by rfl) c.advancements
  simp only [sectionCounts, Counts.bare, hadvancements, hrecipes, countedStatistics_bare]
  congr 1
  · exact SectionCounts.bare_ofMarks_map (fun _ => by rfl) _
  · exact SectionCounts.bare_ofMarks_map (fun _ => by rfl) _
  · exact SectionCounts.bare_ofMarks_map (fun _ => by rfl) _
  · exact SectionCounts.bare_ofMarks_map (fun _ => by rfl) _
  · exact SectionCounts.bare_ofMarks_map (fun _ => by rfl) _
  · exact SectionCounts.bare_ofMarks_map (fun _ => by rfl) _
  · exact sumBy_map (fun _ => by exact List.length_map _) _

end Checklist

/-- **Ticks never alter what a template declared.** After any run of ticks, of any versions and on any sources and
saved states, taking the progress away again leaves the checklist that was read from the template: its entries,
criteria and stages in their order, with their names, targets, addresses and marks. The steps and the size of every
section, visible or not, are those of the template after every tick of the run. -/
theorem declared_of_run {text : String} {names : DisplayNames} {origin : Checklist}
    (hread : Template.read text names = .ok origin) {c : Checklist} (hc : origin.ReachedFrom c) :
    c.bare = origin ∧
      ∀ (version : Version) (now : Instant) (s : Sources) (state : SavedState),
        let after := (tick version now s c state).checklist
        after.bare = origin ∧ after.totalSteps = (origin.overall version.era).total ∧
          after.counts.bare = (origin.sectionCounts version.era).bare := by
  refine ⟨hc.bare_eq.trans (Template.bare_of_read hread), fun version now s state => ?_⟩
  have hafter : (tick version now s c state).checklist.bare = origin := by
    rw [Checklist.bare_tick, hc.bare_eq, Template.bare_of_read hread]
  refine ⟨hafter, ?_, ?_⟩
  · rw [← recompute_tick, Checklist.recompute, ← Checklist.total_overall_bare, hafter]
  · rw [← recompute_tick, Checklist.recompute, ← Checklist.bare_sectionCounts_bare, hafter]

/-- After a tick on which a counter has shown up in a criterion and in a stage of a hidden goal, another one
without documents. -/
theorem declared_of_run_with_counter :
    let text := "\x7b\"stats\":\x7b\"go\":\x7b\"criteria\":\x7b\"walk\":\x7b\"target\":2\x7d,\"swim\":null\x7d\x7d\x7d," ++
      "\"multi_stage_goals\":[\x7b\"root_name\":\"trip\",\"hidden\":true,\"stages\":" ++
      "[\x7b\"type\":\"stat\",\"root_name\":\"walk\",\"target\":5\x7d]\x7d]\x7d"
    let version : Version := ⟨"1.6.4"⟩
    let now : Instant := ⟨⟨2013, 7, 1, by decide⟩, 0, 0, by decide⟩
    let walked : Value := .object [("walk", .number (.whole 4))]
    let state : SavedState :=
      { SavedState.empty with baseline := { Baseline.empty with world := some "A" } }
    ∃ origin, Template.read text ∅ = .ok origin ∧
      let first := tick version now ⟨some "A", none, some walked, none⟩ origin state
      let after := (tick version now ⟨some "A", none, none, none⟩ first.checklist first.state).checklist
      after ≠ origin ∧ after.goals.map (·.stages.map (·.seen?)) = [[some 4, none]] ∧
        after.completedSteps = 1 ∧ after.bare = origin ∧ after.totalSteps = 3 ∧
        after.counts.staged.bare = ⟨1, 0, 0, 0⟩ := by
  intro text version now walked state
  let criterion (name : String) : Item := { Item.new name name with address := some ⟨name⟩ }
  let origin : Checklist := { Checklist.empty with
    statistics := [.new "go" "go"
      [{ criterion "walk" with target := 2 }, criterion "swim"]]
    goals := [⟨"trip", "trip", [⟨"stage_0", "stage_0", .statistic ⟨"walk"⟩ 5 0⟩, Template.finalStage], 0,
      true⟩] }
  have hread : Template.read text ∅ = .ok origin := by decide +kernel
  refine ⟨origin, hread, ?_⟩
  intro first after
  obtain ⟨-, hticks⟩ := declared_of_run hread
    (.tick version now ⟨some "A", none, some walked, none⟩ state .refl)
  obtain ⟨hbare, htotal, hcounts⟩ := hticks version now ⟨some "A", none, none, none⟩ first.state
  have hstaged : after.counts.staged.bare = ((origin.sectionCounts version.era).bare).staged :=
    congrArg (·.staged) hcounts
  exact ⟨by decide, by decide, by decide, hbare, htotal.trans (by decide), hstaged.trans (by decide)⟩

end Milestone
