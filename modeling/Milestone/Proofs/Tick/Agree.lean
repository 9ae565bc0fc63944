import Milestone.Proofs.Checklist.Reached
import Milestone.Proofs.Template.Names
import Milestone.Proofs.Tick.Forget

/-!
# Stages and sections

A stage of a goal asks for something that a section of the checklist may show as well: a statistic, an
advancement or one of its criteria, an unlock. The scan of the stages looks it up on its own. This file
proves that it finds what the sections show after the same tick, if all documents are at hand: for each
stage up to the one that a goal stands at, the goal has passed the stage exactly if the section says so.
-/

namespace Milestone

open Json

/-- What the sections of a checklist show of what a stage asks for, where `passed` says whether its goal is
past the stage. Overrides do not help a goal on. The oldest era knows no criteria. -/
def Requirement.Agrees (era : Era) (c : Checklist) (passed : Prop) : Requirement → Prop
  | .manual => True
  | .advancement name => ∀ a ∈ c.advancements, a.name = name → (passed ↔ a.done = true)
  | .statistic address required current =>
    ∀ group ∈ c.statistics, ∀ item ∈ group.criteria, item.address = some address →
      current = item.progress ∧ (passed ↔ required ≤ item.progress)
  | .unlock name => ∀ u ∈ c.unlocks, u.name = name → (passed ↔ u.done = true)
  | .criterion parent name =>
    era ≠ .legacy → ∀ a ∈ c.advancements, a.name = parent → ∀ item ∈ a.criteria, item.name = name →
      (passed ↔ item.done = true)

/-- A name finds the advancement that bears it. -/
theorem find?_name_of_nodup {advancements : List Category}
    (hnodup : (advancements.map (·.name)).Nodup) {a : Category} (ha : a ∈ advancements) :
    advancements.find? (·.name == a.name) = some a :=
  Template.find?_of_nodup hnodup ha

/-- The advancements of a reached checklist have different names. -/
theorem Checklist.Reached.nodup_advancements {c : Checklist} (h : c.Reached) :
    (c.advancements.map (·.name)).Nodup := by
  induction h with
  | read hread => exact Template.nodup_advancements_of_read hread
  | seed era state _ ih => exact ih
  | tick version now s state _ ih =>
    have hname (era : Era) (b : Baseline) (a : Category) :
        (a.tickAdvancement era s b).name = a.name := by
      unfold Category.tickAdvancement
      split <;> rfl
    rw [tick_advancements, List.map_map]
    simpa only [Function.comp_def, hname] using ih

namespace StageContext

variable {ctx : StageContext}

section Reach

variable {stages : List Stage} {i : Nat} {stage : Stage}

/-- Of the stages up to the first one that is not complete, exactly those before it are complete. -/
theorem lt_reach_iff (hstage : stages[i]? = some stage) (hi : i ≤ ctx.reach stages) :
    i < ctx.reach stages ↔ ctx.isComplete stage = true := by
  obtain ⟨hlt, rfl⟩ := List.getElem?_eq_some_iff.mp hstage
  constructor
  · intro hbefore
    simpa using List.not_of_lt_findIdx hbefore
  · intro hcomplete
    refine Nat.lt_of_le_of_ne hi fun heq => ?_
    have hstop : (!ctx.isComplete stages[i]) = true := by
      subst heq
      exact List.findIdx_getElem (w := hlt)
    rw [hcomplete] at hstop
    cases hstop

end Reach

end StageContext

section Tick

variable {version : Version} {now : Instant} {s : Sources} {c : Checklist} {state : SavedState}

/-- A tick that reads the statistics counts each criterion from their document. -/
theorem progress_of_tick {doc : Value} (hdoc : s.readStatistics version.era = some doc)
    {group : Category} (hgroup : group ∈ (tick version now s c state).checklist.statistics)
    {item : Item} (hitem : item ∈ group.criteria) {address : Address}
    (haddress : item.address = some address) :
    item.progress =
      version.era.progress doc address (state.baseline.renewed version now s c) := by
  rw [tick_statistics] at hgroup
  obtain ⟨old, -, rfl⟩ := List.mem_map.mp hgroup
  simp only [Category.tickStatistic, hdoc] at hitem
  obtain ⟨before, -, rfl⟩ := List.mem_map.mp hitem
  have hbefore : before.address = some address := haddress
  simp only [Category.updateCriterion, hbefore, Option.map_some, Option.getD_some]

/-- A tick that reads the achievements marks each criterion as their document lists it. -/
theorem criterion_of_tick {doc : Value} (hdoc : s.readAchievements version.era = some doc)
    (hera : version.era ≠ .legacy) {a : Category}
    (ha : a ∈ (tick version now s c state).checklist.advancements) {item : Item}
    (hitem : item ∈ a.criteria) :
    item.done = version.era.criterionPresent doc a.name item.name := by
  rw [tick_advancements] at ha
  obtain ⟨old, -, rfl⟩ := List.mem_map.mp ha
  simp only [Category.tickAdvancement, hdoc] at hitem ⊢
  obtain ⟨before, -, rfl⟩ := List.mem_map.mp hitem
  cases hlegacy : version.era with
  | legacy => exact absurd hlegacy hera
  | _ => rfl

/-- A tick that reads the unlocks marks each of them as their document lists it. -/
theorem unlock_of_tick {doc : Value} (hdoc : s.unlocks = some doc) {u : Item}
    (hu : u ∈ (tick version now s c state).checklist.unlocks) : u.done = isObtained doc u.name := by
  rw [tick_unlocks] at hu
  obtain ⟨old, -, rfl⟩ := List.mem_map.mp hu
  simp only [Item.tickUnlock, hdoc]
  rfl

/-- With all documents at hand, a stage is complete exactly if the section that shows the same says so. -/
theorem agrees_of_tick (hera : version.era.isKnown = true) (hfull : s.IsFull version.era)
    (hc : c.Reached) (stage : Stage) :
    let ctx := StageContext.ofTick version now s c state
    (ctx.counted stage).requirement.Agrees version.era (tick version now s c state).checklist
      (ctx.isComplete stage = true) := by
  intro ctx
  obtain ⟨achievements, statistics, unlocks, ha, hs, hu⟩ : ∃ achievements statistics unlocks,
      ctx.achievements = some achievements ∧ ctx.statistics = some statistics ∧
        ctx.sources.unlocks = some unlocks := StageContext.documents_of_isFull hera hfull
  obtain ⟨id, text, requirement⟩ := stage
  cases requirement with
  | manual => trivial
  | advancement name =>
    simp only [StageContext.counted, StageContext.isComplete, StageContext.evaluate, ha,
      StageStatus.ofBool_beq_complete, StageContext.observed, Requirement.Agrees]
    rintro a hmem rfl
    have hnodup := (Checklist.Reached.tick version now s state hc).nodup_advancements
    have hfind : ctx.advancements.find? (·.name == a.name) = some a :=
      find?_name_of_nodup hnodup hmem
    rw [StageContext.isAdvancementDone, hfind]
  | statistic address required current =>
    simp only [StageContext.counted, StageContext.isComplete, StageContext.evaluate, hs,
      StageStatus.ofBool_beq_complete, StageContext.observed, Stage.observe, Requirement.Agrees,
      decide_eq_true_eq]
    intro group hgroup item hitem haddress
    rw [progress_of_tick hs hgroup hitem haddress]
    exact ⟨rfl, Iff.rfl⟩
  | unlock name =>
    simp only [StageContext.counted, StageContext.isComplete, StageContext.evaluate, hu,
      StageStatus.ofBool_beq_complete, StageContext.observed, Requirement.Agrees]
    rintro u hmem rfl
    rw [unlock_of_tick hu hmem]
  | criterion parent name =>
    simp only [StageContext.counted, StageContext.isComplete, StageContext.evaluate, ha,
      StageStatus.ofBool_beq_complete, StageContext.observed, Requirement.Agrees]
    rintro hlegacy a hmem rfl item hitem rfl
    rw [criterion_of_tick ha hlegacy hmem hitem]
    exact Iff.rfl

end Tick

/-- **Stages agree with the sections.** After a tick of a known era with all documents at hand, take a stage
of a goal up to the one that the goal stands at. A statistic that a criterion shows too has been counted the
same, and the goal has passed it exactly if that count is what the stage requires, whatever the overrides. The
goal has passed an advancement, an unlock or, in all but the oldest era, a criterion that the checklist has
exactly if it is done there. -/
theorem stages_agree_with_sections (version : Version) (hera : version.era.isKnown = true)
    (now : Instant) (s : Sources) (hfull : s.IsFull version.era) (state : SavedState) {c : Checklist}
    (hc : c.Reached) :
    let after := (tick version now s c state).checklist
    ∀ goal ∈ after.goals, ∀ (i : Nat) (stage : Stage), goal.stages[i]? = some stage →
      i ≤ goal.current → stage.requirement.Agrees version.era after (i < goal.current) := by
  intro after goal hgoal i stage hstage hi
  obtain ⟨old, -, rfl⟩ := List.mem_map.mp (tick_goals version now s c state ▸ hgoal)
  have hgoal := (StageContext.ofTick version now s c state).updateGoal_of_isFull hera hfull old
  rw [hgoal] at hstage hi ⊢
  obtain ⟨before, hbefore, rfl⟩ := StageContext.getElem?_shown hstage hi
  rw [StageContext.lt_reach_iff hbefore hi]
  exact agrees_of_tick hera hfull hc before

/-- The override of the statistic is set, but the goal waits for its count. -/
theorem stages_agree_with_sections_despite_override :
    let text := "\x7b\"stats\":\x7b\"walk\":\x7b\"target\":9\x7d\x7d,\"multi_stage_goals\":" ++
      "[\x7b\"root_name\":\"trip\",\"stages\":" ++
      "[\x7b\"type\":\"stat\",\"root_name\":\"walk\",\"target\":9\x7d]\x7d]\x7d"
    let version : Version := ⟨"1.12.2"⟩
    let now : Instant := ⟨⟨2018, 3, 1, by decide⟩, 0, 0, by decide⟩
    let s : Sources := ⟨none, some (.object []), some (.object [("walk", .number (.whole 4))]),
      some (.object [])⟩
    let state := SavedState.empty.setOverride "walk" true
    let trip (seen : Counter) : StagedGoal :=
      ⟨"trip", "trip", [⟨"stage_0", "stage_0", .statistic ⟨"walk"⟩ 9 seen⟩, Template.finalStage], 0,
        false⟩
    let c : Checklist :=
      { Checklist.empty with
        statistics := [.ofStatistic "walk" "walk" ⟨"walk"⟩ 9 false]
        goals := [trip 0] }
    let after := (tick version now s c state).checklist
    Template.read text ∅ = .ok c ∧ version.era.isKnown = true ∧ s.IsFull version.era ∧
      after.goals = [trip 4] ∧ after.statistics.map (·.done) = [true] ∧
      (Requirement.statistic ⟨"walk"⟩ 9 4).Agrees version.era after (0 < 0) := by
  intro text version now s state trip c after
  have hread : Template.read text ∅ = .ok c := by decide +kernel
  have hfull : s.IsFull version.era := ⟨by decide, rfl, rfl⟩
  have hgoals : after.goals = [trip 4] := by decide
  have hgoal : trip 4 ∈ after.goals := hgoals ▸ List.mem_singleton_self _
  have hagrees := stages_agree_with_sections version (by decide) now s hfull state (.read hread)
    (trip 4) hgoal 0 _ rfl (Nat.le_refl 0)
  exact ⟨hread, by decide, hfull, hgoals, by decide, hagrees⟩

end Milestone
