import Milestone.Proofs.Checklist.Bare
import Milestone.Proofs.Session.Tries

/-!
# Ticks with all documents

A tick of a known era that finds all its documents writes every mark of progress anew. So what it leaves
depends on the entries without their progress, and of what was recorded before only on the world that was
seen last. The one exception are the counts shown for stages that no scan comes to.

From this follow two facts on pairs of runs. After such a tick it does not matter how a checklist was
reached. If the tick enters another world, it does not even matter which manual progress was saved.
-/

namespace Milestone

open Json

/-- A goal without the counts of the stages after the one that it stands at. -/
def StagedGoal.withoutLater (goal : StagedGoal) : StagedGoal :=
  { goal with
    stages := goal.stages.mapIdx fun i stage => if goal.current < i then stage.bare else stage }

/-- A checklist whose goals do not have the counts of the stages after those that they stand at. -/
def Checklist.withoutLater (c : Checklist) : Checklist :=
  { c with goals := c.goals.map (·.withoutLater) }

/-- Lists that agree in the part of each item that a function reads have the same values. -/
theorem map_eq_of_forgets {α β : Type} {f : α → β} {bare : α → α}
    (hforgets : ∀ x, f (bare x) = f x) {xs ys : List α} (h : xs.map bare = ys.map bare) :
    xs.map f = ys.map f := by
  have hmap (zs : List α) : (zs.map bare).map f = zs.map f := by
    rw [List.map_map]
    exact List.map_congr_left fun z _ => hforgets z
  calc xs.map f = (xs.map bare).map f := (hmap xs).symm
    _ = (ys.map bare).map f := by rw [h]
    _ = ys.map f := hmap ys

section Entries

variable {era : Era} {s : Sources} (hera : era.isKnown = true) (hfull : s.IsFull era)
  (b : Baseline) (state : SavedState)

include hera hfull

/-- With all documents at hand a tick reads the achievements. -/
theorem Sources.IsFull.readAchievements : ∃ doc, s.readAchievements era = some doc := by
  rw [Sources.readAchievements, if_pos hera]
  exact Option.isSome_iff_exists.mp hfull.achievements

/-- With all documents at hand a tick reads the statistics. -/
theorem Sources.IsFull.readStatistics : ∃ doc, s.readStatistics era = some doc := by
  rw [Sources.readStatistics, if_pos hera]
  exact Option.isSome_iff_exists.mp hfull.statistics

/-- Then what was recorded for an advancement does not matter. -/
theorem Category.tickAdvancement_bareAdvancement (c : Category) :
    c.bareAdvancement.tickAdvancement era s b = c.tickAdvancement era s b := by
  obtain ⟨doc, hdoc⟩ := hfull.readAchievements hera
  simp only [tickAdvancement, hdoc, updateAdvancement_bareAdvancement]

/-- The same for a group of statistics. -/
theorem Category.tickStatistic_bareStatistic (c : Category) :
    c.bareStatistic.tickStatistic era s b state = c.tickStatistic era s b state := by
  obtain ⟨doc, hdoc⟩ := hfull.readStatistics hera
  simp only [tickStatistic, hdoc, updateStatistic_bareStatistic]

omit hera in
/-- The same for an unlock. -/
theorem Item.tickUnlock_bareUnlock (item : Item) :
    item.bareUnlock.tickUnlock s = item.tickUnlock s := by
  obtain ⟨doc, hdoc⟩ := Option.isSome_iff_exists.mp hfull.unlocks
  simp only [tickUnlock, hdoc, updateUnlock_bareUnlock]

/-- Nor does the play time before. -/
theorem Version.tickPlayTime_of_isFull {version : Version} (hversion : version.era = era)
    (before other : Counter) :
    version.tickPlayTime s b before = version.tickPlayTime s b other := by
  obtain ⟨doc, hdoc⟩ := hfull.readStatistics hera
  simp only [tickPlayTime, hversion, hdoc]

end Entries

section Goals

variable (ctx : StageContext) (hera : ctx.era.isKnown = true) (hfull : ctx.sources.IsFull ctx.era)

include hera hfull

namespace StageContext

/-- With all documents at hand a goal stands at its first stage that is not complete. -/
theorem updateGoal_of_isFull (goal : StagedGoal) :
    ctx.updateGoal goal =
      { goal with stages := ctx.shown goal.stages, current := ctx.reach goal.stages } := by
  rw [updateGoal, scan_of_isFull hera hfull]

/-- The counts after that stage are those that were seen before; all others are new. -/
theorem withoutLater_updateGoal_bare (goal : StagedGoal) :
    (ctx.updateGoal goal.bare).withoutLater = (ctx.updateGoal goal).withoutLater := by
  rw [updateGoal_of_isFull ctx hera hfull, updateGoal_of_isFull ctx hera hfull]
  simp only [StagedGoal.bare, StagedGoal.withoutLater, reach_map_bare, StagedGoal.mk.injEq,
    true_and, and_true]
  refine List.ext_getElem? fun i => ?_
  simp only [shown, reach_map_bare, List.getElem?_mapIdx, List.getElem?_map, Option.map_map]
  refine Option.map_congr fun stage _ => ?_
  simp only [Function.comp_apply]
  by_cases hi : i ≤ ctx.reach goal.stages
  · simp only [if_pos hi, if_neg (Nat.not_lt.mpr hi), counted_bare hera hfull]
  · simp only [if_neg hi, if_pos (Nat.not_le.mp hi), bare_bare]

end StageContext

end Goals

namespace StagedGoal

variable (goal : StagedGoal)

/-- A goal stays hidden or shown. -/
@[simp] theorem hidden_withoutLater : goal.withoutLater.hidden = goal.hidden :=
  rfl

/-- The steps of a goal depend on no count of its later stages. -/
@[simp] theorem goalSteps_withoutLater : goal.withoutLater.goalSteps = goal.goalSteps := by
  simp only [goalSteps, steps, withoutLater, List.length_mapIdx]

/-- Nor does whether it is complete. -/
@[simp] theorem isComplete_withoutLater : goal.withoutLater.isComplete = goal.isComplete := by
  have hempty : goal.withoutLater.stages.isEmpty = goal.stages.isEmpty := by
    rw [Bool.eq_iff_iff, List.isEmpty_iff_length_eq_zero, List.isEmpty_iff_length_eq_zero,
      withoutLater, List.length_mapIdx]
  have hsteps : goal.withoutLater.steps = goal.steps := by
    rw [steps, withoutLater, List.length_mapIdx, steps]
  rw [isComplete, hempty, hsteps]
  rfl

end StagedGoal

namespace Checklist

/-- The counts of later stages count for nothing. -/
theorem withoutLater_recompute (c : Checklist) (era : Era) :
    (c.recompute era).withoutLater = c.withoutLater.recompute era := by
  simp [withoutLater, recompute, overall, entrySteps, sectionCounts, countedStatistics,
    Function.comp_def]

/-- The goals after all passes, apart from the counts of later stages. -/
theorem goals_withoutLater_afterPasses (c : Checklist) (version : Version) (s : Sources)
    (state : SavedState) :
    (c.afterPasses version s state).withoutLater.goals = c.goals.map fun goal =>
      (StageContext.updateGoal ⟨version.era, (c.afterPasses version s state).advancements, s,
        c.baseline⟩ goal).withoutLater :=
  List.map_map

/-- What is counted depends on the entries, and nothing that was counted before is left. -/
theorem recompute_congr {c d : Checklist} (hadvancements : c.advancements = d.advancements)
    (hstatistics : c.statistics = d.statistics) (hunlocks : c.unlocks = d.unlocks)
    (hcustom : c.custom = d.custom) (hgoals : c.goals = d.goals) (hbaseline : c.baseline = d.baseline)
    (hworld : c.world = d.world) (hplayTime : c.playTime = d.playTime) (era : Era) :
    c.recompute era = d.recompute era := by
  obtain ⟨ca, cs, cu, cc, cg, _, cb, cw, cp, _, _, _⟩ := c
  cases hadvancements
  cases hstatistics
  cases hunlocks
  cases hcustom
  cases hgoals
  cases hbaseline
  cases hworld
  cases hplayTime
  rfl

end Checklist

section Pair

variable {c d : Checklist} (hbare : c.bare = d.bare)

include hbare

/-- A baseline takes nothing from the progress of a checklist. -/
theorem Baseline.renewed_of_bare_eq (b : Baseline) (version : Version) (now : Instant) (s : Sources) :
    b.renewed version now s c = b.renewed version now s d := by
  have hname (a : Category) : a.bareAdvancement.name = a.name := rfl
  exact renewed_congr (map_eq_of_forgets hname (congrArg (·.advancements) hbare)) b version now s

/-- Passes with all documents forget all but the entries without their progress and what was found out
before them. -/
theorem Checklist.afterPasses_of_bare_eq {version : Version} {s : Sources}
    (hera : version.era.isKnown = true) (hfull : s.IsFull version.era)
    (hbaseline : c.baseline = d.baseline) (hworld : c.world = d.world) (state : SavedState) :
    ((c.afterPasses version s state).recompute version.era).withoutLater =
      ((d.afterPasses version s state).recompute version.era).withoutLater := by
  have hadvancements : (c.afterPasses version s state).advancements =
      (d.afterPasses version s state).advancements := by
    simp only [afterPasses, hbaseline]
    exact map_eq_of_forgets (Category.tickAdvancement_bareAdvancement hera hfull d.baseline)
      (congrArg (·.advancements) hbare)
  have hgoals : (c.afterPasses version s state).withoutLater.goals =
      (d.afterPasses version s state).withoutLater.goals := by
    rw [goals_withoutLater_afterPasses, goals_withoutLater_afterPasses, hadvancements, hbaseline]
    exact map_eq_of_forgets (StageContext.withoutLater_updateGoal_bare _ hera hfull)
      (congrArg (·.goals) hbare)
  rw [withoutLater_recompute, withoutLater_recompute]
  apply recompute_congr
  · exact hadvancements
  · simp only [withoutLater, afterPasses, hbaseline]
    exact map_eq_of_forgets (Category.tickStatistic_bareStatistic hera hfull d.baseline state)
      (congrArg (·.statistics) hbare)
  · exact map_eq_of_forgets (Item.tickUnlock_bareUnlock hfull) (congrArg (·.unlocks) hbare)
  · exact map_eq_of_forgets (Item.updateCustom_bare state) (congrArg (·.custom) hbare)
  · exact hgoals
  · exact hbaseline
  · exact hworld
  · simp only [withoutLater, afterPasses, hbaseline]
    exact Version.tickPlayTime_of_isFull hera hfull d.baseline rfl c.playTime d.playTime

/-- A tick with all documents that leaves the same state leaves the same checklist, apart from the counts of
later stages. -/
theorem tick_withoutLater_of_bare_eq {version : Version} {now : Instant} {s : Sources}
    (hera : version.era.isKnown = true) (hfull : s.IsFull version.era) (hworld : c.world = d.world)
    {a b : SavedState} (hstate : (tick version now s c a).state = (tick version now s d b).state) :
    (tick version now s c a).checklist.withoutLater =
      (tick version now s d b).checklist.withoutLater := by
  have hbaseline : (c.detected version now s a).baseline = (d.detected version now s b).baseline := by
    have hkept := congrArg (·.baseline) hstate
    simp only [tick_state_baseline] at hkept
    exact hkept
  have hseen : (c.detected version now s a).world = (d.detected version now s b).world :=
    congrArg s.world.or hworld
  have hsame : (c.detected version now s a).bare = (d.detected version now s b).bare := hbare
  rw [tick_checklist, tick_checklist, hstate]
  exact Checklist.afterPasses_of_bare_eq hsame hera hfull hbaseline hseen _

/-- Then, if both count from the same baseline before, it calls for the same saves and reports the same. -/
theorem tick_report_of_bare_eq {version : Version} {now : Instant} {s : Sources}
    (hera : version.era.isKnown = true) (hfull : s.IsFull version.era) (hworld : c.world = d.world)
    {a b : SavedState} (hbaseline : a.baseline = b.baseline)
    (hstate : (tick version now s c a).state = (tick version now s d b).state) :
    (tick version now s c a).dirty = (tick version now s d b).dirty ∧
      (tick version now s c a).report = (tick version now s d b).report := by
  have hpercentage : (tick version now s c a).checklist.percentage =
      (tick version now s d b).checklist.percentage :=
    congrArg (·.percentage) (tick_withoutLater_of_bare_eq hbare hera hfull hworld hstate)
  constructor
  · rw [tick_dirty, tick_dirty, s.entersWorld_congr hworld, hbaseline]
  · rw [tick_report_eq, tick_report_eq, hpercentage, hbaseline, s.changesWorld_congr hworld]

end Pair

/-- After a tick with all documents every goal stands at its first stage that is not complete. -/
theorem tick_goals_reach {version : Version} (hera : version.era.isKnown = true) (now : Instant)
    {s : Sources} (hfull : s.IsFull version.era) (c : Checklist) (state : SavedState) :
    let after := (tick version now s c state).checklist
    ∀ goal ∈ after.goals, goal.current =
      StageContext.reach ⟨version.era, after.advancements, s, after.baseline⟩ goal.stages := by
  intro after goal hgoal
  let ctx : StageContext := ⟨version.era, after.advancements, s, after.baseline⟩
  have hgoals : after.goals = c.goals.map ctx.updateGoal := by
    simp only [ctx, after, tick_checklist]
    rfl
  rw [hgoals] at hgoal
  obtain ⟨old, -, rfl⟩ := List.mem_map.mp hgoal
  rw [StageContext.updateGoal_of_isFull ctx hera hfull]
  exact (ctx.reach_shown old.stages).symm

/-- **A tick with all documents forgets the past.** Let two checklists be reached from the same one, by any
runs, and let the same world be seen last in both. In a known era, a tick on both at the same time, with the
same saved state and the same sources, leaves the same state and reports the same if all documents of the
era are there, and any store is given the same. It leaves the same checklists too, apart from the counts
shown for the stages of a goal after the one that it stands at, which is its first stage that is not
complete. -/
theorem tick_forgets_progress (version : Version) (hera : version.era.isKnown = true) (now : Instant)
    (s : Sources) (hfull : s.IsFull version.era) (state : SavedState) {origin c d : Checklist}
    (hc : origin.ReachedFrom c) (hd : origin.ReachedFrom d) (hworld : c.world = d.world) :
    let t := tick version now s c state
    let u := tick version now s d state
    t.report = u.report ∧ t.state = u.state ∧
      t.checklist.withoutLater = u.checklist.withoutLater ∧
      (∀ goal ∈ t.checklist.goals, goal.current =
        StageContext.reach ⟨version.era, t.checklist.advancements, s, t.checklist.baseline⟩
          goal.stages) ∧
      ∀ {σ : Type} (store : Store σ) (session : Session) (x : σ),
        (session.settle store t x).1.2 = (session.settle store u x).1.2 ∧
          (session.settle store t x).2 = (session.settle store u x).2 := by
  intro t u
  have hbare : c.bare = d.bare := hc.bare_eq.trans hd.bare_eq.symm
  have hstate : t.state = u.state := by
    simp only [t, u]
    rw [tick_state, tick_state, s.clearsProgress_congr hworld, s.entersWorld_congr hworld,
      Baseline.renewed_of_bare_eq hbare]
  obtain ⟨hdirty, hreport⟩ := tick_report_of_bare_eq hbare hera hfull hworld rfl hstate
  refine ⟨hreport, hstate, tick_withoutLater_of_bare_eq hbare hera hfull hworld hstate,
    tick_goals_reach hera now hfull c state, fun store session x => ?_⟩
  exact Session.settle_congr store session x hdirty hstate hreport

/-- In the first run the second stage was reached before, so that its count stays; the second run has only
taken over the world. -/
theorem tick_forgets_progress_after_setback :
    let version : Version := ⟨"1.8"⟩
    let now : Instant := ⟨⟨2014, 9, 2, by decide⟩, 0, 0, by decide⟩
    let walk : StagedGoal :=
      { name := "walk"
        displayName := "Walk"
        stages :=
          [⟨"far", "Far", .statistic ⟨"stat.walkOneCm"⟩ 5 0⟩,
            ⟨"high", "High", .statistic ⟨"stat.jump"⟩ 9 0⟩, ⟨"done", "Done", .manual⟩]
        current := 0
        hidden := false }
    let origin : Checklist := { Checklist.empty with goals := [walk] }
    let sources (walked : Int) : Sources :=
      ⟨some "A", none, some (.object [("stat.walkOneCm", .number (.whole walked)),
        ("stat.jump", .number (.whole 4))]), some (.object [])⟩
    let c := (tick version now (sources 7) origin .empty).checklist
    let d := Session.seed .mid { SavedState.empty with world := some "A" } origin
    let t := tick version now (sources 2) c .empty
    let u := tick version now (sources 2) d .empty
    (version.era.isKnown = true ∧ (sources 2).IsFull version.era ∧ c.world = d.world) ∧
      t.report = u.report ∧ t.checklist.withoutLater = u.checklist.withoutLater ∧
      t.checklist ≠ u.checklist := by
  intro version now walk origin sources c d t u
  have hfull : (sources 2).IsFull version.era := ⟨by decide, rfl, rfl⟩
  have hc : origin.ReachedFrom c := .tick _ _ _ _ .refl
  have hd : origin.ReachedFrom d := .seed _ _ .refl
  obtain ⟨hreport, -, hchecklist, -⟩ :=
    tick_forgets_progress version (by decide) now (sources 2) hfull .empty hc hd (by decide)
  exact ⟨⟨by decide, hfull, by decide⟩, hreport, hchecklist, by decide⟩

/-- **Nothing of the manual progress in one world reaches another.** Let two checklists be reached from the
same one, by any runs, and let the same world be seen last in both. Let two saved states have the same
baseline, and any overrides and custom values. In a known era, a tick at the same time with the
same sources, which show another world and all documents of the era, leaves the same state from both, and
hands that state to any store, once. It leaves the same checklists too, apart from the counts shown for the
stages of a goal after the one that it stands at, which is its first stage that is not complete. -/
theorem tick_forgets_manual (version : Version) (hera : version.era.isKnown = true) (now : Instant)
    (s : Sources) (hfull : s.IsFull version.era) {origin c d : Checklist} (hc : origin.ReachedFrom c)
    (hd : origin.ReachedFrom d) {before world : String} (hcw : c.world = some before)
    (hdw : d.world = some before) (hworld : s.world = some world) (hne : world ≠ before)
    {a b : SavedState} (hbaseline : a.baseline = b.baseline) :
    let t := tick version now s c a
    let u := tick version now s d b
    t.state = u.state ∧
      (∀ {σ : Type} (store : Store σ) (session : Session) (x : σ),
        (session.settle store.recorded t (x, [])).2.2 = [t.state] ∧
          (session.settle store.recorded u (x, [])).2.2 = [t.state]) ∧
      t.checklist.withoutLater = u.checklist.withoutLater ∧
      ∀ goal ∈ t.checklist.goals, goal.current =
        StageContext.reach ⟨version.era, t.checklist.advancements, s, t.checklist.baseline⟩
          goal.stages := by
  intro t u
  have hbare : c.bare = d.bare := hc.bare_eq.trans hd.bare_eq.symm
  have hlast : c.world = d.world := hcw.trans hdw.symm
  have henters : s.entersWorld c = true := by
    simp only [Sources.entersWorld, hworld, hcw, Option.any_some, bne_iff_ne, ne_eq,
      Option.some.injEq]
    exact hne.symm
  have hchanges : s.changesWorld c = true := by
    rw [Sources.changesWorld, henters, hcw]
    rfl
  have hstate : t.state = u.state := by
    simp only [t, u, tick_state, Sources.clearsProgress, ← s.changesWorld_congr hlast,
      ← s.entersWorld_congr hlast, hchanges, henters, Bool.true_or, if_true, hbaseline,
      Baseline.renewed_of_bare_eq hbare]
  obtain ⟨hdirty, -⟩ := tick_report_of_bare_eq hbare hera hfull hlast hbaseline hstate
  have ht : t.dirty = true := by rw [tick_dirty, henters, Bool.true_or]
  refine ⟨hstate, fun store session x => ?_,
    tick_withoutLater_of_bare_eq hbare hera hfull hlast hstate, tick_goals_reach hera now hfull c a⟩
  have hnoted (v : Tick) (hv : v.dirty = true) :
      (session.settle store.recorded v (x, [])).2.2 = [v.state] := by
    rw [Store.recorded, Session.settle_noting, hv]
    rfl
  exact ⟨hnoted t ht, (hnoted u (hdirty ▸ ht)).trans (by rw [hstate])⟩

/-- One player has set an override and the other a custom value, both in the world that is left. The tick
captures the baseline of the new one. -/
theorem tick_forgets_manual_of_two_players :
    let version : Version := ⟨"1.6.4"⟩
    let now : Instant := ⟨⟨2013, 7, 1, by decide⟩, 0, 0, by decide⟩
    let origin : Checklist :=
      { Checklist.empty with
        statistics := [.ofStatistic "jumps" "Jumps" ⟨"2010"⟩ 10 false]
        custom := [Item.new "flag" "Flag"] }
    let start : SavedState :=
      { SavedState.empty with
        baseline := { Baseline.empty with world := some "A" }
        world := some "A" }
    let a := start.setOverride "jumps" true
    let b := start.setCustom "flag" (.flag true)
    let old : Sources :=
      ⟨some "A", none, some (.object [("2010", .number (.whole 3))]), some (.object [])⟩
    let new : Sources :=
      ⟨some "B", none, some (.object [("2010", .number (.whole 8))]), some (.object [])⟩
    let c := (tick version now old origin a).checklist
    let d := (tick version now old origin b).checklist
    let t := tick version now new c a
    let u := tick version now new d b
    (new.IsFull version.era ∧ c.world = some "A" ∧ d.world = some "A" ∧ a ≠ b ∧
      c.statistics ≠ d.statistics) ∧ t.state = u.state ∧
        t.checklist.withoutLater = u.checklist.withoutLater ∧
        t.report.baselineCaptured = true ∧ t.state.custom = ∅ := by
  intro version now origin start a b old new c d t u
  have hfull : new.IsFull version.era := ⟨by decide, rfl, rfl⟩
  have hc : origin.ReachedFrom c := .tick _ _ _ _ .refl
  have hd : origin.ReachedFrom d := .tick _ _ _ _ .refl
  obtain ⟨hstate, -, hchecklist, -⟩ := tick_forgets_manual version (by decide) now new hfull hc hd
    (show c.world = some "A" by decide) (by decide) rfl (show "B" ≠ "A" by decide)
    (show a.baseline = b.baseline from rfl)
  exact ⟨⟨hfull, by decide, by decide, by decide, by decide⟩, hstate, hchecklist, by decide,
    by decide⟩

end Milestone
