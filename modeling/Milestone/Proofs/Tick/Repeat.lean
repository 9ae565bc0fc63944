import Milestone.Proofs.Checklist.Bare
import Milestone.Proofs.Session.Settle

/-!
# Repeated ticks

A tick on sources that show nothing new changes nothing. This covers a tick on the very same sources, and
one on what is left of them when any of the world, the advancements, the statistics and the unlocks are
withheld. The argument is made for each kind of entry: a pass that runs again finds what it wrote, and a
pass whose document is withheld leaves what it wrote.
-/

namespace Milestone

open Json

/-- Sources that show nothing but what other sources show. -/
structure Sources.IsPart (p s : Sources) : Prop where
  world : p.world = .none ∨ p.world = s.world
  advancements : p.advancements = .none ∨ p.advancements = s.advancements
  statistics : p.statistics = .none ∨ p.statistics = s.statistics
  unlocks : p.unlocks = .none ∨ p.unlocks = s.unlocks

namespace Sources

variable {p s : Sources}

/-- Withheld sources show no achievements or the same. -/
theorem IsPart.achievements (h : p.IsPart s) (era : Era) :
    p.achievements era = .none ∨ p.achievements era = s.achievements era := by
  unfold Sources.achievements
  split
  · exact h.statistics
  · exact h.advancements

/-- A part of some sources has no achievements, or the same. -/
theorem IsPart.readAchievements (h : p.IsPart s) (era : Era) :
    p.readAchievements era = .none ∨ p.readAchievements era = s.readAchievements era := by
  unfold Sources.readAchievements
  split
  · exact h.achievements era
  · exact .inl rfl

/-- A part of some sources has no statistics, or the same. -/
theorem IsPart.readStatistics (h : p.IsPart s) (era : Era) :
    p.readStatistics era = .none ∨ p.readStatistics era = s.readStatistics era := by
  unfold Sources.readStatistics
  split
  · exact h.statistics
  · exact .inl rfl

end Sources

section Entries

variable {p s : Sources} (h : p.IsPart s) (era : Era) (b : Baseline) (state : SavedState)

/-- The same document marks an advancement as it is marked already. -/
theorem Category.updateAdvancement_updateAdvancement (doc : Value) (c : Category) :
    (c.updateAdvancement era doc b).updateAdvancement era doc b =
      c.updateAdvancement era doc b := by
  rw [← updateAdvancement_bareAdvancement, bareAdvancement_updateAdvancement,
    updateAdvancement_bareAdvancement]

/-- The same document and overrides mark a group of statistics as it is marked already. -/
theorem Category.updateStatistic_updateStatistic (doc : Value) (c : Category) :
    (c.updateStatistic era doc b state).updateStatistic era doc b state =
      c.updateStatistic era doc b state := by
  rw [← updateStatistic_bareStatistic, bareStatistic_updateStatistic,
    updateStatistic_bareStatistic]

include h

/-- A second tick on such a part changes nothing of an advancement. -/
theorem Category.tickAdvancement_of_isPart (c : Category) :
    (c.tickAdvancement era s b).tickAdvancement era p b = c.tickAdvancement era s b := by
  unfold tickAdvancement
  rcases h.readAchievements era with hn | hs
  · rw [hn]
  · rw [hs]
    cases s.readAchievements era with
    | none => rfl
    | some doc => exact updateAdvancement_updateAdvancement era b doc c

/-- The same for a group of statistics. -/
theorem Category.tickStatistic_of_isPart (c : Category) :
    (c.tickStatistic era s b state).tickStatistic era p b state =
      c.tickStatistic era s b state := by
  unfold tickStatistic
  rcases h.readStatistics era with hn | hs
  · rw [hn]
  · rw [hs]
    cases s.readStatistics era with
    | none => rfl
    | some doc => exact updateStatistic_updateStatistic era b state doc c

/-- The same for an unlock. -/
theorem Item.tickUnlock_of_isPart (item : Item) :
    (item.tickUnlock s).tickUnlock p = item.tickUnlock s := by
  unfold tickUnlock
  rcases h.unlocks with hn | hs
  · rw [hn]
  · rw [hs]
    cases s.unlocks <;> rfl

/-- The same for the play time. -/
theorem Version.tickPlayTime_of_isPart (version : Version) (before : Counter) :
    version.tickPlayTime p b (version.tickPlayTime s b before) =
      version.tickPlayTime s b before := by
  unfold tickPlayTime
  rcases h.readStatistics version.era with hn | hs
  · rw [hn]
  · rw [hs]
    cases s.readStatistics version.era <;> rfl

end Entries

/-- The same recorded value sets a custom goal as it is set already. -/
theorem Item.updateCustom_updateCustom (state : SavedState) (item : Item) :
    (item.updateCustom state).updateCustom state = item.updateCustom state := rfl

namespace StageContext

variable {ctx : StageContext} {p : Sources}

/-- With sources withheld, the status of a stage is unavailable or the same. -/
theorem evaluate_of_isPart (h : p.IsPart ctx.sources) (requirement : Requirement) :
    (({ ctx with sources := p }).evaluate requirement = (.unavailable, none)) ∨
      ({ ctx with sources := p }).evaluate requirement = ctx.evaluate requirement := by
  have hach : ({ ctx with sources := p }).achievements = none ∨
      ({ ctx with sources := p }).achievements = ctx.achievements := h.readAchievements ctx.era
  have hstat : ({ ctx with sources := p }).statistics = none ∨
      ({ ctx with sources := p }).statistics = ctx.statistics := h.readStatistics ctx.era
  cases requirement with
  | manual => exact .inr rfl
  | advancement name =>
    rcases hach with hn | hs
    · exact .inl (by simp only [evaluate, hn])
    · exact .inr (by simp only [evaluate, hs, isAdvancementDone])
  | statistic address required current =>
    rcases hstat with hn | hs
    · exact .inl (by simp only [evaluate, hn])
    · exact .inr (by simp only [evaluate, hs])
  | unlock name =>
    rcases h.unlocks with hn | hs
    · exact .inl (by simp only [evaluate, hn])
    · exact .inr (by simp only [evaluate, hs])
  | criterion parent name =>
    rcases hach with hn | hs
    · exact .inl (by simp only [evaluate, hn])
    · exact .inr (by simp only [evaluate, hs])

/-- With sources withheld, a scan is given up or shows the same. -/
theorem scan_of_isPart (h : p.IsPart ctx.sources) (stages : List Stage) :
    ({ ctx with sources := p }).scan stages = none ∨
      ({ ctx with sources := p }).scan stages = ctx.scan stages := by
  induction stages with
  | nil => exact .inr rfl
  | cons stage rest ih =>
    rcases evaluate_of_isPart h stage.requirement with hn | hs
    · exact .inl (by simp only [scan, hn])
    · simp only [scan, hs]
      cases (ctx.evaluate stage.requirement).1 with
      | complete =>
        rcases ih with hr | hr
        · exact .inl (by simp only [hr, Option.map_none])
        · exact .inr (by simp only [hr])
      | incomplete => exact .inr rfl
      | terminal => exact .inr rfl
      | unavailable => exact .inl rfl

/-- A scan of scanned stages shows what it showed before. -/
theorem scan_scanned {stages scanned : List Stage} {reached : Nat}
    (h : ctx.scan stages = some (reached, scanned)) :
    ctx.scan scanned = some (reached, scanned) := by
  induction stages generalizing reached scanned with
  | nil =>
    cases h
    rfl
  | cons stage rest ih =>
    rw [scan] at h
    split at h
    rename_i status seen heval
    cases status with
    | complete =>
      obtain ⟨⟨n, later⟩, hrest, heq⟩ := Option.map_eq_some_iff.mp h
      cases heq
      simp only [scan, evaluate_observed, heval, observed_observed, ih hrest, Option.map_some]
    | incomplete =>
      cases h
      simp only [scan, evaluate_observed, heval, observed_observed]
    | terminal =>
      cases h
      simp only [scan, heval]
    | unavailable => cases h

/-- A goal that was brought up to date stays as it is, also with sources withheld. -/
theorem updateGoal_of_isPart (ctx : StageContext) (h : p.IsPart ctx.sources) (goal : StagedGoal) :
    ({ ctx with sources := p }).updateGoal (ctx.updateGoal goal) = ctx.updateGoal goal := by
  cases hscan : ctx.scan goal.stages with
  | none =>
    have hsame : ctx.updateGoal goal = goal := by simp only [updateGoal, hscan]
    rw [hsame]
    rcases scan_of_isPart h goal.stages with hp | hp
    · simp only [updateGoal, hp]
    · simp only [updateGoal, hp, hscan]
  | some result =>
    obtain ⟨reached, scanned⟩ := result
    have hagain := scan_scanned hscan
    simp only [updateGoal, hscan]
    rcases scan_of_isPart h scanned with hp | hp
    · simp only [hp]
    · simp only [hp, hagain]

end StageContext

namespace Checklist

variable {p s : Sources}

/-- Passes on withheld sources find every entry as the passes on the sources left it. -/
theorem afterPasses_of_isPart (h : p.IsPart s) (version : Version) (state : SavedState)
    (c : Checklist) :
    (c.afterPasses version s state).afterPasses version p state =
      c.afterPasses version s state := by
  have hadv : (c.advancements.map (·.tickAdvancement version.era s c.baseline)).map
      (·.tickAdvancement version.era p c.baseline) =
        c.advancements.map (·.tickAdvancement version.era s c.baseline) := by
    simp only [List.map_map, Function.comp_def, Category.tickAdvancement_of_isPart h]
  have hstat : (c.statistics.map (·.tickStatistic version.era s c.baseline state)).map
      (·.tickStatistic version.era p c.baseline state) =
        c.statistics.map (·.tickStatistic version.era s c.baseline state) := by
    simp only [List.map_map, Function.comp_def, Category.tickStatistic_of_isPart h]
  have hunl : (c.unlocks.map (·.tickUnlock s)).map (·.tickUnlock p) =
      c.unlocks.map (·.tickUnlock s) := by
    simp only [List.map_map, Function.comp_def, Item.tickUnlock_of_isPart h]
  have hcus : (c.custom.map (·.updateCustom state)).map (·.updateCustom state) =
      c.custom.map (·.updateCustom state) := by
    simp only [List.map_map, Function.comp_def, Item.updateCustom_updateCustom]
  have hgoal (advancements : List Category) :
      (c.goals.map (StageContext.mk version.era advancements s c.baseline).updateGoal).map
        (StageContext.mk version.era advancements p c.baseline).updateGoal =
          c.goals.map (StageContext.mk version.era advancements s c.baseline).updateGoal := by
    rw [List.map_map]
    exact List.map_congr_left fun goal _ =>
      StageContext.updateGoal_of_isPart ⟨version.era, advancements, s, c.baseline⟩ h goal
  simp only [afterPasses, hadv, hstat, hunl, hcus, hgoal, Version.tickPlayTime_of_isPart h]

/-- Counting first makes no difference to what the passes leave. -/
theorem afterPasses_recompute (c : Checklist) (era : Era) (version : Version) (state : SavedState)
    (hsame : c.afterPasses version p state = c) :
    ((c.recompute era).afterPasses version p state).recompute era = c.recompute era := by
  have hpasses : (c.recompute era).afterPasses version p state = c.recompute era := by
    calc (c.recompute era).afterPasses version p state
        = { c.afterPasses version p state with
            counts := (c.recompute era).counts
            totalSteps := (c.recompute era).totalSteps
            completedSteps := (c.recompute era).completedSteps
            percentage := (c.recompute era).percentage } := rfl
      _ = c.recompute era := by rw [hsame]; rfl
  rw [hpasses]
  rfl

end Checklist

section Detection

variable {p s : Sources} (version : Version) (now later : Instant) (c : Checklist)
  (state : SavedState)

/-- After a tick its world is known, so nothing that is left of its sources shows another one. -/
theorem entersWorld_of_isPart (h : p.IsPart s) :
    p.entersWorld (tick version now s c state).checklist = false := by
  rcases h.world with hn | hs
  · simp only [Sources.entersWorld, hn, Option.any_none]
  · cases hw : s.world <;> simp [Sources.entersWorld, hs, hw]

/-- After a tick its world has a baseline or its counters are missing, so nothing that is left of its
sources leads to a capture. -/
theorem capturesBaseline_of_isPart (h : p.IsPart s) :
    p.capturesBaseline version (tick version now s c state).state.baseline = false := by
  rw [tick_state_baseline, ← Bool.not_eq_true]
  intro hcap
  obtain ⟨world, doc, hw, hd, -⟩ := Baseline.renewed_of_captures hcap now c
  have hera : version.era = .legacy := by
    simp only [Sources.capturesBaseline, Bool.and_eq_true, beq_iff_eq] at hcap
    exact hcap.1.1
  have hws : s.world = some world := by
    rcases h.world with hn | hs
    · rw [hn] at hw; cases hw
    · rw [← hs, hw]
  have hds : s.statistics = some doc := by
    rcases h.statistics with hn | hs
    · rw [hn] at hd; cases hd
    · rw [← hs, hd]
  have hworld := Baseline.renewed_world (b := state.baseline) hera hws hds now c
  simp [Sources.capturesBaseline, Baseline.isNeededFor, hw, hworld] at hcap

/-- A tick on what is left of the sources of the tick before calls for no save. -/
theorem tick_dirty_of_isPart (h : p.IsPart s) :
    (tick version later p (tick version now s c state).checklist
      (tick version now s c state).state).dirty = false := by
  have henters := entersWorld_of_isPart version now c state h
  have hcap := capturesBaseline_of_isPart version now c state h
  rw [tick_dirty, henters, hcap, Bool.or_false]

/-- So it keeps the state. -/
theorem tick_state_of_isPart (h : p.IsPart s) :
    (tick version later p (tick version now s c state).checklist
      (tick version now s c state).state).state = (tick version now s c state).state :=
  tick_state_of_clean _ _ _ _ _ (tick_dirty_of_isPart version now later c state h)

/-- A tick on what is left of the sources of the tick before starts its passes from the checklist that
this one left. -/
theorem detected_of_isPart (h : p.IsPart s) :
    (tick version now s c state).checklist.detected version later p
      (tick version now s c state).state = (tick version now s c state).checklist := by
  have hcap := capturesBaseline_of_isPart version now c state h
  have hworld : p.world.or (tick version now s c state).checklist.world =
      (tick version now s c state).checklist.world := by
    rw [tick_world]
    rcases h.world with hn | hs
    · rw [hn, Option.none_or]
    · rw [hs]
      cases s.world <;> rfl
  have hbase : (tick version now s c state).state.baseline =
      (tick version now s c state).checklist.baseline := by
    rw [tick_state_baseline, tick_baseline]
  unfold Checklist.detected
  rw [Baseline.renewed_of_not_captures hcap, hworld, hbase]

/-- A tick on what is left of the sources of the tick before keeps the checklist. -/
theorem tick_checklist_of_isPart (h : p.IsPart s) :
    (tick version later p (tick version now s c state).checklist
      (tick version now s c state).state).checklist = (tick version now s c state).checklist := by
  rw [tick_checklist, detected_of_isPart version now later c state h,
    tick_state_of_isPart version now later c state h, tick_checklist version now s c state]
  exact Checklist.afterPasses_recompute _ _ _ _ (Checklist.afterPasses_of_isPart h ..)

end Detection

/-- **Repeated ticks change nothing.** After a tick on any sources, a tick on the same sources, or on what
is left of them when any of the world and the documents are withheld, keeps the whole checklist and the
whole state, at whatever time it comes. It reports neither a change of world nor a capture, and whatever
the store, it saves nothing and reports nothing unsaved. -/
theorem tick_idle_of_isPart (version : Version) (now later : Instant) (s p : Sources) (c : Checklist)
    (state : SavedState) (h : p.IsPart s) :
    let first := tick version now s c state
    let second := tick version later p first.checklist first.state
    second.checklist = first.checklist ∧ second.state = first.state ∧
      second.report.worldChanged = false ∧ second.report.baselineCaptured = false ∧
      ∀ {σ : Type} (store : Store σ) (session : Session) (x : σ),
        (session.settle store second x).1.2.unsaved = false ∧
          (session.settle store second x).2 = x := by
  have henters := entersWorld_of_isPart version now c state h
  have hcap := capturesBaseline_of_isPart version now c state h
  refine ⟨tick_checklist_of_isPart version now later c state h,
    tick_state_of_isPart version now later c state h, ?_, ?_, ?_⟩
  · rw [tick_worldChanged, Sources.changesWorld, henters, Bool.false_and]
  · rw [tick_baselineCaptured, hcap]
  · intro σ store session x
    rw [Session.settle_of_clean store session x (tick_dirty_of_isPart version now later c state h)]
    exact ⟨rfl, rfl⟩

/-- The first tick captures a baseline, the second has lost the counters. -/
theorem tick_idle_after_capture :
    let s : Sources :=
      ⟨some "Overworld", none, some (.object [("1100", .number (.whole 72000))]), none⟩
    let p : Sources := { s with statistics := none }
    let first := tick ⟨"1.6.4"⟩ ⟨⟨2013, 7, 1, by decide⟩, 0, 0, by decide⟩ s .empty .empty
    let second :=
      tick ⟨"1.6.4"⟩ ⟨⟨2013, 7, 2, by decide⟩, 0, 0, by decide⟩ p first.checklist first.state
    first.report.baselineCaptured = true ∧ p.IsPart s ∧ second.checklist = first.checklist ∧
      second.state = first.state := by
  refine ⟨by decide, ⟨.inr rfl, .inl rfl, .inl rfl, .inl rfl⟩, ?_⟩
  have h := tick_idle_of_isPart ⟨"1.6.4"⟩ ⟨⟨2013, 7, 1, by decide⟩, 0, 0, by decide⟩
    ⟨⟨2013, 7, 2, by decide⟩, 0, 0, by decide⟩
    ⟨some "Overworld", none, some (.object [("1100", .number (.whole 72000))]), none⟩
    ⟨some "Overworld", none, none, none⟩ .empty .empty
    ⟨.inr rfl, .inl rfl, .inl rfl, .inl rfl⟩
  exact ⟨h.1, h.2.1⟩

end Milestone
