import Milestone.Proofs.Tick.Detect

/-!
# What a tick does to the entries

A tick treats every advancement, group of statistics, unlock, custom goal and staged goal on its own. This
file names what happens to a single entry and writes the checklist after a tick field by field, so that
later arguments never follow the order of the passes.
-/

namespace Milestone

open Json

namespace Sources

/-- The achievements document that a tick reads; an era that is not known reads none. -/
def readAchievements (s : Sources) (era : Era) : Option Value :=
  if era.isKnown then s.achievements era else .none

/-- The statistics document that a tick reads; an era that is not known reads none. -/
def readStatistics (s : Sources) (era : Era) : Option Value :=
  if era.isKnown then s.statistics else .none

end Sources

namespace Category

/-- An advancement after a tick. -/
def tickAdvancement (era : Era) (s : Sources) (b : Baseline) (c : Category) : Category :=
  match s.readAchievements era with
  | some doc => c.updateAdvancement era doc b
  | none => c

/-- A group of statistics after a tick. -/
def tickStatistic (era : Era) (s : Sources) (b : Baseline) (state : SavedState) (c : Category) :
    Category :=
  match s.readStatistics era with
  | some doc => c.updateStatistic era doc b state
  | none => c

end Category

/-- An unlock after a tick. -/
def Item.tickUnlock (s : Sources) (item : Item) : Item :=
  match s.unlocks with
  | some doc => item.updateUnlock doc
  | none => item

/-- The play time after a tick. -/
def Version.tickPlayTime (version : Version) (s : Sources) (b : Baseline) (before : Counter) :
    Counter :=
  match s.readStatistics version.era with
  | some doc => version.playTime doc b
  | none => before

namespace Checklist

variable (c : Checklist) (version : Version) (s : Sources) (state : SavedState)

/-- The pass over advancements treats each of them as a tick does. -/
theorem passAdvancements_eq (era : Era) :
    c.passAdvancements era s =
      { c with advancements := c.advancements.map (·.tickAdvancement era s c.baseline) } := by
  unfold passAdvancements Category.tickAdvancement Sources.readAchievements
  cases s.achievements era <;> cases era.isKnown <;> simp

/-- The pass over statistics treats each group as a tick does, and counts the play time. -/
theorem passStatistics_eq :
    c.passStatistics version s state =
      { c with
        statistics := c.statistics.map (·.tickStatistic version.era s c.baseline state)
        playTime := version.tickPlayTime s c.baseline c.playTime } := by
  unfold passStatistics Category.tickStatistic Version.tickPlayTime Sources.readStatistics
  cases s.statistics <;> cases version.era.isKnown <;> simp

/-- The pass over unlocks treats each of them as a tick does. -/
theorem passUnlocks_eq :
    c.passUnlocks s = { c with unlocks := c.unlocks.map (·.tickUnlock s) } := by
  unfold passUnlocks Item.tickUnlock
  cases s.unlocks <;> simp

/-- The entries after all passes, each from the same entry before. -/
def afterPasses : Checklist :=
  let advancements := c.advancements.map (·.tickAdvancement version.era s c.baseline)
  { c with
    advancements := advancements
    statistics := c.statistics.map (·.tickStatistic version.era s c.baseline state)
    playTime := version.tickPlayTime s c.baseline c.playTime
    unlocks := c.unlocks.map (·.tickUnlock s)
    custom := c.custom.map (·.updateCustom state)
    goals := c.goals.map (StageContext.mk version.era advancements s c.baseline).updateGoal }

/-- All passes and the count treat every entry on its own. -/
theorem update_eq :
    c.update version s state = (c.afterPasses version s state).recompute version.era := by
  simp only [update, passAdvancements_eq, passStatistics_eq, passUnlocks_eq]
  rfl

end Checklist

/-- The manual progress in a saved state. -/
def SavedState.manual (s : SavedState) : Keyed Bool × Keyed CustomValue :=
  (s.overrides, s.custom)

/-- Whether a tick reports something that clears the manual progress. -/
def Report.clearsManual (r : Report) : Bool :=
  r.worldChanged || r.baselineCaptured

section Fields

variable (version : Version) (now : Instant) (s : Sources) (c : Checklist) (state : SavedState)

/-- The checklist from which the passes of a tick start. -/
def Checklist.detected : Checklist :=
  { c with
    world := s.world.or c.world
    baseline := state.baseline.renewed version now s c }

/-- The state that a tick leaves, and with which its passes run. -/
theorem tick_state :
    (tick version now s c state).state =
      { overrides := if s.clearsProgress version c state.baseline then ∅ else state.overrides
        custom := if s.clearsProgress version c state.baseline then ∅ else state.custom
        baseline := state.baseline.renewed version now s c
        world := if s.entersWorld c then s.world else state.world } := by
  simp only [tick, Tracked.detect_start]

/-- The checklist that a tick leaves. -/
theorem tick_checklist :
    (tick version now s c state).checklist =
      ((c.detected version now s state).afterPasses version s
        (tick version now s c state).state).recompute version.era := by
  simp only [tick, Tracked.detect_start, Checklist.update_eq, Checklist.detected]

/-- What it counts is up to date. -/
theorem recompute_tick :
    (tick version now s c state).checklist.recompute version.era =
      (tick version now s c state).checklist := by
  rw [tick_checklist]
  rfl

/-- A tick calls for a save if it enters a world or captures a baseline. -/
@[simp] theorem tick_dirty :
    (tick version now s c state).dirty =
      (s.entersWorld c || s.capturesBaseline version state.baseline) := by
  simp only [tick, Tracked.detect_start]

/-- A tick reports a change of world if it enters one after another. -/
@[simp] theorem tick_worldChanged :
    (tick version now s c state).report.worldChanged = s.changesWorld c := by
  simp only [tick, Tracked.detect_start]

/-- A tick reports a capture if it makes one. -/
@[simp] theorem tick_baselineCaptured :
    (tick version now s c state).report.baselineCaptured =
      s.capturesBaseline version state.baseline := by
  simp only [tick, Tracked.detect_start]

/-- The report of a tick, before anything is saved. -/
theorem tick_report_eq :
    (tick version now s c state).report =
      { era := version.era
        world := s.world
        worldChanged := s.changesWorld c
        baselineCaptured := s.capturesBaseline version state.baseline
        unsaved := false
        skipped := s.missing version.era
        percentage := (tick version now s c state).checklist.percentage } := by
  simp only [tick, Tracked.detect_start]

/-- The baseline that a tick leaves is the one before, unless it captures another. -/
@[simp] theorem tick_state_baseline :
    (tick version now s c state).state.baseline = state.baseline.renewed version now s c := by
  rw [tick_state]

/-- The checklist knows the world of the tick, or else the one before. -/
@[simp] theorem tick_world :
    (tick version now s c state).checklist.world = s.world.or c.world := by
  rw [tick_checklist]; rfl

/-- The checklist has the baseline of the saved state. -/
@[simp] theorem tick_baseline :
    (tick version now s c state).checklist.baseline = state.baseline.renewed version now s c := by
  rw [tick_checklist]; rfl

/-- The advancements that a tick leaves. -/
theorem tick_advancements :
    (tick version now s c state).checklist.advancements =
      c.advancements.map
        (·.tickAdvancement version.era s (state.baseline.renewed version now s c)) := by
  rw [tick_checklist]; rfl

/-- The groups of statistics that a tick leaves, marked by the overrides that it leaves. -/
theorem tick_statistics :
    (tick version now s c state).checklist.statistics =
      c.statistics.map (·.tickStatistic version.era s (state.baseline.renewed version now s c)
        (tick version now s c state).state) := by
  rw [tick_checklist]; rfl

/-- The play time that a tick leaves. -/
theorem tick_playTime :
    (tick version now s c state).checklist.playTime =
      version.tickPlayTime s (state.baseline.renewed version now s c) c.playTime := by
  rw [tick_checklist]; rfl

/-- The unlocks that a tick leaves. -/
theorem tick_unlocks :
    (tick version now s c state).checklist.unlocks = c.unlocks.map (·.tickUnlock s) := by
  rw [tick_checklist]; rfl

/-- The custom goals that a tick leaves, from the values that it leaves. -/
theorem tick_custom :
    (tick version now s c state).checklist.custom =
      c.custom.map (·.updateCustom (tick version now s c state).state) := by
  rw [tick_checklist]; rfl

/-- What a tick evaluates the stages of goals against: the advancements that it leaves, and the documents. -/
def StageContext.ofTick : StageContext where
  era := version.era
  advancements := (tick version now s c state).checklist.advancements
  sources := s
  baseline := state.baseline.renewed version now s c

/-- The staged goals that a tick leaves. -/
theorem tick_goals :
    (tick version now s c state).checklist.goals =
      c.goals.map (StageContext.ofTick version now s c state).updateGoal := by
  simp only [StageContext.ofTick, tick_checklist]; rfl

/-- A tick that calls for no save keeps the state. -/
theorem tick_state_of_clean (h : (tick version now s c state).dirty = false) :
    (tick version now s c state).state = state := by
  rw [tick_dirty, Bool.or_eq_false_iff] at h
  obtain ⟨henters, hcap⟩ := h
  rw [tick_state]
  simp only [Sources.clearsProgress, Sources.changesWorld, henters, hcap, Bool.false_and,
    Bool.or_false, Bool.false_eq_true, if_false, Baseline.renewed_of_not_captures hcap]

/-- A tick clears the manual progress if it reports so, and else keeps it. -/
theorem tick_manual :
    (tick version now s c state).state.manual =
      if (tick version now s c state).report.clearsManual then (∅, ∅) else state.manual := by
  rw [Report.clearsManual, tick_worldChanged, tick_baselineCaptured, SavedState.manual, tick_state]
  cases h : s.clearsProgress version c state.baseline <;>
    rw [Sources.clearsProgress] at h <;> rw [h] <;> rfl

/-- A tick that neither changes the world nor captures a baseline keeps the manual progress. -/
theorem tick_manual_of_kept (hworld : (tick version now s c state).report.worldChanged = false)
    (hcap : (tick version now s c state).report.baselineCaptured = false) :
    (tick version now s c state).state.overrides = state.overrides ∧
      (tick version now s c state).state.custom = state.custom := by
  have hkept := tick_manual version now s c state
  rw [Report.clearsManual, hworld, hcap] at hkept
  exact Prod.mk.inj hkept

end Fields

section Unread

variable {version : Version} {now : Instant} {s : Sources} {c : Checklist} {state : SavedState}

/-- A tick that reads no achievements leaves the advancements alone. -/
theorem tick_advancements_of_unread (h : s.readAchievements version.era = none) :
    (tick version now s c state).checklist.advancements = c.advancements := by
  rw [tick_advancements]
  simp only [Category.tickAdvancement, h, List.map_id']

/-- A tick that reads no statistics leaves their groups alone. -/
theorem tick_statistics_of_unread (h : s.readStatistics version.era = none) :
    (tick version now s c state).checklist.statistics = c.statistics := by
  rw [tick_statistics]
  simp only [Category.tickStatistic, h, List.map_id']

/-- A tick that reads no statistics leaves the play time alone. -/
theorem tick_playTime_of_unread (h : s.readStatistics version.era = none) :
    (tick version now s c state).checklist.playTime = c.playTime := by
  rw [tick_playTime, Version.tickPlayTime, h]

/-- A tick that reads no unlocks leaves them alone. -/
theorem tick_unlocks_of_unread (h : s.unlocks = none) :
    (tick version now s c state).checklist.unlocks = c.unlocks := by
  rw [tick_unlocks]
  simp only [Item.tickUnlock, h, List.map_id']

end Unread

end Milestone
