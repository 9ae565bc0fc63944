import Milestone.Proofs.Tick.Entries
import Milestone.Proofs.Tick.Scan

/-!
# Skipped passes

A report lists the kinds of documents whose passes did not run. The passes decide this for themselves, and so
does the scan of the stages of a goal, each by the era and the documents. This file proves that all of them
decide alike: what the report lists has not run and has left its section alone, what it does not list has
run, and a scan is given up exactly where it comes to a stage whose kind the report lists.
-/

namespace Milestone

open Json

/-- The kind of document that shows whether a requirement is met. -/
def Requirement.source? : Requirement → Option SourceKind
  | .advancement _ | .criterion _ _ => some .advancements
  | .statistic _ _ _ => some .statistics
  | .unlock _ => some .unlocks
  | .manual => none

/-- The pass for a kind of document runs in a tick: it finds the document, and brings the entries of every
checklist up to date with it. -/
def Sources.RunsPass (s : Sources) (version : Version) (now : Instant) : SourceKind → Prop
  | .advancements =>
    ∃ doc, s.achievements version.era = some doc ∧ ∀ (c : Checklist) (state : SavedState),
      let after := tick version now s c state
      after.checklist.advancements =
        c.advancements.map (·.updateAdvancement version.era doc after.checklist.baseline)
  | .statistics =>
    ∃ doc, s.statistics = some doc ∧ ∀ (c : Checklist) (state : SavedState),
      let after := tick version now s c state
      after.checklist.statistics =
          c.statistics.map (·.updateStatistic version.era doc after.checklist.baseline after.state) ∧
        after.checklist.playTime = version.playTime doc after.checklist.baseline
  | .unlocks =>
    ∃ doc, s.unlocks = some doc ∧ ∀ (c : Checklist) (state : SavedState),
      (tick version now s c state).checklist.unlocks = c.unlocks.map (·.updateUnlock doc)

/-- The scan of some stages comes to one that needs a document of the given kinds, past stages that are
neither incomplete nor mark the end. -/
def StageContext.Needs (ctx : StageContext) (kinds : List SourceKind) (stages : List Stage) : Prop :=
  ∃ passed stage rest, stages = passed ++ stage :: rest ∧
    (∃ kind ∈ kinds, stage.requirement.source? = some kind) ∧
    ∀ earlier ∈ passed, earlier.isManual = false ∧
      (ctx.evaluate earlier.requirement).1 ≠ .incomplete

namespace Sources

section Missing

variable (s : Sources) (era : Era)

/-- Advancements are missing exactly if they are not read. -/
theorem mem_missing_advancements :
    .advancements ∈ s.missing era ↔ s.readAchievements era = .none := by
  unfold missing readAchievements
  cases era.isKnown <;> simp

/-- Statistics are missing exactly if they are not read. -/
theorem mem_missing_statistics : .statistics ∈ s.missing era ↔ s.readStatistics era = .none := by
  unfold missing readStatistics
  cases era.isKnown <;> simp

/-- Unlocks are missing exactly if their document is. -/
theorem mem_missing_unlocks : .unlocks ∈ s.missing era ↔ s.unlocks = .none := by
  unfold missing
  simp

end Missing

section Runs

variable {s : Sources} {version : Version} {now : Instant}

/-- A document that is read is the one at hand. -/
theorem achievements_of_read {era : Era} {doc : Value} (h : s.readAchievements era = some doc) :
    s.achievements era = some doc := by
  unfold readAchievements at h
  split at h
  · exact h
  · cases h

/-- Statistics that are read are at hand. -/
theorem statistics_of_read {era : Era} {doc : Value} (h : s.readStatistics era = some doc) :
    s.statistics = some doc := by
  unfold readStatistics at h
  split at h
  · exact h
  · cases h

/-- The advancements pass runs exactly if a document is read. An advancement without criteria that counts one
as done shows the difference, since no pass leaves it so. -/
theorem runsPass_advancements_iff :
    s.RunsPass version now .advancements ↔ s.readAchievements version.era ≠ .none := by
  constructor
  · rintro ⟨doc, -, hruns⟩ hunread
    have hleft := hruns
      { Checklist.empty with advancements := [{ Category.new "" "" [] with completed := 1 }] } .empty
    simp only [tick_advancements_of_unread hunread] at hleft
    cases hleft
  · intro hread
    obtain ⟨doc, hdoc⟩ := Option.ne_none_iff_exists'.mp hread
    refine ⟨doc, achievements_of_read hdoc, fun c state => ?_⟩
    simp only [tick_advancements, Category.tickAdvancement, hdoc, tick_baseline]

/-- So does the statistics pass. -/
theorem runsPass_statistics_iff :
    s.RunsPass version now .statistics ↔ s.readStatistics version.era ≠ .none := by
  constructor
  · rintro ⟨doc, -, hruns⟩ hunread
    have hleft := (hruns
      { Checklist.empty with statistics := [{ Category.new "" "" [] with completed := 1 }] } .empty).1
    simp only [tick_statistics_of_unread hunread] at hleft
    cases hleft
  · intro hread
    obtain ⟨doc, hdoc⟩ := Option.ne_none_iff_exists'.mp hread
    refine ⟨doc, statistics_of_read hdoc, fun c state => ⟨?_, ?_⟩⟩
    · simp only [tick_statistics version now s c state, Category.tickStatistic, hdoc, tick_baseline]
    · simp only [tick_playTime, Version.tickPlayTime, hdoc, tick_baseline]

/-- And the unlocks pass; no pass leaves an unlock with progress 2. -/
theorem runsPass_unlocks_iff : s.RunsPass version now .unlocks ↔ s.unlocks ≠ .none := by
  constructor
  · rintro ⟨doc, hdoc, -⟩ hnone
    rw [hnone] at hdoc
    cases hdoc
  · intro hread
    obtain ⟨doc, hdoc⟩ := Option.ne_none_iff_exists'.mp hread
    refine ⟨doc, hdoc, fun c state => ?_⟩
    simp only [tick_unlocks, Item.tickUnlock, hdoc]

end Runs

/-- The report lists a kind of document exactly if its pass does not run. -/
theorem mem_missing_iff (s : Sources) (version : Version) (now : Instant) (kind : SourceKind) :
    kind ∈ s.missing version.era ↔ ¬s.RunsPass version now kind := by
  cases kind with
  | advancements => rw [mem_missing_advancements, runsPass_advancements_iff, Decidable.not_not]
  | statistics => rw [mem_missing_statistics, runsPass_statistics_iff, Decidable.not_not]
  | unlocks => rw [mem_missing_unlocks, runsPass_unlocks_iff, Decidable.not_not]

end Sources

namespace StageContext

variable {ctx : StageContext}

/-- A stage is unavailable exactly if it needs a kind of document that the report lists. -/
theorem evaluate_unavailable_iff (requirement : Requirement) :
    (ctx.evaluate requirement).1 = .unavailable ↔
      ∃ kind ∈ ctx.sources.missing ctx.era, requirement.source? = some kind := by
  have hfind (kind : SourceKind) :
      (∃ k ∈ ctx.sources.missing ctx.era, some kind = some k) ↔ kind ∈ ctx.sources.missing ctx.era := by
    simp
  cases requirement with
  | manual => simp [evaluate, Requirement.source?]
  | advancement name =>
    rw [Requirement.source?, hfind, Sources.mem_missing_advancements]
    change _ ↔ ctx.achievements = none
    cases hdoc : ctx.achievements <;> simp [evaluate, hdoc, StageStatus.ofBool_ne_unavailable]
  | statistic address required current =>
    rw [Requirement.source?, hfind, Sources.mem_missing_statistics]
    change _ ↔ ctx.statistics = none
    cases hdoc : ctx.statistics <;> simp [evaluate, hdoc, StageStatus.ofBool_ne_unavailable]
  | unlock name =>
    rw [Requirement.source?, hfind, Sources.mem_missing_unlocks]
    cases hdoc : ctx.sources.unlocks <;> simp [evaluate, hdoc, StageStatus.ofBool_ne_unavailable]
  | criterion parent name =>
    rw [Requirement.source?, hfind, Sources.mem_missing_advancements]
    change _ ↔ ctx.achievements = none
    cases hdoc : ctx.achievements <;> simp [evaluate, hdoc, StageStatus.ofBool_ne_unavailable]

section Needs

variable {kinds : List SourceKind} {stage : Stage} {rest : List Stage}

/-- A scan needs a document at its first stage, or past it. -/
theorem needs_cons_iff :
    ctx.Needs kinds (stage :: rest) ↔
      (∃ kind ∈ kinds, stage.requirement.source? = some kind) ∨
        (stage.isManual = false ∧ (ctx.evaluate stage.requirement).1 ≠ .incomplete ∧
          ctx.Needs kinds rest) := by
  constructor
  · rintro ⟨passed, needy, later, hsplit, hkind, hpassed⟩
    cases passed with
    | nil =>
      obtain ⟨rfl, rfl⟩ := List.cons.inj hsplit
      exact .inl hkind
    | cons first others =>
      obtain ⟨rfl, rfl⟩ := List.cons.inj hsplit
      obtain ⟨hfirst, hothers⟩ := List.forall_mem_cons.mp hpassed
      exact .inr ⟨hfirst.1, hfirst.2, others, needy, later, rfl, hkind, hothers⟩
  · rintro (hkind | ⟨hmanual, hstatus, passed, needy, later, rfl, hkind, hpassed⟩)
    · exact ⟨[], stage, rest, rfl, hkind, fun _ h => absurd h List.not_mem_nil⟩
    · exact ⟨stage :: passed, needy, later, rfl, hkind,
        List.forall_mem_cons.mpr ⟨⟨hmanual, hstatus⟩, hpassed⟩⟩

end Needs

/-- A scan is given up exactly if it needs a document that the report lists. -/
theorem scan_eq_none_iff (stages : List Stage) :
    ctx.scan stages = none ↔ ctx.Needs (ctx.sources.missing ctx.era) stages := by
  induction stages with
  | nil =>
    refine iff_of_false nofun ?_
    rintro ⟨passed, stage, rest, hsplit, -⟩
    cases passed <;> cases hsplit
  | cons stage rest ih =>
    rw [needs_cons_iff, ← ih, ← evaluate_unavailable_iff, scan]
    split
    rename_i status seen heval
    have hstatus : (ctx.evaluate stage.requirement).1 = status := by rw [heval]
    rw [hstatus]
    cases status with
    | complete =>
      have hmanual : stage.isManual = false := isManual_of_complete (by rw [isComplete, hstatus]; rfl)
      simp [hmanual]
    | incomplete => simp
    | unavailable => simp
    | terminal =>
      have hmanual : stage.isManual = true := by
        rw [Stage.isManual, eq_manual_of_terminal hstatus]
      simp [hmanual]

/-- Such a scan leaves its goal as it was. -/
theorem updateGoal_of_needs {goal : StagedGoal}
    (h : ctx.Needs (ctx.sources.missing ctx.era) goal.stages) : ctx.updateGoal goal = goal := by
  rw [updateGoal, (scan_eq_none_iff goal.stages).mpr h]

/-- Any other scan brings its goal up to date as a whole. -/
theorem updateGoal_of_not_needs {goal : StagedGoal}
    (h : ¬ctx.Needs (ctx.sources.missing ctx.era) goal.stages) :
    ctx.updateGoal goal =
      { goal with stages := ctx.shown goal.stages, current := ctx.reach goal.stages } :=
  updateGoal_of_scan (mt (scan_eq_none_iff goal.stages).mp h)

end StageContext

/-- **What is skipped is reported and left alone.** For every version, checklist, state and sources, the report
of a tick lists a kind of document exactly if the pass for it does not run. The tick leaves all of what belongs
to a listed kind as it was: the advancements, the groups of statistics with the play time, or the unlocks. A
goal whose scan comes to a stage that needs a listed kind, past stages that are neither incomplete nor mark the
end, is left as it was too, with the counts of all its stages. Every other goal comes to stand at its first
stage that is not complete, and shows what was counted up to there. -/
theorem skipped_passes_left_alone (version : Version) (now : Instant) (s : Sources) (c : Checklist)
    (state : SavedState) :
    let t := tick version now s c state
    let ctx := StageContext.ofTick version now s c state
    (∀ kind, kind ∈ t.report.skipped ↔ ¬s.RunsPass version now kind) ∧
      (.advancements ∈ t.report.skipped → t.checklist.advancements = c.advancements) ∧
      (.statistics ∈ t.report.skipped →
        t.checklist.statistics = c.statistics ∧ t.checklist.playTime = c.playTime) ∧
      (.unlocks ∈ t.report.skipped → t.checklist.unlocks = c.unlocks) ∧
      ∀ (i : Nat) (goal : StagedGoal), c.goals[i]? = some goal →
        (ctx.Needs t.report.skipped goal.stages → t.checklist.goals[i]? = some goal) ∧
        (¬ctx.Needs t.report.skipped goal.stages → t.checklist.goals[i]? =
          some { goal with stages := ctx.shown goal.stages, current := ctx.reach goal.stages }) := by
  intro t ctx
  have hskipped : t.report.skipped = s.missing version.era := by rw [tick_report_eq]
  rw [hskipped]
  refine ⟨s.mem_missing_iff version now, fun h => ?_, fun h => ?_, fun h => ?_, fun i goal hgoal => ?_⟩
  · exact tick_advancements_of_unread ((s.mem_missing_advancements version.era).mp h)
  · have hunread := (s.mem_missing_statistics version.era).mp h
    exact ⟨tick_statistics_of_unread hunread, tick_playTime_of_unread hunread⟩
  · exact tick_unlocks_of_unread ((s.mem_missing_unlocks version.era).mp h)
  · have hafter : t.checklist.goals[i]? = some (ctx.updateGoal goal) := by
      rw [tick_goals, List.getElem?_map, hgoal]
      rfl
    rw [hafter]
    exact ⟨fun h => congrArg some (StageContext.updateGoal_of_needs h),
      fun h => congrArg some (StageContext.updateGoal_of_not_needs h)⟩

/-- The scan counts the walk of the first stage, but the second one needs the achievements, which are absent. So
the goal keeps its stage and the count that it had, while the group of statistics is brought up to date. -/
theorem skipped_passes_left_alone_midway :
    let version : Version := ⟨"1.12.2"⟩
    let now : Instant := ⟨⟨2018, 3, 1, by decide⟩, 0, 0, by decide⟩
    let trip : StagedGoal :=
      { name := "trip"
        displayName := "Trip"
        stages :=
          [⟨"walk", "Walk", .statistic ⟨"stat.walkOneCm"⟩ 5 3⟩,
            ⟨"nether", "Nether", .advancement "minecraft:story/enter_the_nether"⟩,
            ⟨"done", "Done", .manual⟩]
        current := 1
        hidden := false }
    let c : Checklist :=
      { Checklist.empty with
        statistics := [.ofStatistic "walk" "Walk" ⟨"stat.walkOneCm"⟩ 5 false]
        goals := [trip] }
    let s : Sources := ⟨none, none, some (.object [("stat.walkOneCm", .number (.whole 8))]), none⟩
    let t := tick version now s c .empty
    t.report.skipped = [.advancements, .unlocks] ∧ s.RunsPass version now .statistics ∧
      t.checklist.statistics.map (·.done) = [true] ∧ t.checklist.goals[0]? = some trip := by
  intro version now trip c s t
  have hskipped : t.report.skipped = [.advancements, .unlocks] := by decide
  obtain ⟨hruns, -, -, -, hgoals⟩ := skipped_passes_left_alone version now s c .empty
  have hneeds : (StageContext.ofTick version now s c .empty).Needs t.report.skipped trip.stages := by
    refine ⟨[trip.stages[0]], trip.stages[1], [trip.stages[2]], rfl, ⟨.advancements, ?_, rfl⟩, ?_⟩
    · rw [hskipped]
      decide
    · exact List.forall_mem_singleton.mpr ⟨rfl, by decide⟩
  have hstatistics : s.RunsPass version now .statistics := by
    refine Classical.byContradiction fun hnot => ?_
    have hlisted : SourceKind.statistics ∈ t.report.skipped := (hruns .statistics).mpr hnot
    rw [hskipped] at hlisted
    revert hlisted
    decide
  exact ⟨hskipped, hstatistics, by decide, (hgoals 0 trip rfl).1 hneeds⟩

end Milestone
