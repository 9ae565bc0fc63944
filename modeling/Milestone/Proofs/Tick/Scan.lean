import Milestone.Pass.Stages

/-!
# What a scan shows

A scan of the stages of a goal comes to the first one that is not complete, and shows the counts of the
stages up to there. This file writes its outcome in closed form, so that arguments about goals need no
induction on their stages. The counts that were seen before do not matter for what it shows.
-/

namespace Milestone

/-- The documents that the passes of an era read are all there. -/
structure Sources.IsFull (s : Sources) (era : Era) : Prop where
  achievements : (s.achievements era).isSome = true
  statistics : s.statistics.isSome = true
  unlocks : s.unlocks.isSome = true

/-- A stage without the count that was seen. -/
def Stage.bare (stage : Stage) : Stage :=
  stage.observe 0

namespace StageStatus

/-- An answer of yes or no never ends a scan for good. -/
theorem ofBool_ne_terminal (b : Bool) : ofBool b ≠ terminal := by
  cases b <;> decide

/-- An answer of yes or no is never missing. -/
theorem ofBool_ne_unavailable (b : Bool) : ofBool b ≠ unavailable := by
  cases b <;> decide

/-- A stage is complete if the answer is yes. -/
theorem ofBool_beq_complete (b : Bool) : (ofBool b == complete) = b := by
  cases b <;> rfl

end StageStatus

namespace StageContext

section Observed

variable (ctx : StageContext) (stage : Stage) (seen : Option Counter)

/-- The count that was seen does not matter for the status of a stage. -/
theorem evaluate_observed :
    ctx.evaluate (observed stage seen).requirement = ctx.evaluate stage.requirement := by
  obtain ⟨id, text, requirement⟩ := stage
  cases seen <;> cases requirement <;> rfl

/-- Seeing the same count again changes nothing. -/
theorem observed_observed : observed (observed stage seen) seen = observed stage seen := by
  obtain ⟨id, text, requirement⟩ := stage
  cases seen <;> cases requirement <;> rfl

/-- A count that was seen does not change what kind of stage it is. -/
theorem isManual_observed : (observed stage seen).isManual = stage.isManual := by
  obtain ⟨id, text, requirement⟩ := stage
  cases seen <;> cases requirement <;> rfl

/-- Without the count that was seen a stage is the same. -/
@[simp] theorem bare_observed : (observed stage seen).bare = stage.bare := by
  obtain ⟨id, text, requirement⟩ := stage
  cases seen <;> cases requirement <;> rfl

@[simp] theorem bare_bare : stage.bare.bare = stage.bare :=
  bare_observed stage (some 0)

end Observed

variable (ctx : StageContext)

/-- Whether a stage is complete. -/
def isComplete (stage : Stage) : Bool :=
  (ctx.evaluate stage.requirement).1 == .complete

/-- A stage with the count that the documents show. -/
def counted (stage : Stage) : Stage :=
  observed stage (ctx.evaluate stage.requirement).2

/-- The place of the first stage that is not complete. -/
def reach (stages : List Stage) : Nat :=
  stages.findIdx (!ctx.isComplete ·)

/-- The stages with the counts up to the first one that is not complete. -/
def shown (stages : List Stage) : List Stage :=
  stages.mapIdx fun i stage => if i ≤ ctx.reach stages then ctx.counted stage else stage

/-- So it is without the count that the documents show. -/
@[simp] theorem bare_counted (stage : Stage) : (ctx.counted stage).bare = stage.bare :=
  bare_observed ..

@[simp] theorem isManual_bare (stage : Stage) : stage.bare.isManual = stage.isManual :=
  isManual_observed stage (some 0)

/-- Whether a stage is complete depends on no count that was seen. -/
@[simp] theorem isComplete_bare (stage : Stage) :
    ctx.isComplete stage.bare = ctx.isComplete stage :=
  congrArg (·.1 == .complete) (ctx.evaluate_observed stage (some 0))

variable {ctx}

/-- No document completes a stage that only marks the end. -/
theorem isManual_of_complete {stage : Stage} (h : ctx.isComplete stage = true) :
    stage.isManual = false := by
  obtain ⟨id, text, requirement⟩ := stage
  cases requirement with
  | manual => cases h
  | _ => rfl

/-- Only such a stage ends a scan for good. -/
theorem eq_manual_of_terminal {requirement : Requirement}
    (h : (ctx.evaluate requirement).1 = .terminal) : requirement = .manual := by
  cases requirement with
  | manual => rfl
  | _ =>
    simp only [evaluate] at h
    split at h
    · cases h
    · exact absurd h (StageStatus.ofBool_ne_terminal _)

/-- It shows no count. -/
theorem counted_of_terminal {stage : Stage}
    (h : (ctx.evaluate stage.requirement).1 = .terminal) : ctx.counted stage = stage := by
  obtain ⟨id, text, requirement⟩ := stage
  cases eq_manual_of_terminal h
  rfl

section Cons

variable {stage : Stage} (rest : List Stage)

/-- A scan goes past a complete stage. -/
theorem reach_cons_of_complete (h : ctx.isComplete stage = true) :
    ctx.reach (stage :: rest) = ctx.reach rest + 1 := by
  simp only [reach, List.findIdx_cons, h, Bool.not_true, cond_false]

/-- A scan stops at a stage that is not complete. -/
theorem reach_cons_of_not_complete (h : ctx.isComplete stage = false) :
    ctx.reach (stage :: rest) = 0 := by
  simp only [reach, List.findIdx_cons, h, Bool.not_false, cond_true]

/-- Past a complete stage the scan shows the later ones too. -/
theorem shown_cons_of_complete (h : ctx.isComplete stage = true) :
    ctx.shown (stage :: rest) = ctx.counted stage :: ctx.shown rest := by
  simp only [shown, List.mapIdx_cons, reach_cons_of_complete rest h, Nat.zero_le, if_true,
    Nat.add_le_add_iff_right]

/-- A stage that is not complete is the last one that is shown; the later ones stay as they were. -/
theorem shown_cons_of_not_complete (h : ctx.isComplete stage = false) :
    ctx.shown (stage :: rest) = ctx.counted stage :: rest := by
  have hrest : rest.mapIdx (fun i later => if i + 1 ≤ 0 then ctx.counted later else later) = rest :=
    List.mapIdx_eq_iff.mpr fun i => by simp
  simp only [shown, List.mapIdx_cons, reach_cons_of_not_complete rest h, Nat.le_refl, if_true, hrest]

end Cons

/-- What a scan shows, unless it is given up. -/
theorem scan_eq_some {stages scanned : List Stage} {reached : Nat}
    (h : ctx.scan stages = some (reached, scanned)) :
    reached = ctx.reach stages ∧ scanned = ctx.shown stages := by
  induction stages generalizing reached scanned with
  | nil =>
    cases h
    exact ⟨rfl, rfl⟩
  | cons stage rest ih =>
    rw [scan] at h
    split at h
    rename_i status seen heval
    have hcounted : ctx.counted stage = observed stage seen := by rw [counted, heval]
    have hcomplete : ctx.isComplete stage = (status == .complete) := by rw [isComplete, heval]
    cases status with
    | complete =>
      obtain ⟨⟨n, later⟩, hrest, heq⟩ := Option.map_eq_some_iff.mp h
      cases heq
      obtain ⟨rfl, rfl⟩ := ih hrest
      rw [reach_cons_of_complete rest hcomplete, shown_cons_of_complete rest hcomplete, hcounted]
      exact ⟨rfl, rfl⟩
    | incomplete =>
      cases h
      rw [reach_cons_of_not_complete rest hcomplete, shown_cons_of_not_complete rest hcomplete,
        hcounted]
      exact ⟨rfl, rfl⟩
    | terminal =>
      cases h
      rw [reach_cons_of_not_complete rest hcomplete, shown_cons_of_not_complete rest hcomplete,
        counted_of_terminal (by rw [heval])]
      exact ⟨rfl, rfl⟩
    | unavailable => cases h

/-- A scan that is not given up comes to the first stage that is not complete. -/
theorem scan_of_ne_none {stages : List Stage} (h : ctx.scan stages ≠ none) :
    ctx.scan stages = some (ctx.reach stages, ctx.shown stages) := by
  obtain ⟨⟨reached, scanned⟩, hscan⟩ := Option.ne_none_iff_exists'.mp h
  obtain ⟨rfl, rfl⟩ := scan_eq_some hscan
  exact hscan

/-- And brings its goal there. -/
theorem updateGoal_of_scan {goal : StagedGoal} (h : ctx.scan goal.stages ≠ none) :
    ctx.updateGoal goal =
      { goal with stages := ctx.shown goal.stages, current := ctx.reach goal.stages } := by
  rw [updateGoal, scan_of_ne_none h]

/-- The stages up to the first one that is not complete are shown with what the documents count. -/
theorem getElem?_shown {stages : List Stage} {i : Nat} {stage : Stage}
    (hstage : (ctx.shown stages)[i]? = some stage) (hi : i ≤ ctx.reach stages) :
    ∃ old, stages[i]? = some old ∧ stage = ctx.counted old := by
  rw [shown, List.getElem?_mapIdx] at hstage
  obtain ⟨old, hold, heq⟩ := Option.map_eq_some_iff.mp hstage
  rw [if_pos hi] at heq
  exact ⟨old, hold, heq.symm⟩

/-- The stages that a scan shows are the same but for their counts. -/
theorem bare_shown (stages : List Stage) :
    (ctx.shown stages).map (·.bare) = stages.map (·.bare) := by
  refine List.ext_getElem? fun i => ?_
  simp only [shown, List.getElem?_map, List.getElem?_mapIdx, Option.map_map]
  refine Option.map_congr fun stage _ => ?_
  simp only [Function.comp_apply]
  split
  · exact bare_counted ..
  · rfl

/-- The counts that were seen before do not matter for the place that a scan comes to. -/
theorem reach_map_bare (stages : List Stage) :
    ctx.reach (stages.map (·.bare)) = ctx.reach stages := by
  simp only [reach, List.findIdx_map, Function.comp_def, isComplete_bare]

/-- Nor do those that it shows. -/
theorem reach_shown (stages : List Stage) : ctx.reach (ctx.shown stages) = ctx.reach stages := by
  rw [← reach_map_bare, bare_shown, reach_map_bare]

section Full

variable (hera : ctx.era.isKnown = true) (hfull : ctx.sources.IsFull ctx.era)

include hera hfull

/-- With all documents at hand, each stage finds the one that it needs. -/
theorem documents_of_isFull : ∃ achievements statistics unlocks,
    ctx.achievements = some achievements ∧ ctx.statistics = some statistics ∧
      ctx.sources.unlocks = some unlocks := by
  obtain ⟨achievements, ha⟩ := Option.isSome_iff_exists.mp hfull.achievements
  obtain ⟨statistics, hs⟩ := Option.isSome_iff_exists.mp hfull.statistics
  obtain ⟨unlocks, hu⟩ := Option.isSome_iff_exists.mp hfull.unlocks
  refine ⟨achievements, statistics, unlocks, ?_, ?_, hu⟩
  · rw [StageContext.achievements, if_pos hera, ha]
  · rw [StageContext.statistics, if_pos hera, hs]

/-- With all documents at hand every stage has a status. -/
theorem evaluate_ne_unavailable (requirement : Requirement) :
    (ctx.evaluate requirement).1 ≠ .unavailable := by
  obtain ⟨achievements, statistics, unlocks, ha, hs, hu⟩ := documents_of_isFull hera hfull
  cases requirement with
  | manual => exact nofun
  | _ =>
    simp only [evaluate, ha, hs, hu]
    exact StageStatus.ofBool_ne_unavailable _

/-- So no scan is given up. -/
theorem scan_of_isFull (stages : List Stage) :
    ctx.scan stages = some (ctx.reach stages, ctx.shown stages) := by
  have hsome : ∃ result, ctx.scan stages = some result := by
    induction stages with
    | nil => exact ⟨_, rfl⟩
    | cons stage rest ih =>
      obtain ⟨⟨n, later⟩, hrest⟩ := ih
      have hne := evaluate_ne_unavailable hera hfull stage.requirement
      rw [scan]
      split
      rename_i status seen heval
      rw [heval] at hne
      cases status with
      | complete => exact ⟨_, by rw [hrest, Option.map_some]⟩
      | incomplete => exact ⟨_, rfl⟩
      | terminal => exact ⟨_, rfl⟩
      | unavailable => exact absurd rfl hne
  exact scan_of_ne_none (Option.ne_none_iff_exists'.mpr hsome)

/-- And a count that is seen replaces the one that was seen before. -/
theorem counted_bare (stage : Stage) : ctx.counted stage.bare = ctx.counted stage := by
  obtain ⟨achievements, statistics, unlocks, ha, hs, hu⟩ := documents_of_isFull hera hfull
  obtain ⟨id, text, requirement⟩ := stage
  cases requirement with
  | statistic address required current =>
    simp only [counted, Stage.bare, Stage.observe, evaluate, hs, observed]
  | _ => rfl

end Full

end StageContext

end Milestone
