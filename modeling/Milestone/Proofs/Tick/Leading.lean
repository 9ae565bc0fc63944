import Milestone.Proofs.Tick.Scan
import Milestone.Reconcile

/-!
# Leading stages

A goal stands at the number of stages at its front that are passed: stages that do not mark the end, whose
documents are at hand and show them complete. This file says what a stage asks of the documents without following
the scan, and proves that a scan counts exactly the leading stages. If the stage behind them waits for a document
that is absent, the goal is left alone. What comes after that stage never matters.
-/

namespace Milestone

open Json

namespace StageContext

variable (ctx : StageContext)

/-- Whether the document that shows a requirement is at hand; the mark of an end needs none. -/
def isAvailable : Requirement → Bool
  | .manual => true
  | .advancement _ | .criterion _ _ => ctx.achievements.isSome
  | .statistic _ _ _ => ctx.statistics.isSome
  | .unlock _ => ctx.sources.unlocks.isSome

/-- Whether a document at hand shows a requirement as met. -/
def isMet : Requirement → Bool
  | .manual => false
  | .advancement name => ctx.achievements.any (ctx.isAdvancementDone · name)
  | .statistic address required _ =>
    ctx.statistics.any fun doc => required ≤ ctx.era.progress doc address ctx.baseline
  | .unlock name => ctx.sources.unlocks.any (isObtained · name)
  | .criterion parent name => ctx.achievements.any (ctx.era.criterionPresent · parent name)

/-- A goal passes a stage that does not mark the end, if its document is at hand and shows it complete. -/
def passes (stage : Stage) : Bool :=
  !stage.isManual && ctx.isAvailable stage.requirement && ctx.isMet stage.requirement

/-- A stage that does not mark the end waits for its document where that is absent. -/
def waits (stage : Stage) : Bool :=
  !stage.isManual && !ctx.isAvailable stage.requirement

/-- A stage with the current count of its statistic, if it has one and the statistics are at hand. -/
def withCount (stage : Stage) : Stage :=
  match stage.requirement, ctx.statistics with
  | .statistic address required _, some doc =>
    { stage with
      requirement := .statistic address required (ctx.era.progress doc address ctx.baseline) }
  | _, _ => stage

/-- How many stages at the front are passed. -/
def leading (stages : List Stage) : Nat :=
  (stages.takeWhile ctx.passes).length

/-- Whether the stage behind the leading ones waits. -/
def isHeldUp (goal : StagedGoal) : Bool :=
  goal.stages[ctx.leading goal.stages]?.any ctx.waits

section Evaluate

variable (stage : Stage)

/-- The status of a stage by what it asks for and what is at hand. -/
theorem status_eq :
    (ctx.evaluate stage.requirement).1 =
      if stage.isManual then .terminal
      else if ctx.isAvailable stage.requirement then .ofBool (ctx.isMet stage.requirement)
      else .unavailable := by
  obtain ⟨id, text, requirement⟩ := stage
  cases requirement with
  | manual => rfl
  | statistic address required current =>
    cases h : ctx.statistics <;> simp [evaluate, Stage.isManual, isAvailable, isMet, h]
  | unlock name =>
    cases h : ctx.sources.unlocks <;> simp [evaluate, Stage.isManual, isAvailable, isMet, h]
  | _ => cases h : ctx.achievements <;> simp [evaluate, Stage.isManual, isAvailable, isMet, h]

/-- A stage is evaluated as complete exactly if a goal passes it. -/
theorem isComplete_eq_passes : ctx.isComplete stage = ctx.passes stage := by
  rw [isComplete, status_eq, passes]
  cases stage.isManual with
  | true => rfl
  | false =>
    cases ctx.isAvailable stage.requirement with
    | true => simp [StageStatus.ofBool_beq_complete]
    | false => rfl

/-- It is evaluated as unavailable exactly if it waits. -/
theorem evaluate_eq_unavailable_iff :
    (ctx.evaluate stage.requirement).1 = .unavailable ↔ ctx.waits stage = true := by
  rw [status_eq, waits]
  cases stage.isManual with
  | true => simp
  | false =>
    cases ctx.isAvailable stage.requirement with
    | true => simp [StageStatus.ofBool_ne_unavailable]
    | false => simp

/-- An evaluation shows the current count of a statistic and no other one. -/
theorem counted_eq_withCount : ctx.counted stage = ctx.withCount stage := by
  obtain ⟨id, text, requirement⟩ := stage
  cases requirement with
  | manual => rfl
  | statistic address required current =>
    cases h : ctx.statistics <;> simp [counted, withCount, evaluate, observed, Stage.observe, h]
  | unlock name => cases h : ctx.sources.unlocks <;> simp [counted, withCount, evaluate, observed, h]
  | _ => cases h : ctx.achievements <;> simp [counted, withCount, evaluate, observed, h]

end Evaluate

/-- The first stage that is not complete is the one behind the leading stages. -/
theorem reach_eq_leading (stages : List Stage) : ctx.reach stages = ctx.leading stages := by
  have hpasses : (fun stage => !ctx.isComplete stage) = fun stage => !ctx.passes stage :=
    funext fun stage => congrArg (!·) (ctx.isComplete_eq_passes stage)
  have hle : stages.findIdx (fun stage => !ctx.passes stage) ≤ stages.length := List.findIdx_le_length
  rw [reach, hpasses, leading, List.takeWhile_eq_take_findIdx_not, List.length_take]
  omega

/-- A scan is given up exactly if the stage behind the leading ones waits. -/
theorem scan_eq_none_iff_waits (stages : List Stage) :
    ctx.scan stages = none ↔ stages[ctx.leading stages]?.any ctx.waits = true := by
  rw [← reach_eq_leading]
  induction stages with
  | nil => simp [scan]
  | cons stage rest ih =>
    have hwaits := ctx.evaluate_eq_unavailable_iff stage
    rw [scan]
    split
    rename_i status seen heval
    have hcomplete : ctx.isComplete stage = (status == .complete) := by rw [isComplete, heval]
    rw [heval] at hwaits
    cases status with
    | complete =>
      rw [reach_cons_of_complete rest hcomplete, List.getElem?_cons_succ, ← ih, Option.map_eq_none_iff]
    | incomplete | terminal | unavailable =>
      rw [reach_cons_of_not_complete rest hcomplete]
      simpa using hwaits

section Update

variable {ctx} {goal other : StagedGoal}

/-- A goal that is held up is left alone. -/
theorem updateGoal_of_isHeldUp (h : ctx.isHeldUp goal = true) : ctx.updateGoal goal = goal := by
  rw [updateGoal, (ctx.scan_eq_none_iff_waits goal.stages).mpr h]

/-- Any other goal is brought to the number of its leading stages, with the counts up to the stage behind them. -/
theorem updateGoal_of_not_isHeldUp (h : ctx.isHeldUp goal = false) :
    ctx.updateGoal goal =
      { goal with
        current := ctx.leading goal.stages
        stages := goal.stages.mapIdx fun i stage =>
          if i ≤ ctx.leading goal.stages then ctx.withCount stage else stage } := by
  have hscans : ctx.scan goal.stages ≠ none := by
    rw [ne_eq, scan_eq_none_iff_waits, ← isHeldUp, h]
    exact Bool.false_ne_true
  simp only [updateGoal_of_scan hscans, shown, reach_eq_leading, counted_eq_withCount]

/-- Goals with the same stages up to the one behind the leading stages of one of them have the same leading
stages. -/
theorem leading_congr
    (h : other.stages.take (ctx.leading goal.stages + 1) = goal.stages.take (ctx.leading goal.stages + 1)) :
    ctx.leading other.stages = ctx.leading goal.stages := by
  simp only [← reach_eq_leading] at h ⊢
  have hfound := congrArg (List.findIdx fun stage => !ctx.isComplete stage) h
  rw [List.findIdx_take, List.findIdx_take] at hfound
  unfold reach at hfound ⊢
  omega

/-- And they are held up alike. -/
theorem isHeldUp_congr
    (h : other.stages.take (ctx.leading goal.stages + 1) = goal.stages.take (ctx.leading goal.stages + 1)) :
    ctx.isHeldUp other = ctx.isHeldUp goal := by
  have hnext := congrArg (·[ctx.leading goal.stages]?) h
  simp only [List.getElem?_take_of_lt (Nat.lt_succ_self _)] at hnext
  rw [isHeldUp, isHeldUp, leading_congr h, hnext]

/-- And they come to the same stage with the same counts up to there. -/
theorem updateGoal_congr (hfree : ctx.isHeldUp goal = false)
    (h : other.stages.take (ctx.leading goal.stages + 1) = goal.stages.take (ctx.leading goal.stages + 1)) :
    (ctx.updateGoal other).current = ctx.leading goal.stages ∧
      (ctx.updateGoal other).stages.take (ctx.leading goal.stages + 1) =
        (ctx.updateGoal goal).stages.take (ctx.leading goal.stages + 1) := by
  have hother : ctx.isHeldUp other = false := (isHeldUp_congr h).trans hfree
  rw [updateGoal_of_not_isHeldUp hfree, updateGoal_of_not_isHeldUp hother, leading_congr h]
  refine ⟨rfl, List.ext_getElem? fun i => ?_⟩
  have hstage := congrArg (·[i]?) h
  simp only [List.getElem?_take] at hstage ⊢
  split
  · rename_i hi
    rw [if_pos hi, if_pos hi] at hstage
    rw [List.getElem?_mapIdx, List.getElem?_mapIdx, hstage]
  · rfl

end Update

end StageContext

/-- **A goal stands at the number of its leading stages.** For every checklist, era and sources, each goal is brought
up to date on its own. Let `p` be the number of stages at its front that do not mark the end, whose document is at
hand, and that are complete. If the stage behind them waits for a document that is absent, the goal is left as it
was. Otherwise it comes to stand at `p`, its statistics up to the place `p` show their current counts, and all else
is left as it was. Neither the stage at which it stood before nor any stage behind the place `p` matters for this. -/
theorem goals_stand_at_leading (c : Checklist) (era : Era) (s : Sources) :
    let ctx : StageContext := ⟨era, c.advancements, s, c.baseline⟩
    (c.passGoals era s).goals = c.goals.map ctx.updateGoal ∧
    ∀ goal : StagedGoal,
      let p := ctx.leading goal.stages
      (ctx.isHeldUp goal = true → ctx.updateGoal goal = goal) ∧
      (ctx.isHeldUp goal = false →
        ctx.updateGoal goal =
          { goal with
            current := p
            stages := goal.stages.mapIdx fun i stage => if i ≤ p then ctx.withCount stage else stage }) ∧
      ∀ other : StagedGoal, other.stages.take (p + 1) = goal.stages.take (p + 1) →
        ctx.isHeldUp other = ctx.isHeldUp goal ∧
        (ctx.isHeldUp goal = false → (ctx.updateGoal other).current = p ∧
          (ctx.updateGoal other).stages.take (p + 1) = (ctx.updateGoal goal).stages.take (p + 1)) := by
  intro ctx
  refine ⟨rfl, fun goal => ⟨?_, ?_, fun other hsame => ⟨?_, fun hfree => ?_⟩⟩⟩
  · exact StageContext.updateGoal_of_isHeldUp
  · exact StageContext.updateGoal_of_not_isHeldUp
  · exact StageContext.isHeldUp_congr hsame
  · exact StageContext.updateGoal_congr hfree hsame

/-- The walk is long enough, the recipe book is still missing, and the jumps behind it are not looked at: the goal
falls back to its second stage and keeps the count of the third one. Without the unlocks it would be left alone. -/
theorem goals_stand_at_leading_after_setback :
    let walk (seen : Counter) : Stage := ⟨"walk", "Walk", .statistic ⟨"stat.walkOneCm"⟩ 5 seen⟩
    let book : Stage := ⟨"book", "Book", .unlock "minecraft:recipe_book"⟩
    let jump : Stage := ⟨"jump", "Jump", .statistic ⟨"stat.jump"⟩ 3 2⟩
    let done : Stage := ⟨"done", "Done", .manual⟩
    let trip : StagedGoal := ⟨"trip", "Trip", [walk 1, book, jump, done], 3, false⟩
    let c : Checklist := { Checklist.empty with goals := [trip] }
    let statistics : Value := .object [("stat.walkOneCm", .number (.whole 8)), ("stat.jump", .number (.whole 9))]
    let s : Sources := ⟨none, none, some statistics, some (.object [("obtained", .array [])])⟩
    let ctx : StageContext := ⟨.hybrid, c.advancements, s, c.baseline⟩
    let blank : StageContext := ⟨.hybrid, c.advancements, { s with unlocks := none }, c.baseline⟩
    ctx.isHeldUp trip = false ∧
      (c.passGoals .hybrid s).goals = [⟨"trip", "Trip", [walk 8, book, jump, done], 1, false⟩] ∧
      (ctx.updateGoal { trip with stages := [walk 1, book], current := 0 }).current = 1 ∧
      blank.isHeldUp trip = true ∧ blank.updateGoal trip = trip := by
  intro walk book jump done trip c statistics s ctx blank
  have hfree : ctx.isHeldUp trip = false := by decide
  have hheld : blank.isHeldUp trip = true := by decide
  obtain ⟨hgoals, hgoal⟩ := goals_stand_at_leading c .hybrid s
  obtain ⟨-, hupdate, hother⟩ := hgoal trip
  obtain ⟨-, hblank⟩ := goals_stand_at_leading c .hybrid { s with unlocks := none }
  refine ⟨hfree, ?_, ((hother _ (by decide)).2 hfree).1, hheld, (hblank trip).1 hheld⟩
  rw [hgoals]
  exact congrArg (fun goal => [goal]) (hupdate hfree)

end Milestone
