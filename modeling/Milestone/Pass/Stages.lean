import Milestone.Checklist.Category
import Milestone.Checklist.StagedGoal
import Milestone.Snapshot.Lookup
import Milestone.Snapshot.Sources

/-!
# The stages pass

Each pass scans every goal from its first stage and stops at the first one that is not complete, so
the current stage counts the complete stages at the front, whatever it was before. A goal that needs
an absent source for this is left as it was.
-/

namespace Milestone

open Json

/-- What stages are evaluated against: the documents, and the advancements already brought up to
date. -/
structure StageContext where
  era : Era
  advancements : List Category
  sources : Sources
  baseline : Baseline

/-- What the evaluation of a stage shows. -/
inductive StageStatus where
  | complete
  | incomplete
  /-- The document that the stage needs is absent. -/
  | unavailable
  /-- A stage that no document completes. -/
  | terminal
  deriving DecidableEq

namespace StageStatus

/-- The status of a stage that can be evaluated. -/
def ofBool (b : Bool) : StageStatus :=
  if b then complete else incomplete

end StageStatus

namespace StageContext

/-- The achievements document, in an era that is known. -/
def achievements (ctx : StageContext) : Option Value :=
  if ctx.era.isKnown then ctx.sources.achievements ctx.era else none

/-- The statistics document, in an era that is known. -/
def statistics (ctx : StageContext) : Option Value :=
  if ctx.era.isKnown then ctx.sources.statistics else none

/-- Whether an advancement is done: by its entry in the checklist, else by the document. -/
def isAdvancementDone (ctx : StageContext) (doc : Value) (name : String) : Bool :=
  match ctx.advancements.find? (·.name == name) with
  | some category => category.done
  | none => ctx.era.entryDone doc name

/-- The status of a requirement and, for a statistic, the count that was seen. -/
def evaluate (ctx : StageContext) : Requirement → StageStatus × Option Counter
  | .manual => (.terminal, none)
  | .advancement name =>
    match ctx.achievements with
    | none => (.unavailable, none)
    | some doc => (.ofBool (ctx.isAdvancementDone doc name), none)
  | .statistic address required _ =>
    match ctx.statistics with
    | none => (.unavailable, none)
    | some doc =>
      let seen := ctx.era.progress doc address ctx.baseline
      (.ofBool (required ≤ seen), some seen)
  | .unlock name =>
    match ctx.sources.unlocks with
    | none => (.unavailable, none)
    | some doc => (.ofBool (isObtained doc name), none)
  | .criterion parent name =>
    match ctx.achievements with
    | none => (.unavailable, none)
    | some doc => (.ofBool (ctx.era.criterionPresent doc parent name), none)

/-- A stage with the count that was seen, if any. -/
def observed (stage : Stage) : Option Counter → Stage
  | some seen => stage.observe seen
  | none => stage

/-- The number of complete stages at the front, and the stages with the counts seen on the way; nothing
when an absent source is needed. -/
def scan (ctx : StageContext) : List Stage → Option (Nat × List Stage)
  | [] => some (0, [])
  | stage :: rest =>
    let (status, seen) := ctx.evaluate stage.requirement
    match status with
    | .complete =>
      (ctx.scan rest).map fun (reached, stages) => (reached + 1, observed stage seen :: stages)
    | .incomplete => some (0, observed stage seen :: rest)
    | .terminal => some (0, stage :: rest)
    | .unavailable => none

/-- A goal brought up to date. -/
def updateGoal (ctx : StageContext) (goal : StagedGoal) : StagedGoal :=
  match ctx.scan goal.stages with
  | some (reached, stages) => { goal with stages := stages, current := reached }
  | none => goal

end StageContext

end Milestone
