import Milestone.Checklist.Address
import Milestone.Counter

/-!
# Staged goals

A goal whose stages are to be completed in order. The last stage only marks the end, so a goal has
one step fewer than stages.
-/

namespace Milestone

/-- What a stage asks for. -/
inductive Requirement where
  | advancement (name : String)
  /-- A statistic that is to reach a count; the last count seen is kept for display. -/
  | statistic (address : Address) (required current : Counter)
  | unlock (name : String)
  | criterion (parent name : String)
  /-- Nothing that a document can show. -/
  | manual
  deriving DecidableEq, Inhabited

/-- One stage of a goal. -/
structure Stage where
  id : String
  displayText : String
  requirement : Requirement
  deriving DecidableEq, Inhabited

namespace Stage

def isManual (stage : Stage) : Bool :=
  match stage.requirement with
  | .manual => true
  | _ => false

/-- The stage with the count that was seen; other than statistics show none. -/
def observe (stage : Stage) (seen : Counter) : Stage :=
  match stage.requirement with
  | .statistic address required _ =>
    { stage with requirement := .statistic address required seen }
  | _ => stage

end Stage

/-- A goal of stages in strict order. -/
structure StagedGoal where
  name : String
  displayName : String
  stages : List Stage
  /-- How many stages from the first are complete. -/
  current : Nat
  hidden : Bool
  deriving DecidableEq, Inhabited

namespace StagedGoal

/-- The weight of a goal: every stage but the last. -/
def steps (goal : StagedGoal) : Nat :=
  goal.stages.length - 1

/-- Whether only the last stage remains. -/
def isComplete (goal : StagedGoal) : Bool :=
  !goal.stages.isEmpty && goal.current == goal.steps

/-- The stage that is being worked on. -/
def active? (goal : StagedGoal) : Option Stage :=
  goal.stages[goal.current]?

end StagedGoal

end Milestone
