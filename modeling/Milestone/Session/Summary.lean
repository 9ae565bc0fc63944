import Milestone.Session.Basic

/-!
# Summaries

The report of a session in plain text: the world, the overall progress, a line for each section that
has entries, a line for each visible goal with its active stage, and the play time.
-/

namespace Milestone.Session

/-- The game's ticks in a second. -/
def ticksPerSecond : Int := 20

/-- A text with blanks behind it up to a width. -/
def padTo (width : Nat) (s : String) : String :=
  s ++ String.ofList (List.replicate (width - s.length) ' ')

/-- The line of a section: nothing for a section without entries. -/
def countLine (name : String) (completed total : Nat) : List String :=
  if total = 0 then []
  else ["  " ++ padTo 13 name ++ " " ++ toString completed ++ "/" ++ toString total]

def sectionLine (name : String) (c : SectionCounts) : List String :=
  countLine name c.completed c.total

/-- The count of a statistic stage. -/
def stageDetail : Requirement → String
  | .statistic _ required current =>
    " (" ++ toString current.value ++ "/" ++ toString required.value ++ ")"
  | _ => ""

/-- The line of a visible goal that has an active stage. -/
def goalLine (goal : StagedGoal) : List String :=
  match goal.active? with
  | some stage =>
    if goal.hidden then []
    else ["  > " ++ goal.displayName ++ " [" ++ toString goal.current ++ "/" ++
      toString goal.steps ++ "]: " ++ stage.displayText ++ stageDetail stage.requirement]
  | none => []

/-- A number of at least two characters, with a zero in front of a single digit. -/
def twoPlaces (n : Int) : String :=
  if 0 ≤ n ∧ n < 10 then "0" ++ toString n else toString n

/-- Hours and minutes of a play time. -/
def playTimeLine (ticks : Counter) : String :=
  let seconds := ticks.value.tdiv ticksPerSecond
  "Play time: " ++ toString (seconds.tdiv 3600) ++ "h " ++
    twoPlaces ((seconds.tmod 3600).tdiv 60) ++ "m"

/-- The lines of a summary. -/
def summaryLines (session : Session) : List String :=
  let c := session.checklist
  let counts := c.counts
  ["Waypost " ++ session.version.raw ++ " (" ++ session.version.era.name ++ ") - " ++
      c.world.getD "(no world)",
    "Overall: " ++ c.percentage.fixed 2 ++ "% (" ++ toString c.completedSteps ++ "/" ++
      toString c.totalSteps ++ " steps)"] ++
    sectionLine "Advancements" counts.advancements ++
    countLine "Criteria" counts.completedCriteria counts.criteria ++
    sectionLine "Recipes" counts.recipes ++
    sectionLine "Stats" counts.statistics ++
    sectionLine "Unlocks" counts.unlocks ++
    sectionLine "Custom" counts.custom ++
    sectionLine "Multi-stage" counts.staged ++
    c.goals.flatMap goalLine ++
    [playTimeLine c.playTime]

/-- The text of a summary. -/
def summary (session : Session) : String :=
  String.join (session.summaryLines.map (· ++ "\n"))

end Milestone.Session
