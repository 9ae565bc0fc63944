import Milestone.Checklist.Basic
import Milestone.Template.Declaration
import Milestone.Template.DisplayNames
import Milestone.Template.Error

/-!
# From declarations to a checklist

Checks the declarations of a template and builds the checklist without progress. The first fault is
reported: repeated names of the keyed sections come first, then each section in order.
-/

namespace Milestone.Template

/-- The first name that stands in the list a second time. -/
def firstRepeated? : List String → Option String
  | names => go [] names
where
  go (seen : List String) : List String → Option String
    | [] => none
    | name :: rest => if name ∈ seen then some name else go (name :: seen) rest

/-- Fails on the first repeated name of a section. -/
def checkUnique (part : String) (names : List String) : Except TemplateError Unit :=
  match firstRepeated? names with
  | some name => .error (.duplicate part name)
  | none => .ok ()

/-- A target of an item, which is at least -1. -/
def checkTarget (entry : String) (target : Counter) : Except TemplateError Counter :=
  if target.value < -1 then .error (.invalidTarget entry target) else .ok target

/-- A declaration of the right shape. -/
def wellShaped {β : Type} : Option β → Except TemplateError β
  | some d => .ok d
  | none => .error .malformed

/-- A criterion of an advancement; its address and target do not matter. -/
def buildMark (names : DisplayNames) (advancement : String) :
    String × Option CriterionDeclaration → Except TemplateError Item
  | (name, d) => do
    let d ← wellShaped d
    let path := "advancement." ++ advancement ++ ".criteria." ++ name
    return { Item.new name (names.resolve path d.displayName name) with hidden := d.hidden }

/-- An advancement with its criteria. -/
def buildAdvancement (names : DisplayNames) :
    String × Option AdvancementDeclaration → Except TemplateError Category
  | (name, d) => do
    let d ← wellShaped d
    let criteria ← d.criteria.mapM (buildMark names name)
    let shown := names.resolve ("advancement." ++ name) d.displayName name
    return { Category.new name shown criteria with recipe := d.recipe, hidden := d.hidden }

/-- A criterion of a group of statistics. -/
def buildCriterion (names : DisplayNames) (group : String) :
    String × Option CriterionDeclaration → Except TemplateError Item
  | (name, d) => do
    let d ← wellShaped d
    let target ← checkTarget (group ++ "." ++ name) d.target
    let path := "stat." ++ group ++ ".criteria." ++ name
    return { Item.new name (names.resolve path d.displayName name) with
      target := target
      address := some ⟨d.address.getD name⟩
      hidden := d.hidden }

/-- A group of statistics. A single one gets a criterion with its own name and target. -/
def buildStatistic (names : DisplayNames) :
    String × Option StatisticDeclaration → Except TemplateError Category
  | (name, d) => do
    let d ← wellShaped d
    let shown := names.resolve ("stat." ++ name) d.displayName name
    match d.criteria with
    | none =>
      let target ← checkTarget name d.target
      return .ofStatistic name shown ⟨d.address.getD name⟩ target d.hidden
    | some criteria =>
      let criteria ← criteria.mapM (buildCriterion names name)
      return { Category.new name shown criteria with hidden := d.hidden }

/-- An unlock. -/
def buildUnlock (names : DisplayNames) :
    String × Option UnlockDeclaration → Except TemplateError Item
  | (name, d) => do
    let d ← wellShaped d
    let shown := names.resolve ("unlock." ++ name) d.displayName name
    return { Item.new name shown with hidden := d.hidden }

/-- A custom goal, whose target is checked. -/
def buildCustom (names : DisplayNames) (d : CustomDeclaration) : Except TemplateError Item := do
  let target ← checkTarget d.name d.target
  let shown := names.resolve ("custom." ++ d.name) d.displayName d.name
  return { Item.new d.name shown with target := target, hidden := d.hidden }

/-- A field that the kind of a stage needs. -/
def stageField (goal : String) (index : Nat) (field : String) :
    Option String → Except TemplateError String
  | some s => .ok s
  | none => .error (.missingField goal index field)

/-- What a declared stage asks for. -/
def buildRequirement (goal : String) (index : Nat) (d : StageDeclaration) :
    Except TemplateError Requirement := do
  if d.kind = "advancement" ∨ d.kind = "achievement" then
    return .advancement (← stageField goal index "root_name" d.name)
  else if d.kind = "stat" then
    let address ← stageField goal index "root_name" d.name
    if d.target < 1 then
      throw (.invalidTarget (goal ++ ".stages[" ++ toString index ++ "]") d.target)
    return .statistic ⟨address⟩ d.target 0
  else if d.kind = "unlock" then
    return .unlock (← stageField goal index "root_name" d.name)
  else if d.kind = "criterion" then
    let parent ← stageField goal index "parent_advancement" d.parent
    return .criterion parent (← stageField goal index "root_name" d.name)
  else if d.kind = "final" ∨ d.kind = "manual" then
    return .manual
  else
    throw (.unknownStage goal d.kind)

/-- A stage, known by its place in the goal unless it declares a name for itself. -/
def buildStage (goal : String) (index : Nat) (d : StageDeclaration) :
    Except TemplateError Stage := do
  let requirement ← buildRequirement goal index d
  let id := d.id.getD ("stage_" ++ toString index)
  return { id, displayText := d.displayText.getD id, requirement }

/-- The stages of a goal, numbered from `index`. -/
def buildStages (goal : String) (index : Nat) :
    List StageDeclaration → Except TemplateError (List Stage)
  | [] => .ok []
  | d :: rest => do
    let stage ← buildStage goal index d
    return stage :: (← buildStages goal (index + 1) rest)

/-- The stage that ends a goal which declares no end. -/
def finalStage : Stage := ⟨"final", "Complete", .manual⟩

/-- The stages with a final one behind them, unless the last one is manual already. -/
def closeStages (stages : List Stage) : List Stage :=
  if stages.getLast?.any (·.isManual) then stages else stages ++ [finalStage]

/-- A staged goal, which must have stages. One that only marks the end is added where it is missing. -/
def buildGoal (names : DisplayNames) (d : GoalDeclaration) : Except TemplateError StagedGoal := do
  if d.stages.isEmpty then
    throw (.noStages d.name)
  let stages ← buildStages d.name 0 d.stages
  return {
    name := d.name
    displayName := names.resolve ("multi_stage." ++ d.name) d.displayName d.name
    stages := closeStages stages
    current := 0
    hidden := d.hidden }

/-- The entries of a listed section, each checked for a name that came before. -/
def buildListed {α β : Type} (part : String) (name : α → String)
    (build : α → Except TemplateError β) (seen : List String) :
    List α → Except TemplateError (List β)
  | [] => .ok []
  | d :: rest => do
    if name d ∈ seen then
      throw (.duplicate part (name d))
    let entry ← build d
    return entry :: (← buildListed part name build (name d :: seen) rest)

/-- The checklist that declarations describe, without progress. -/
def build (names : DisplayNames) (d : Declarations) : Except TemplateError Checklist := do
  checkUnique "advancements" (d.advancements.map (·.1))
  checkUnique "stats" (d.statistics.map (·.1))
  checkUnique "unlocks" (d.unlocks.map (·.1))
  let advancements ← d.advancements.mapM (buildAdvancement names)
  let statistics ← d.statistics.mapM (buildStatistic names)
  let unlocks ← d.unlocks.mapM (buildUnlock names)
  let custom ← buildListed "custom" (·.name) (buildCustom names) [] d.custom
  let goals ← buildListed "multi_stage_goals" (·.name) (buildGoal names) [] d.goals
  return { Checklist.empty with advancements, statistics, unlocks, custom, goals }

/-- The checklist of a template text. -/
def read (text : String) (names : DisplayNames) : Except TemplateError Checklist :=
  match Declarations.read? text with
  | some d => build names d
  | none => .error .malformed

end Milestone.Template
