import Milestone.Json.Reader
import Milestone.Json.Record

/-!
# Declarations

What a template text declares, before it is checked. The sections of advancements, statistics and
unlocks are keyed; they keep repeated keys, and an entry of the wrong shape is kept as `none`, so that
checking can report the first fault in the order of the sections. An entry that is null has all
defaults.
-/

namespace Milestone.Template

open Json

/-- A criterion of an advancement or of a group of statistics. -/
structure CriterionDeclaration where
  displayName : Option String
  hidden : Bool
  address : Option String
  target : Counter
  deriving DecidableEq

/-- An advancement or a recipe. -/
structure AdvancementDeclaration where
  displayName : Option String
  hidden : Bool
  recipe : Bool
  criteria : List (String × Option CriterionDeclaration)
  deriving DecidableEq

/-- A group of statistics, or a single one. -/
structure StatisticDeclaration where
  displayName : Option String
  hidden : Bool
  address : Option String
  target : Counter
  /-- Nothing for a single statistic. -/
  criteria : Option (List (String × Option CriterionDeclaration))
  deriving DecidableEq

/-- An unlock, known by its key. -/
structure UnlockDeclaration where
  displayName : Option String
  hidden : Bool
  deriving DecidableEq

/-- A custom goal, which must have a name. -/
structure CustomDeclaration where
  name : String
  displayName : Option String
  hidden : Bool
  target : Counter
  deriving DecidableEq

/-- A stage of a staged goal. What it must have depends on its kind. -/
structure StageDeclaration where
  kind : String
  id : Option String
  name : Option String
  parent : Option String
  target : Counter
  displayText : Option String
  deriving DecidableEq

/-- A staged goal, which must have a name. -/
structure GoalDeclaration where
  name : String
  displayName : Option String
  hidden : Bool
  stages : List StageDeclaration
  deriving DecidableEq

/-- The five sections of a template. -/
structure Declarations where
  advancements : List (String × Option AdvancementDeclaration)
  statistics : List (String × Option StatisticDeclaration)
  unlocks : List (String × Option UnlockDeclaration)
  custom : List CustomDeclaration
  goals : List GoalDeclaration
  deriving DecidableEq

/-- An entry of a keyed section: null has the defaults, the wrong shape gives nothing. -/
def entry {β : Type} (default : β) (read : Value → Option β) : Value → Option β
  | .null => some default
  | v => read v

/-- The entries of a keyed section. -/
def entries {β : Type} (default : β) (read : Value → Option β) (members : List (String × Value)) :
    List (String × Option β) :=
  members.map fun (key, v) => (key, entry default read v)

namespace CriterionDeclaration

/-- A criterion that declares nothing. -/
def plain : CriterionDeclaration := ⟨none, false, none, 0⟩

/-- The criterion that a value declares, if all its fields have the right shape. -/
def read? (v : Value) : Option CriterionDeclaration := do
  let fields ← fields? ["display_name", "hidden", "root_name", "target"] v
  return {
    displayName := ← field? fields "display_name" none (orNull? text?)
    hidden := ← field? fields "hidden" false bool?
    address := ← field? fields "root_name" none (orNull? text?)
    target := ← field? fields "target" 0 counter? }

end CriterionDeclaration

/-- The criteria of an entry. -/
def criteria? (v : Value) : Option (List (String × Option CriterionDeclaration)) :=
  v.members?.map (entries .plain CriterionDeclaration.read?)

namespace AdvancementDeclaration

/-- An advancement that declares nothing. -/
def plain : AdvancementDeclaration := ⟨none, false, false, []⟩

/-- The advancement that a value declares, if all its fields have the right shape. -/
def read? (v : Value) : Option AdvancementDeclaration := do
  let fields ← fields? ["display_name", "hidden", "is_recipe", "criteria"] v
  return {
    displayName := ← field? fields "display_name" none (orNull? text?)
    hidden := ← field? fields "hidden" false bool?
    recipe := ← field? fields "is_recipe" false bool?
    criteria := ← field? fields "criteria" [] criteria? }

end AdvancementDeclaration

namespace StatisticDeclaration

/-- A statistic that declares nothing. -/
def plain : StatisticDeclaration := ⟨none, false, none, 0, none⟩

/-- The statistic that a value declares, if all its fields have the right shape. -/
def read? (v : Value) : Option StatisticDeclaration := do
  let fields ← fields? ["display_name", "hidden", "root_name", "target", "criteria"] v
  return {
    displayName := ← field? fields "display_name" none (orNull? text?)
    hidden := ← field? fields "hidden" false bool?
    address := ← field? fields "root_name" none (orNull? text?)
    target := ← field? fields "target" 0 counter?
    criteria := ← field? fields "criteria" none (orNull? criteria?) }

end StatisticDeclaration

namespace UnlockDeclaration

/-- An unlock that declares nothing. -/
def plain : UnlockDeclaration := ⟨none, false⟩

/-- The unlock that a value declares, if all its fields have the right shape. -/
def read? (v : Value) : Option UnlockDeclaration := do
  let fields ← fields? ["display_name", "hidden"] v
  return {
    displayName := ← field? fields "display_name" none (orNull? text?)
    hidden := ← field? fields "hidden" false bool? }

end UnlockDeclaration

/-- The custom goal that a tree declares, if all its fields have the right shape. -/
def CustomDeclaration.read? (t : Tree) : Option CustomDeclaration := do
  let fields ← fields? ["root_name", "display_name", "hidden", "target"] t
  return {
    name := ← required? fields "root_name" text?
    displayName := ← field? fields "display_name" none (orNull? text?)
    hidden := ← field? fields "hidden" false bool?
    target := ← field? fields "target" 0 counter? }

/-- The stage that a tree declares, if all its fields have the right shape. -/
def StageDeclaration.read? (t : Tree) : Option StageDeclaration := do
  let fields ← fields?
    ["type", "stage_id", "root_name", "parent_advancement", "target", "display_text"] t
  return {
    kind := ← required? fields "type" text?
    id := ← field? fields "stage_id" none (orNull? text?)
    name := ← field? fields "root_name" none (orNull? text?)
    parent := ← field? fields "parent_advancement" none (orNull? text?)
    target := ← field? fields "target" 0 counter?
    displayText := ← field? fields "display_text" none (orNull? text?) }

/-- The staged goal that a tree declares, if it and its stages have the right shape. -/
def GoalDeclaration.read? (t : Tree) : Option GoalDeclaration := do
  let fields ← fields? ["root_name", "display_name", "hidden", "stages"] t
  return {
    name := ← required? fields "root_name" text?
    displayName := ← field? fields "display_name" none (orNull? text?)
    hidden := ← field? fields "hidden" false bool?
    stages := ← field? fields "stages" [] (listOf? StageDeclaration.read?) }

/-- The nesting left for an entry of a keyed section. -/
def entryDepth : Nat := Tree.depthLimit - 2

/-- A keyed section, repeated keys included. -/
def section? {β : Type} (default : β) (read : Value → Option β) (t : Tree) :
    Option (List (String × Option β)) :=
  (entriesOf? (Tree.value? entryDepth) t).map (entries default read)

namespace Declarations

/-- The declarations of a tree. A section that is left out declares nothing. -/
def ofTree? (t : Tree) : Option Declarations := do
  let fields ← fields? ["advancements", "stats", "unlocks", "custom", "multi_stage_goals"] t
  return {
    advancements := ← field? fields "advancements" []
      (section? .plain AdvancementDeclaration.read?)
    statistics := ← field? fields "stats" [] (section? .plain StatisticDeclaration.read?)
    unlocks := ← field? fields "unlocks" [] (section? .plain UnlockDeclaration.read?)
    custom := ← field? fields "custom" [] (listOf? CustomDeclaration.read?)
    goals := ← field? fields "multi_stage_goals" [] (listOf? GoalDeclaration.read?) }

/-- The declarations of a template text. -/
def read? (text : String) : Option Declarations :=
  (Tree.read? text).bind ofTree?

end Declarations

end Milestone.Template
