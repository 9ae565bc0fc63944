import Milestone.Command.Arguments
import Milestone.Saved.Store
import Milestone.Settings
import Milestone.Snapshot.Files

/-!
# Footprints

Which files and directories a command looks at. A command that is carried out on a tree with no more
than these does the same as on all files.
-/

namespace Milestone.Command

/-- The files that a command reads, and the directories it looks into, each with the number of levels
below it. -/
structure Footprint where
  files : List String
  directories : List (String × Nat)

/-- The state file, and the one that is written before it. -/
def stateFootprint (path : String) : List String :=
  [path, StateFile.temporary path]

/-- The files and directories of a session: the documents lie two levels below that of the worlds. -/
def sessionFootprint (settings : Settings) (template : Option String) : Footprint where
  files := stateFootprint settings.stateFile ++
    settings.template :: (template.toList ++ settings.names.toList)
  directories := [(settings.saves, 2), (FileTree.lifetimeDirectory settings.saves, 0)]

/-- The files and directories that a command looks at. -/
def footprint (env : Environment) (request : Request) : Footprint :=
  let ofSession (template : Option String) : Footprint :=
    match Settings.read env with
    | .ok settings => sessionFootprint settings template
    | .error _ => ⟨[], []⟩
  match request with
  | .status template => ofSession template
  | .run => ofSession none
  | .override .. | .custom .. | .reset =>
    match Settings.stateFileOf env with
    | .ok path => ⟨stateFootprint path, []⟩
    | .error _ => ⟨[], []⟩

end Milestone.Command
