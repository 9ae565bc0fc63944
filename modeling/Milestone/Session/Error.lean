import Milestone.Saved.Store
import Milestone.Settings
import Milestone.Snapshot.Files
import Milestone.Template.Error

/-!
# Session errors

What can go wrong in a tracking session, by where it goes wrong.
-/

namespace Milestone

/-- Why a session cannot do what it is asked for. -/
inductive SessionError where
  | settings (cause : SettingsError)
  | template (cause : TemplateError)
  | state (cause : StateError)
  | snapshot (cause : SnapshotError)
  /-- A directory to watch is missing. -/
  | notWatchable (directory : String)
  deriving DecidableEq

namespace SessionError

/-- The text of the cause alone. -/
def causeMessage : SessionError → String
  | settings cause => cause.message
  | template cause => cause.message
  | state cause => cause.message
  | snapshot cause => cause.message
  | notWatchable directory => "watch directory does not exist: " ++ directory

/-- The text of an error. -/
def message (e : SessionError) : String :=
  let area := match e with
    | settings _ => "configuration error: "
    | template _ => "template error: "
    | state _ => "state error: "
    | snapshot _ => "snapshot error: "
    | notWatchable _ => "file watch error: "
  area ++ e.causeMessage

end SessionError

end Milestone
