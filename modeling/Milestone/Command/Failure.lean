import Milestone.Session.Error
import Milestone.Saved.CustomValue

/-!
# Failures of commands

Why a command fails, and the lines that tell it: what was attempted, and the chain of causes below it.
-/

namespace Milestone.Command

/-- Why a command fails. -/
inductive Failure where
  | openSession (cause : SessionError)
  | loadTemplate (path : String) (cause : SessionError)
  | resolveState (cause : SettingsError)
  | loadState (path : String) (cause : StateError)
  | saveState (path : String) (cause : StateError)
  | invalidValue (key value : String)
  deriving DecidableEq

/-- The causes below an error of the saved state. -/
def stateCauses : StateError → List String
  | .inaccessible path cause => [(StateError.inaccessible path cause).message, cause.message]
  | cause => [cause.message]

/-- The causes below an error of a template. -/
def templateCauses : TemplateError → List String
  | .unreadable path cause => [(TemplateError.unreadable path cause).message, cause.message]
  | cause => [cause.message]

/-- The causes below an error of a snapshot. -/
def snapshotCauses : SnapshotError → List String
  | .unreadable path cause => [(SnapshotError.unreadable path cause).message, cause.message]
  | .unusable path cause => [(SnapshotError.unusable path cause).message, cause.message]

/-- An error of a session and the causes below it. -/
def sessionCauses (e : SessionError) : List String :=
  e.message :: match e with
    | .settings cause => [cause.message]
    | .template cause => templateCauses cause
    | .state cause => stateCauses cause
    | .snapshot cause => snapshotCauses cause
    | .notWatchable _ => [e.causeMessage]

namespace Failure

/-- What was attempted. -/
def context : Failure → String
  | openSession _ => "Failed to open tracker"
  | loadTemplate path _ => "Failed to load template " ++ path
  | resolveState _ => "Failed to resolve state path"
  | loadState path _ => "Failed to load state from " ++ path
  | saveState path _ => "Failed to save state to " ++ path
  | invalidValue key _ => "Invalid value for custom goal " ++ key

/-- The chain of causes. -/
def causes : Failure → List String
  | openSession cause | loadTemplate _ cause => sessionCauses cause
  | resolveState cause => [cause.message]
  | loadState _ cause | saveState _ cause => stateCauses cause
  | invalidValue _ value => [CustomValue.invalidMessage value]

/-- Whether the causes end in a JSON text that could not be read. -/
def isMalformed : Failure → Bool
  | openSession (.template .malformed) | loadTemplate _ (.template .malformed) => true
  | openSession (.state (.malformed _)) => true
  | loadState _ (.malformed _) => true
  | _ => false

/-- The lines of a text, the first behind one indent and the others behind another. -/
def indented (first others : String) (s : String) : List String :=
  match s.splitOn "\n" with
  | [] => []
  | line :: lines => (first ++ line) :: lines.map (others ++ ·)

/-- The lines of the causes: numbered where there are several. -/
def causeLines : List String → List String
  | [cause] => indented "    " "    " cause
  | causes => (causes.zipIdx.map fun (cause, i) =>
      indented ("    " ++ toString i ++ ": ") "       " cause).flatten

/-- The lines that tell a failure. -/
def lines (f : Failure) : List String :=
  indented "Error: " "" f.context ++ ["", "Caused by:"] ++ causeLines f.causes

end Failure

end Milestone.Command
