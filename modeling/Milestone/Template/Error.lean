import Milestone.Counter
import Milestone.Files.Error

/-!
# Template errors

Why a template cannot be used.
-/

namespace Milestone

/-- What is wrong with a template. -/
inductive TemplateError where
  /-- The file cannot be read. -/
  | unreadable (path : String) (cause : FileError)
  /-- The text is no JSON of the right shape. -/
  | malformed
  | invalidTarget (entry : String) (target : Counter)
  | duplicate (part name : String)
  | noStages (goal : String)
  | unknownStage (goal kind : String)
  | missingField (goal : String) (index : Nat) (field : String)
  deriving DecidableEq

namespace TemplateError

/-- The text of an error. -/
def message : TemplateError → String
  | unreadable path cause => "failed to read template " ++ path ++ ": " ++ cause.message
  | malformed => "invalid template JSON"
  | invalidTarget entry target =>
    "invalid target " ++ toString target.value ++ " for '" ++ entry ++ "'"
  | duplicate part name => "duplicate " ++ part ++ " entry '" ++ name ++ "'"
  | noStages goal => "multi-stage goal '" ++ goal ++ "' has no stages"
  | unknownStage goal kind =>
    "multi-stage goal '" ++ goal ++ "' has unknown stage type '" ++ kind ++ "'"
  | missingField goal index field =>
    "multi-stage goal '" ++ goal ++ "' stage " ++ toString index ++ " is missing '" ++ field ++ "'"

end TemplateError

end Milestone
