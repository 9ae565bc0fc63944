import Milestone.Json.Reader
import Milestone.Keyed

/-!
# Display names

A map from the paths of template entries to the names to show for them.
-/

namespace Milestone

/-- The names to show, by entry path. -/
abbrev DisplayNames := Keyed String

namespace DisplayNames

/-- The members that are texts. -/
def texts (members : List (String × Json.Value)) : List (String × String) :=
  members.filterMap fun
    | (key, .string s) => some (key, s)
    | _ => none

/-- The display names of a JSON object; members that are no texts are ignored. -/
def read? (text : String) : Option DisplayNames :=
  (Json.Value.read? text).bind fun v => v.members?.map fun ms => .ofList (texts ms)

/-- The name to show: the one under the path, else the declared one, else the entry's own name. -/
def resolve (names : DisplayNames) (path : String) (declared : Option String) (name : String) :
    String :=
  ((names.get? path).or declared).getD name

end DisplayNames

end Milestone
