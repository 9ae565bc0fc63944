import Milestone.Json.Value

/-!
# JSON texts as trees

A tree shows what a JSON text says before it is taken as a value: repeated keys are still there, and
so are parts that only matter when something needs them. A part without a value — a numeral beyond
the greatest double, a text with half a surrogate pair, an object with such a key — is
`unreadable`; whoever ignores it never notices.
-/

namespace Milestone.Json

/-- What a JSON text says, repeated keys included. -/
inductive Tree where
  | null
  | bool (b : Bool)
  | number (n : Number)
  | string (s : String)
  | array (items : List Tree)
  | object (members : List (String × Tree))
  /-- A part of correct form that stands for no value. -/
  | unreadable
  deriving Inhabited

namespace Tree

/-- The number of nested arrays and objects that a value may have. -/
def depthLimit : Nat := 127

mutual

/-- The value that a tree stands for, if no more than `room` arrays and objects are nested. -/
def value? (room : Nat) : Tree → Option Value
  | null => some .null
  | bool b => some (.bool b)
  | number n => some (.number n)
  | string s => some (.string s)
  | array items => if room = 0 then none else (values? (room - 1) items).map .array
  | object members =>
    if room = 0 then none else (entries? (room - 1) members).map (.object <| mergeMembers ·)
  | unreadable => none

/-- The values of a list of trees. -/
def values? (room : Nat) : List Tree → Option (List Value)
  | [] => some []
  | t :: ts => (value? room t).bind fun v => (values? room ts).map (v :: ·)

/-- The values of a list of members, each under its key. -/
def entries? (room : Nat) : List (String × Tree) → Option (List (String × Value))
  | [] => some []
  | (key, t) :: ts => (value? room t).bind fun v => (entries? room ts).map ((key, v) :: ·)

end

end Tree

end Milestone.Json
