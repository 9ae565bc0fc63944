import Milestone.Counter
import Milestone.Text.Blank
import Milestone.Text.Numeral

/-!
# Values of custom goals

What a player records for a custom goal: a flag or a count. Main fact: the text of a value is read
back as that value.
-/

namespace Milestone

/-- The recorded value of a custom goal. -/
inductive CustomValue where
  | flag (b : Bool)
  | count (n : Counter)
  deriving DecidableEq, Inhabited

namespace CustomValue

/-- The characters of a value. -/
def chars : CustomValue → List Char
  | flag true => ['t', 'r', 'u', 'e']
  | flag false => ['f', 'a', 'l', 's', 'e']
  | count n => Text.signedDigits n.value

/-- The text of a value. -/
def text (v : CustomValue) : String :=
  String.ofList v.chars

/-- The value of characters without blanks around them. -/
def ofTrimmed? (cs : List Char) : Option CustomValue :=
  if cs = ['t', 'r', 'u', 'e'] then some (flag true)
  else if cs = ['f', 'a', 'l', 's', 'e'] then some (flag false)
  else ((Text.integer? cs).bind Counter.ofInt?).map count

/-- The value that a text names, blanks around it aside. -/
def ofText? (s : String) : Option CustomValue :=
  ofTrimmed? (Text.trimmed s.toList)

/-- The text of the error for a text that names no value. -/
def invalidMessage (s : String) : String :=
  "invalid custom progress value '" ++ s ++ "': expected true, false or an integer"

/-- A value is read back from its characters. -/
@[simp] theorem ofTrimmed?_chars (v : CustomValue) : ofTrimmed? v.chars = some v := by
  match v with
  | flag true => rfl
  | flag false => rfl
  | count n =>
    have h (word : List Char) (hw : Text.integer? word = none) :
        Text.signedDigits n.value ≠ word := fun e => by
      rw [← e, Text.integer?_signedDigits] at hw; cases hw
    simp [ofTrimmed?, chars, h _ (rfl : Text.integer? ['t', 'r', 'u', 'e'] = none),
      h _ (rfl : Text.integer? ['f', 'a', 'l', 's', 'e'] = none), Text.integer?_signedDigits]

end CustomValue

end Milestone
