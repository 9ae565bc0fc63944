import Milestone.Counter
import Milestone.Json.Reader

/-!
# Progress documents

The documents in which the game stores progress are JSON objects. Numbers in them count if they are
whole, whatever their spelling, and move to the nearest end of the counter range beyond it.
-/

namespace Milestone

open Json

/-- Why a progress document cannot be used. -/
inductive DocumentError where
  | malformed
  | notObject
  /-- A file of lifetime counters without its list of changes. -/
  | noChanges
  deriving DecidableEq

/-- The text of an error. -/
def DocumentError.message : DocumentError → String
  | malformed => "invalid JSON"
  | notObject => "snapshot document must be a JSON object"
  | noChanges => "legacy stats file missing 'stats-change' list"

namespace Json

/-- The counter that a number stands for; a number with a fraction stands for none. -/
def Number.counter? : Number → Option Counter
  | .whole n => some (.clamp n)
  | .double x => x.whole?.map .clamp

namespace Value

/-- The counter that a value stands for. -/
def counter? : Value → Option Counter
  | .number n => n.counter?
  | _ => none

/-- Whether a value marks something as done: true, a counter other than zero, any text or object, or
an array with items. -/
def isTruthy : Value → Bool
  | .null => false
  | .bool b => b
  | .number n => n.counter?.any (· != 0)
  | .string _ => true
  | .array items => !items.isEmpty
  | .object _ => true

end Value

end Json

namespace Document

/-- The document of a text. -/
def read (text : String) : Except DocumentError Value :=
  match Value.read? text with
  | none => .error .malformed
  | some (.object members) => .ok (.object members)
  | some _ => .error .notObject

/-- The amounts that one change lists: those of its members that are counters in plain writing. -/
def amounts : Value → List (String × Counter)
  | .object members => members.filterMap fun
    | (key, .number (.whole n)) => (Counter.ofInt? n).map (key, ·)
    | _ => none
  | _ => []

/-- Adds an amount to the total under its key. -/
def addAmount (totals : List (String × Counter)) (key : String) (amount : Counter) :
    List (String × Counter) :=
  match totals with
  | [] => [(key, amount)]
  | (k, n) :: rest =>
    if k = key then (k, n + amount) :: rest else (k, n) :: addAmount rest key amount

/-- The totals of a list of amounts, in the order in which their keys first occur. -/
def sumAmounts (amounts : List (String × Counter)) : List (String × Counter) :=
  amounts.foldl (fun totals a => addAmount totals a.1 a.2) []

/-- A flat document of counters. -/
def ofCounters (totals : List (String × Counter)) : Value :=
  .object (totals.map fun (key, n) => (key, .number (.whole n.value)))

/-- The lifetime counters of a text that lists their changes. -/
def readLifetime (text : String) : Except DocumentError Value := do
  let doc ← read text
  match (doc.get? "stats-change").bind Value.items? with
  | none => throw .noChanges
  | some changes => return ofCounters (sumAmounts (changes.flatMap amounts))

end Document

end Milestone
