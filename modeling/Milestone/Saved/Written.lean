import Milestone.Instant.Written
import Milestone.Json.Outline
import Milestone.Json.Record
import Milestone.Saved.State

/-!
# The written state

The saved state as a JSON text: the fields in a fixed order and the entries of each map by key. Every
field may be left out when it is read.
-/

namespace Milestone

open Json

/-- A text, or null for none. -/
def outlineText : Option String → Outline
  | some s => .string s
  | none => .null

/-- The entries of a map as the members of an object. -/
def outlineMap {α : Type} (write : α → Outline) (m : Keyed α) : Outline :=
  .object (m.entries.map fun (key, x) => (key, write x))

/-- The map that the members of an object describe. -/
def mapOf? {α : Type} (read : Tree → Option α) (t : Tree) : Option (Keyed α) :=
  (entriesOf? read t).map .ofList

namespace CustomValue

/-- What is written for a value: a Boolean for a flag, a number for a count. -/
def outline : CustomValue → Outline
  | flag b => .bool b
  | count n => .counter n

/-- The value that a tree shows. A Boolean is never read as a count. -/
def ofTree? (t : Tree) : Option CustomValue :=
  match bool? t with
  | some b => some (flag b)
  | none => (counter? t).map count

end CustomValue

namespace Baseline

/-- What is written for a baseline: all its fields in a fixed order. -/
def outline (b : Baseline) : Outline :=
  .object [
    ("world_name", outlineText b.world),
    ("playtime", .counter b.playTime),
    ("captured_at", outlineText (b.capturedAt.map (·.text))),
    ("initial_progress", outlineMap .counter b.counters),
    ("earned_before", outlineMap .bool b.earned)]

/-- The baseline that a tree describes, with defaults for what it leaves out. -/
def ofTree? (t : Tree) : Option Baseline := do
  let fields ← fields?
    ["world_name", "playtime", "captured_at", "initial_progress", "earned_before"] t
  return {
    world := ← field? fields "world_name" none (orNull? text?)
    playTime := ← field? fields "playtime" 0 counter?
    capturedAt := ← field? fields "captured_at" none
      (orNull? fun t => (text? t).bind Instant.ofText?)
    counters := ← field? fields "initial_progress" ∅ (mapOf? counter?)
    earned := ← field? fields "earned_before" ∅ (mapOf? bool?) }

end Baseline

namespace SavedState

/-- What is written for a saved state: all its fields in a fixed order. -/
def outline (s : SavedState) : Outline :=
  .object [
    ("stat_overrides", outlineMap .bool s.overrides),
    ("custom_progress", outlineMap CustomValue.outline s.custom),
    ("legacy_snapshot", s.baseline.outline),
    ("last_world_name", outlineText s.world)]

/-- The text of a state. -/
def text (s : SavedState) : String :=
  s.outline.text

/-- The saved state that a tree describes, with defaults for what it leaves out. -/
def ofTree? (t : Tree) : Option SavedState := do
  let fields ← fields?
    ["stat_overrides", "custom_progress", "legacy_snapshot", "last_world_name"] t
  return {
    overrides := ← field? fields "stat_overrides" ∅ (mapOf? bool?)
    custom := ← field? fields "custom_progress" ∅ (mapOf? CustomValue.ofTree?)
    baseline := ← field? fields "legacy_snapshot" .empty Baseline.ofTree?
    world := ← field? fields "last_world_name" none (orNull? text?) }

/-- The state of a text. -/
def read? (text : String) : Option SavedState :=
  (Tree.read? text).bind ofTree?

end SavedState

end Milestone
