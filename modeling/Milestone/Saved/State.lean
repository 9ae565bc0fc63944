import Milestone.Checklist.Baseline
import Milestone.Saved.CustomValue

/-!
# Saved state

What is kept between runs: the manual progress in the current world, the baseline, and the world that
was seen last. Main facts: each edit changes the key it names and no other.
-/

namespace Milestone

/-- Everything that is kept between runs. -/
structure SavedState where
  /-- Statistics that count as done, by category or by criterion key. -/
  overrides : Keyed Bool
  custom : Keyed CustomValue
  baseline : Baseline
  world : Option String
  deriving DecidableEq

namespace SavedState

/-- The state before anything was saved. -/
def empty : SavedState where
  overrides := ∅
  custom := ∅
  baseline := .empty
  world := none

instance : Inhabited SavedState where
  default := empty

/-- The override key of a criterion in a group of statistics. -/
def criterionKey (category criterion : String) : String :=
  category ++ ".criteria." ++ criterion

/-- Whether the override under a key is set. -/
def override (s : SavedState) (key : String) : Bool :=
  (s.overrides.get? key).getD false

/-- The state after an override is set or taken back under a key. -/
def setOverride (s : SavedState) (key : String) (value : Bool) : SavedState :=
  { s with overrides := s.overrides.insert key value }

/-- Whether there is an override under a key, set or not. -/
def hasOverride (s : SavedState) (key : String) : Bool :=
  (s.overrides.get? key).isSome

/-- The state without any override under a key. -/
def clearOverride (s : SavedState) (key : String) : SavedState :=
  { s with overrides := s.overrides.erase key }

/-- The recorded value of a custom goal. -/
def customValue? (s : SavedState) (key : String) : Option CustomValue :=
  s.custom.get? key

/-- The state after a value of a custom goal is recorded. -/
def setCustom (s : SavedState) (key : String) (value : CustomValue) : SavedState :=
  { s with custom := s.custom.insert key value }

/-- The state without manual progress. -/
def resetProgress (s : SavedState) : SavedState :=
  { s with overrides := ∅, custom := ∅ }

/-- Setting an override concerns its own key alone. -/
theorem override_setOverride (s : SavedState) (key : String) (value : Bool) (k : String) :
    (s.setOverride key value).override k = if k = key then value else s.override k := by
  simp only [override, setOverride, Keyed.get?_insert]
  split <;> rfl

/-- Clearing an override concerns its own key alone. -/
theorem override_clearOverride (s : SavedState) (key k : String) :
    (s.clearOverride key).override k = if k = key then false else s.override k := by
  simp only [override, clearOverride, Keyed.get?_erase]
  split <;> rfl

/-- Recording a value concerns its own key alone. -/
theorem customValue?_setCustom (s : SavedState) (key : String) (value : CustomValue) (k : String) :
    (s.setCustom key value).customValue? k = if k = key then some value else s.customValue? k :=
  Keyed.get?_insert ..

end SavedState

end Milestone
