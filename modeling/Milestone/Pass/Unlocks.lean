import Milestone.Checklist.Item
import Milestone.Snapshot.Lookup

/-!
# The unlocks pass

Brings unlocks up to date with the unlocks document.
-/

namespace Milestone

/-- An unlock brought up to date. -/
def Item.updateUnlock (doc : Json.Value) (item : Item) : Item :=
  let obtained := isObtained doc item.name
  { item with done := obtained, progress := .ofFlag obtained }

end Milestone
