import Milestone.Checklist.Address
import Milestone.Checklist.Baseline
import Milestone.Snapshot.Document
import Milestone.Version

/-!
# Looking up progress

Where each era keeps achievements, criteria, counters and unlocks in its documents. A document that
lacks what is looked up, or has it in another shape, shows no progress.
-/

namespace Milestone

open Json

namespace Era

/-- Whether a document reports an achievement or advancement as done. -/
def entryDone (era : Era) (doc : Value) (name : String) : Bool :=
  match doc.get? name with
  | none => false
  | some entry =>
    match era with
    | legacy => entry.counter?.any (1 ≤ ·)
    | mid =>
      match entry with
      | .object _ => ((entry.get? "value").bind Value.counter?).any (1 ≤ ·)
      | _ => entry.counter?.any (1 ≤ ·)
    | hybrid | modern => (entry.get? "done").any Value.isTruthy
    | unknown => false

/-- Whether a document lists a criterion as earned under its achievement or advancement. -/
def criterionPresent (era : Era) (doc : Value) (parent criterion : String) : Bool :=
  match doc.get? parent with
  | none => false
  | some entry =>
    match era with
    | mid => ((entry.get? "progress").bind Value.items?).any (·.any (·.isText criterion))
    | hybrid | modern => ((entry.get? "criteria").bind (·.get? criterion)).isSome
    | legacy | unknown => false

/-- The counter that a document has under an address. -/
def counter? (era : Era) (doc : Value) (address : Address) : Option Counter :=
  match era with
  | legacy | mid | hybrid => (doc.get? address.raw).bind Value.counter?
  | modern => do
    let (category, item) ← address.path?
    let statistics ← doc.get? "stats"
    let counters ← statistics.get? category
    (← counters.get? item).counter?
  | unknown => none

/-- The progress of a statistic in the current world. Lifetime counters count from the baseline and
never below zero. -/
def progress (era : Era) (doc : Value) (address : Address) (baseline : Baseline) : Counter :=
  let raw := (era.counter? doc address).getD 0
  match era with
  | legacy => (raw - baseline.counter address.raw).nonNegative
  | _ => raw

end Era

/-- The ticks played in the current world. -/
def Version.playTime (version : Version) (doc : Value) (baseline : Baseline) : Counter :=
  let raw := (version.era.counter? doc ⟨version.playTimeKey⟩).getD 0
  match version.era with
  | .legacy => (raw - baseline.playTime).nonNegative
  | _ => raw

/-- Whether a document lists an unlock as obtained. -/
def isObtained (doc : Value) (name : String) : Bool :=
  match doc.get? "obtained" with
  | some (.object members) => (members.lookup name).any Value.isTruthy
  | some (.array items) => items.any (·.isText name)
  | _ => false

end Milestone
