import Milestone.Pass.Advancements
import Milestone.Pass.CustomGoals
import Milestone.Pass.Stages
import Milestone.Pass.Statistics
import Milestone.Pass.Unlocks
import Milestone.Progress

/-!
# One tick

A tick brings a checklist up to date with the sources at hand: it notices a change of world, captures a
baseline where counters run through all worlds, runs the passes whose documents are there, and counts.
A change of world and a capture clear the manual progress, and both call for the state to be saved.
-/

namespace Milestone

open Json

namespace Baseline

/-- The counters of a flat document. -/
def countersOf (doc : Value) : Keyed Counter :=
  .ofList ((doc.members?.getD []).filterMap fun (key, v) => v.counter?.map (key, ·))

/-- The names of advancements that a document of lifetime counters reports as done. -/
def earnedIn (checklist : Checklist) (doc : Value) : Keyed Bool :=
  .ofList ((checklist.advancements.filter fun a => Era.legacy.entryDone doc a.name).map
    fun a => (a.name, true))

/-- The baseline of a world, from its first document of lifetime counters. -/
def capture (checklist : Checklist) (world : String) (doc : Value) (version : Version)
    (now : Instant) : Baseline where
  world := some world
  playTime := (Era.legacy.counter? doc ⟨version.playTimeKey⟩).getD 0
  capturedAt := some now
  counters := countersOf doc
  earned := earnedIn checklist doc

end Baseline

/-- What happened in a tick. -/
structure Report where
  era : Era
  world : Option String
  /-- Whether the world is another than the one seen before. -/
  worldChanged : Bool
  baselineCaptured : Bool
  /-- Whether the state changed and could not be saved. -/
  unsaved : Bool
  /-- The kinds of sources whose passes did not run. -/
  skipped : List SourceKind
  percentage : Binary64
  deriving DecidableEq

/-- A checklist with the saved state that belongs to it, and what a tick has found so far. -/
structure Tracked where
  checklist : Checklist
  state : SavedState
  worldChanged : Bool
  baselineCaptured : Bool
  /-- Whether the state differs from what was saved. -/
  dirty : Bool
  deriving DecidableEq

namespace Tracked

/-- Nothing found yet. -/
def start (checklist : Checklist) (state : SavedState) : Tracked :=
  ⟨checklist, state, false, false, false⟩

/-- Takes note of the active world; where another was seen before, manual progress is cleared. -/
def enterWorld (t : Tracked) (world : String) : Tracked :=
  if t.checklist.world = some world then t
  else
    let state := if t.checklist.world.isSome then t.state.resetProgress else t.state
    { t with
      checklist := { t.checklist with world := some world }
      state := { state with world := some world }
      worldChanged := t.checklist.world.isSome
      dirty := true }

/-- Captures the baseline of a world that has none, if its counters are at hand; manual progress is
cleared with it. -/
def captureBaseline (t : Tracked) (version : Version) (world : String)
    (statistics : Option Value) (now : Instant) : Tracked :=
  match statistics with
  | none => t
  | some doc =>
    if version.era = .legacy ∧ t.state.baseline.isNeededFor world then
      let baseline := Baseline.capture t.checklist world doc version now
      { t with
        state := { t.state with baseline := baseline }.resetProgress
        baselineCaptured := true
        dirty := true }
    else t

/-- The part of a tick that may change the state. -/
def detect (t : Tracked) (version : Version) (sources : Sources) (now : Instant) : Tracked :=
  let t := match sources.world with
    | none => t
    | some world => (t.enterWorld world).captureBaseline version world sources.statistics now
  { t with checklist := { t.checklist with baseline := t.state.baseline } }

end Tracked

namespace Checklist

/-- The advancements pass, where its document is there. -/
def passAdvancements (c : Checklist) (era : Era) (sources : Sources) : Checklist :=
  match sources.achievements era with
  | some doc =>
    if era.isKnown then
      { c with advancements := c.advancements.map (·.updateAdvancement era doc c.baseline) }
    else c
  | none => c

/-- The statistics pass with the play time, where its document is there. -/
def passStatistics (c : Checklist) (version : Version) (sources : Sources) (state : SavedState) :
    Checklist :=
  match sources.statistics with
  | some doc =>
    if version.era.isKnown then
      { c with
        statistics := c.statistics.map (·.updateStatistic version.era doc c.baseline state)
        playTime := version.playTime doc c.baseline }
    else c
  | none => c

/-- The unlocks pass, where its document is there. -/
def passUnlocks (c : Checklist) (sources : Sources) : Checklist :=
  match sources.unlocks with
  | some doc => { c with unlocks := c.unlocks.map (·.updateUnlock doc) }
  | none => c

def passCustom (c : Checklist) (state : SavedState) : Checklist :=
  { c with custom := c.custom.map (·.updateCustom state) }

def passGoals (c : Checklist) (era : Era) (sources : Sources) : Checklist :=
  let ctx : StageContext := ⟨era, c.advancements, sources, c.baseline⟩
  { c with goals := c.goals.map ctx.updateGoal }

/-- All passes and the count. -/
def update (c : Checklist) (version : Version) (sources : Sources) (state : SavedState) :
    Checklist :=
  (((((c.passAdvancements version.era sources).passStatistics version sources state).passUnlocks
    sources).passCustom state).passGoals version.era sources).recompute version.era

end Checklist

/-- The outcome of a tick before anything is saved. -/
structure Tick where
  checklist : Checklist
  state : SavedState
  report : Report
  /-- Whether the state is to be saved. -/
  dirty : Bool
  deriving DecidableEq

/-- One tick. Its report says that everything was saved; whoever saves corrects it. -/
def tick (version : Version) (now : Instant) (sources : Sources) (checklist : Checklist)
    (state : SavedState) : Tick :=
  let found := (Tracked.start checklist state).detect version sources now
  let updated := found.checklist.update version sources found.state
  { checklist := updated
    state := found.state
    dirty := found.dirty
    report :=
      { era := version.era
        world := sources.world
        worldChanged := found.worldChanged
        baselineCaptured := found.baselineCaptured
        unsaved := false
        skipped := sources.missing version.era
        percentage := updated.percentage } }

end Milestone
