import Milestone.Proofs.Tick.Entries

/-!
# Runs of ticks

A run is a sequence of ticks on any sources, with the edits of a player and the loading of other templates
between them. A run that captures no baseline ends with the one with which it started.
-/

namespace Milestone

/-- A change that a player makes to the manual progress. -/
inductive SavedState.Edit where
  | setOverride (key : String) (value : Bool)
  | clearOverride (key : String)
  | setCustom (key : String) (value : CustomValue)

/-- The state after an edit. -/
def SavedState.edit (s : SavedState) : Edit → SavedState
  | .setOverride key value => s.setOverride key value
  | .clearOverride key => s.clearOverride key
  | .setCustom key value => s.setCustom key value

/-- Edits concern the manual progress alone. -/
@[simp] theorem SavedState.edit_baseline (s : SavedState) (e : Edit) :
    (s.edit e).baseline = s.baseline := by
  cases e <;> rfl

@[simp] theorem SavedState.edit_world (s : SavedState) (e : Edit) : (s.edit e).world = s.world := by
  cases e <;> rfl

/-- Where a tracking stands between ticks: a checklist and the saved state that belongs to it. -/
structure Standing where
  checklist : Checklist
  state : SavedState

/-- One move of a run. -/
inductive Move where
  | tick (now : Instant) (sources : Sources)
  /-- A player changes the saved state. -/
  | edit (edit : SavedState.Edit)
  /-- Another checklist takes the place of the one that was tracked. -/
  | replace (checklist : Checklist)

namespace Standing

variable (version : Version)

/-- Where a tracking stands after a tick. -/
def afterTick (st : Standing) (now : Instant) (s : Sources) : Standing :=
  ⟨(tick version now s st.checklist st.state).checklist,
    (tick version now s st.checklist st.state).state⟩

/-- Where a tracking stands after a move. -/
def move (st : Standing) : Move → Standing
  | .tick now s => st.afterTick version now s
  | .edit e => { st with state := st.state.edit e }
  | .replace c => { st with checklist := c }

/-- Where a tracking stands after a run. -/
def run (st : Standing) (moves : List Move) : Standing :=
  moves.foldl (move version) st

/-- What the ticks of a run report, in their order. -/
def reports : Standing → List Move → List Report
  | _, [] => []
  | st, .tick now s :: rest =>
    (tick version now s st.checklist st.state).report :: reports (st.afterTick version now s) rest
  | st, .edit e :: rest => reports (st.move version (.edit e)) rest
  | st, .replace c :: rest => reports (st.move version (.replace c)) rest

variable {version}

/-- A tick that captures no baseline keeps the one that there is. -/
theorem afterTick_baseline {st : Standing} {now : Instant} {s : Sources}
    (h : (tick version now s st.checklist st.state).report.baselineCaptured = false) :
    (st.afterTick version now s).state.baseline = st.state.baseline := by
  rw [tick_baselineCaptured] at h
  rw [afterTick, tick_state_baseline, Baseline.renewed_of_not_captures h]

/-- A run that captures no baseline keeps the one that there is. -/
theorem run_baseline {st : Standing} {moves : List Move}
    (h : ∀ r ∈ st.reports version moves, r.baselineCaptured = false) :
    (st.run version moves).state.baseline = st.state.baseline := by
  induction moves generalizing st with
  | nil => rfl
  | cons m rest ih =>
    rw [run, List.foldl_cons]
    cases m with
    | tick now s =>
      have hrest := ih fun r hr => h r (List.mem_cons_of_mem _ hr)
      exact hrest.trans (afterTick_baseline (h _ List.mem_cons_self))
    | edit e => exact (ih h).trans (SavedState.edit_baseline _ e)
    | replace c => exact ih h

end Standing

end Milestone
