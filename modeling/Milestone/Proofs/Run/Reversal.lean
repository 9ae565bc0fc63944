import Milestone.Proofs.Run.Manual
import Milestone.Proofs.Tick.Overrides

/-!
# Overrides taken back

A player sets an override, goes on, and clears it again. This file compares such a run with the one in which
the override was never set. All along the way both know the same but for that override and for the marks that
ticks have taken from it, and the first tick that reads the statistics after the override is cleared takes
those marks back.
-/

namespace Milestone

/-- An edit keeps saved states alike but for the override under one key. -/
theorem SavedState.SameBut.edit {key : String} {a b : SavedState} (h : a.SameBut key b) (e : Edit) :
    (a.edit e).SameBut key (b.edit e) := by
  cases e with
  | setOverride k value =>
    refine ⟨h.rest, fun k' hk' => ?_⟩
    simp only [SavedState.edit, override_setOverride, h.override k' hk']
  | clearOverride k =>
    refine ⟨h.rest, fun k' hk' => ?_⟩
    simp only [SavedState.edit, SavedState.override_clearOverride, h.override k' hk']
  | setCustom k value =>
    have hrest : (a.setCustom k value).withoutOverrides = (b.setCustom k value).withoutOverrides :=
      congrArg (·.setCustom k value) h.rest
    exact ⟨hrest, h.override⟩

namespace Standing

/-- Two trackings that differ at most in the override under one key and in the marks of statistics. -/
structure SameBut (key : String) (st other : Standing) : Prop where
  checklist : st.checklist.unmarked = other.checklist.unmarked
  state : st.state.SameBut key other.state

variable {version : Version} {key : String} {st other : Standing}

/-- A move keeps two trackings the same but for the override and its marks. -/
theorem SameBut.move (h : st.SameBut key other) (m : Move) :
    (st.move version m).SameBut key (other.move version m) := by
  cases m with
  | tick now s =>
    exact ⟨tick_unmarked h.checklist h.state.rest, .tick h.checklist h.state⟩
  | edit e => exact ⟨h.checklist, h.state.edit e⟩
  | replace c => exact ⟨rfl, h.state⟩

/-- So does a run. -/
theorem SameBut.run (h : st.SameBut key other) (moves : List Move) :
    (st.run version moves).SameBut key (other.run version moves) := by
  induction moves generalizing st other with
  | nil => exact h
  | cons m rest ih => exact ih (h.move m)

end Standing

/-- **Overrides stand while they are set and leave nothing behind.** In a known era:

* after every tick that reads the statistics and clears no manual progress, a group whose override is set is
  done and marked as set by hand, with all its criteria, and so is each criterion of a group of several whose
  own override is set;
* two ticks on saved states that differ only in overrides leave the same checklists apart from the marks of
  the statistics and from what is counted: the progress and the play time are the same;
* take an override that is not set. If it is set, to any value, and cleared after a run in which nobody else
  sets it, then a tick that reads the statistics leaves the same checklist as after the same run without it.
-/
theorem overrides_stand_and_revert (version : Version) (hera : version.era.isKnown = true) :
    (∀ (now : Instant) (s : Sources) (c : Checklist) (state : SavedState),
      let t := tick version now s c state
      s.statistics.isSome = true → t.report.clearsManual = false →
        ∀ group ∈ t.checklist.statistics,
          (state.override group.name = true → group.done = true ∧ group.manual = true ∧
            ∀ item ∈ group.criteria, item.done = true ∧ item.manual = true) ∧
          (2 ≤ group.criteria.length → ∀ item ∈ group.criteria,
            state.override (SavedState.criterionKey group.name item.name) = true →
              item.done = true ∧ item.manual = true)) ∧
    (∀ (now : Instant) (s : Sources) (c : Checklist) (a b : SavedState),
      a.withoutOverrides = b.withoutOverrides →
        (tick version now s c a).checklist.unmarked = (tick version now s c b).checklist.unmarked) ∧
    ∀ (start : Standing) (key : String) (value : Bool) (moves : List Move) (now : Instant) (s : Sources),
      start.state.override key = false → (∀ v, .edit (.setOverride key v) ∉ moves) →
        s.statistics.isSome = true →
          let plain := start.run version moves
          let toggled := (start.move version (.edit (.setOverride key value))).run version moves
          ((toggled.move version (.edit (.clearOverride key))).afterTick version now s).checklist =
            (plain.afterTick version now s).checklist := by
  have hread (s : Sources) (hs : s.statistics.isSome = true) :
      ∃ doc, s.readStatistics version.era = some doc := by
    rw [Sources.readStatistics, if_pos hera]
    exact Option.isSome_iff_exists.mp hs
  refine ⟨?_, fun now s c a b => tick_unmarked rfl, ?_⟩
  · intro now s c state t hs hkept group hgroup
    obtain ⟨doc, hdoc⟩ := hread s hs
    obtain ⟨hwhole, hown⟩ := tick_of_override hdoc hkept hgroup
    exact ⟨hwhole, fun hseveral => hown (by omega)⟩
  · intro start key value moves now s hunset hmoves hs plain toggled
    obtain ⟨doc, hdoc⟩ := hread s hs
    have hset : (start.move version (.edit (.setOverride key value))).SameBut key start :=
      ⟨rfl, (start.state.sameBut_setOverride key value).symm⟩
    have halike : toggled.SameBut key plain := hset.run moves
    have hstill : plain.state.override key = false := Standing.override_run hunset (hmoves true)
    exact tick_checklist_of_override_eq halike.checklist halike.state.rest hdoc
      (halike.state.override_clearOverride hstill)

/-- The override of one criterion is set over one tick; the override of the whole group, set meanwhile, stays. -/
theorem overrides_stand_and_revert_on_two_levels :
    let version : Version := ⟨"1.12.2"⟩
    let now : Instant := ⟨⟨2018, 3, 1, by decide⟩, 0, 0, by decide⟩
    let criterion (name : String) : Item :=
      { Item.new name name with target := 5, address := some ⟨name⟩ }
    let start : Standing :=
      ⟨{ Checklist.empty with statistics := [.new "travel" "Travel" [criterion "walk", criterion "swim"]] },
        .empty⟩
    let s : Sources := ⟨some "A", none, some (.object [("walk", .number (.whole 7))]), none⟩
    let key := SavedState.criterionKey "travel" "swim"
    let moves : List Move := [.tick now s, .edit (.setOverride "travel" true), .tick now s]
    let plain := start.run version moves
    let toggled := (start.move version (.edit (.setOverride key true))).run version moves
    let t := tick version now s toggled.checklist toggled.state
    (version.era.isKnown = true ∧ start.state.override key = false ∧
        (∀ v, .edit (.setOverride key v) ∉ moves) ∧ t.report.clearsManual = false) ∧
      (∀ group ∈ t.checklist.statistics, group.name = "travel" →
        ∀ item ∈ group.criteria, item.done = true ∧ item.manual = true) ∧
      ((toggled.move version (.edit (.clearOverride key))).afterTick version now s).checklist =
        (plain.afterTick version now s).checklist := by
  intro version now criterion start s key moves plain toggled t
  have hmoves (v : Bool) : .edit (.setOverride key v) ∉ moves := by
    have hkey : key ≠ "travel" := by decide
    simp [moves, hkey]
  have hkept : t.report.clearsManual = false := by decide
  obtain ⟨hdominates, -, hreverts⟩ := overrides_stand_and_revert version (by decide)
  refine ⟨⟨by decide, rfl, hmoves, hkept⟩, fun group hgroup hname => ?_,
    hreverts start key true moves now s rfl hmoves rfl⟩
  have hset : toggled.state.override group.name = true := by
    rw [hname]
    decide
  exact ((hdominates now s _ _ rfl hkept group hgroup).1 hset).2.2

end Milestone
