import Milestone.Proofs.Checklist.OverrideKeys
import Milestone.Proofs.Template.Fresh

/-!
# Marks of manual progress in a tick

A group of statistics and its criteria are marked as set by hand. A tick that reads the statistics takes these
marks from the overrides of the saved state alone, and any other tick leaves them as they were. So the marks
always show the overrides of some saved state, but not always those of the present one. A tick that enters
another world clears the overrides before its passes run.
-/

namespace Milestone

open Json

namespace Category

/-- Neither a group of statistics nor any of its criteria is marked as set by hand. -/
structure IsUnmarked (c : Category) : Prop where
  manual : c.manual = false
  criteria : ∀ item ∈ c.criteria, item.manual = false

/-- A group of statistics and its criteria are marked as the overrides of a saved state say. -/
structure ShowsOverrides (c : Category) (state : SavedState) : Prop where
  manual : c.manual = state.override c.name
  criteria : ∀ item ∈ c.criteria, item.manual = (c.hasOwnOverride state item || state.override c.name)

variable {c : Category} {state : SavedState}

/-- The pass marks a group as the overrides say, whatever it was marked as before. -/
theorem showsOverrides_updateStatistic (era : Era) (doc : Value) (b : Baseline) (state : SavedState)
    (c : Category) : (c.updateStatistic era doc b state).ShowsOverrides state where
  manual := rfl
  criteria item hitem := by
    obtain ⟨old, -, rfl⟩ := List.mem_map.mp hitem
    simp only [updateCriterion, hasOwnOverride, updateStatistic, List.length_map]

/-- Such marks are missing exactly if no override under a key of the group is set. -/
theorem ShowsOverrides.isUnmarked_iff (h : c.ShowsOverrides state) :
    c.IsUnmarked ↔ ∀ key ∈ c.overrideKeys, state.override key = false := by
  constructor
  · intro hunmarked key hkey
    rcases mem_overrideKeys_iff.mp hkey with rfl | ⟨hseveral, item, hitem, rfl⟩
    · rw [← h.manual, hunmarked.manual]
    · have hitem := (h.criteria item hitem).symm.trans (hunmarked.criteria item hitem)
      rw [Bool.or_eq_false_iff, hasOwnOverride, if_neg hseveral] at hitem
      exact hitem.1
  · intro hunset
    have hgroup : state.override c.name = false := hunset c.name (mem_overrideKeys_iff.mpr (.inl rfl))
    refine ⟨h.manual.trans hgroup, fun item hitem => ?_⟩
    rw [h.criteria item hitem, hgroup, Bool.or_false, hasOwnOverride]
    split
    · exact hgroup
    · rename_i hseveral
      exact hunset _ (mem_overrideKeys_iff.mpr (.inr ⟨hseveral, item, hitem, rfl⟩))

/-- A group without marks shows the overrides of a state that has none. -/
theorem IsUnmarked.showsOverrides (h : c.IsUnmarked) (hunset : ∀ key, state.override key = false) :
    c.ShowsOverrides state := by
  refine ⟨by rw [h.manual, hunset], fun item hitem => ?_⟩
  simp only [h.criteria item hitem, hasOwnOverride, hunset, ite_self, Bool.or_self]

/-- A new group has no marks. -/
theorem IsFresh.isUnmarked (h : c.IsFresh) : c.IsUnmarked :=
  ⟨h.manual, fun item hitem => (h.criteria item hitem).manual⟩

end Category

/-- A template is read without marks. -/
theorem Template.isUnmarked_of_read {text : String} {names : DisplayNames} {c : Checklist}
    (h : read text names = .ok c) : ∀ group ∈ c.statistics, group.IsUnmarked :=
  fun group hgroup => ((isFresh_of_read h).1.statistics group hgroup).isUnmarked

section Empty

variable {state : SavedState}

/-- Without overrides none is set. -/
theorem SavedState.override_of_empty (h : state.overrides = ∅) (key : String) :
    state.override key = false := by
  rw [override, h, Keyed.get?_empty, Option.getD_none]

/-- Without overrides the pass marks nothing as set by hand. -/
theorem Category.isUnmarked_updateStatistic (h : state.overrides = ∅) (era : Era) (doc : Value)
    (b : Baseline) (c : Category) : (c.updateStatistic era doc b state).IsUnmarked :=
  (showsOverrides_updateStatistic era doc b state c).isUnmarked_iff.mpr fun key _ =>
    SavedState.override_of_empty h key

/-- Without recorded values no custom goal is marked as set by hand. -/
theorem Item.manual_updateCustom_of_empty (h : state.custom = ∅) (item : Item) :
    (item.updateCustom state).manual = false := by
  have hvalue : state.customValue? item.name = none := by
    rw [SavedState.customValue?, h, Keyed.get?_empty]
  rw [updateCustom, hvalue]
  rfl

end Empty

section Tick

variable {version : Version} {now : Instant} {s : Sources} {c : Checklist} {state : SavedState}

/-- A tick that enters another world clears the manual progress in the saved state. -/
theorem tick_state_of_worldChanged (h : (tick version now s c state).report.worldChanged = true) :
    (tick version now s c state).state.manual = (∅, ∅) := by
  rw [tick_manual, Report.clearsManual, h, Bool.true_or, if_pos rfl]

/-- Then no custom goal is marked as set by hand, since their pass always runs. -/
theorem tick_custom_of_worldChanged (h : (tick version now s c state).report.worldChanged = true) :
    ∀ g ∈ (tick version now s c state).checklist.custom, g.manual = false := by
  intro g hg
  rw [tick_custom] at hg
  obtain ⟨old, -, rfl⟩ := List.mem_map.mp hg
  exact old.manual_updateCustom_of_empty (Prod.mk.inj (tick_state_of_worldChanged h)).2

/-- A tick that reads the statistics marks them as the overrides of the state say that it leaves. -/
theorem tick_showsOverrides (hread : (s.readStatistics version.era).isSome = true) :
    ∀ group ∈ (tick version now s c state).checklist.statistics,
      group.ShowsOverrides (tick version now s c state).state := by
  intro group hgroup
  obtain ⟨doc, hdoc⟩ := Option.isSome_iff_exists.mp hread
  rw [tick_statistics] at hgroup
  obtain ⟨old, -, rfl⟩ := List.mem_map.mp hgroup
  simp only [Category.tickStatistic, hdoc]
  exact Category.showsOverrides_updateStatistic version.era doc _ _ old

/-- Such a tick leaves no mark if the state that it leaves has no override set. -/
theorem tick_isUnmarked_of_unset (hread : (s.readStatistics version.era).isSome = true)
    (hunset : ∀ key, (tick version now s c state).state.override key = false) :
    ∀ group ∈ (tick version now s c state).checklist.statistics, group.IsUnmarked :=
  fun group hgroup => (tick_showsOverrides hread group hgroup).isUnmarked_iff.mpr fun key _ => hunset key

end Tick

end Milestone
