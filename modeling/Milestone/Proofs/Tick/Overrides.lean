import Milestone.Proofs.Checklist.OverrideKeys
import Milestone.Proofs.Tick.Forget

/-!
# What overrides do in a tick

An override says that a group of statistics, or one of its criteria, counts as done. So it concerns the marks
of the groups and what is counted from them, but no progress and no other entry. This file takes those marks
away from a checklist and proves that what is left after a tick depends on no override. The marks themselves
depend on nothing that was recorded before, once the statistics are read.
-/

namespace Milestone

open Json

/-- A criterion without its marks, but with its progress. -/
def Item.unmarked (item : Item) : Item :=
  { item with done := false, manual := false }

/-- A group of statistics without its marks and those of its criteria. -/
def Category.unmarked (c : Category) : Category :=
  { c with
    criteria := c.criteria.map (·.unmarked)
    completed := 0
    done := false
    allMet := false
    manual := false }

/-- A checklist without the marks of its statistics and without what is counted in the end. All other entries,
the progress of the statistics and the play time are left. -/
def Checklist.unmarked (c : Checklist) : Checklist :=
  { c with
    statistics := c.statistics.map (·.unmarked)
    counts := .zero
    percentage := .zero
    totalSteps := 0
    completedSteps := 0 }

namespace SavedState

/-- A saved state without its overrides. -/
def withoutOverrides (s : SavedState) : SavedState :=
  { s with overrides := ∅ }

/-- Saved states that differ at most in the override under one key. -/
structure SameBut (key : String) (a b : SavedState) : Prop where
  rest : a.withoutOverrides = b.withoutOverrides
  override : ∀ k, k ≠ key → a.override k = b.override k

/-- States that are the same but for an override are so both ways. -/
theorem SameBut.symm {key : String} {a b : SavedState} (h : a.SameBut key b) : b.SameBut key a :=
  ⟨h.rest.symm, fun k hk => (h.override k hk).symm⟩

/-- Setting an override changes nothing but that. -/
theorem sameBut_setOverride (s : SavedState) (key : String) (value : Bool) :
    s.SameBut key (s.setOverride key value) :=
  ⟨rfl, fun k hk => by rw [override_setOverride, if_neg hk]⟩

/-- Clearing an override that is not set in the other state makes all of them alike. -/
theorem SameBut.override_clearOverride {key : String} {a b : SavedState} (h : a.SameBut key b)
    (hb : b.override key = false) (k : String) :
    (a.clearOverride key).override k = b.override k := by
  rw [SavedState.override_clearOverride]
  split
  · rename_i heq
    rw [heq, hb]
  · rename_i hne
    exact h.override k hne

end SavedState

namespace Category

variable (era : Era) (doc : Value) (s : Sources) (b : Baseline) (c : Category)

/-- Marks are taken away once and for all. -/
@[simp] theorem unmarked_unmarked : c.unmarked.unmarked = c.unmarked := by
  simp [unmarked, Item.unmarked, Function.comp_def]

/-- Marks are part of the progress. -/
@[simp] theorem bareStatistic_unmarked : c.unmarked.bareStatistic = c.bareStatistic := by
  simp [bareStatistic, unmarked, Item.bare, Item.unmarked, Function.comp_def]

/-- Apart from its marks, the pass makes the same of a group with any overrides. -/
theorem unmarked_updateStatistic (x y : SavedState) :
    (c.updateStatistic era doc b x).unmarked = (c.updateStatistic era doc b y).unmarked := by
  simp [unmarked, updateStatistic, updateCriterion, Item.unmarked, Function.comp_def]

/-- A tick makes the same of a group with any overrides, apart from its marks. -/
theorem unmarked_tickStatistic (x y : SavedState) :
    (c.tickStatistic era s b x).unmarked = (c.tickStatistic era s b y).unmarked := by
  unfold tickStatistic
  split
  · exact c.unmarked_updateStatistic era _ b x y
  · rfl

/-- The marks before do not matter either. -/
theorem unmarked_tickStatistic_unmarked (x : SavedState) :
    (c.unmarked.tickStatistic era s b x).unmarked = (c.tickStatistic era s b x).unmarked := by
  unfold tickStatistic
  split
  · rw [← updateStatistic_bareStatistic, bareStatistic_unmarked, updateStatistic_bareStatistic]
  · exact c.unmarked_unmarked

/-- So what a tick leaves of the groups without their marks depends on no mark and no override. -/
theorem map_unmarked_tickStatistic {groups others : List Category}
    (h : groups.map (·.unmarked) = others.map (·.unmarked)) (x y : SavedState) :
    (groups.map (·.tickStatistic era s b x)).map (·.unmarked) =
      (others.map (·.tickStatistic era s b y)).map (·.unmarked) := by
  have hforgets : groups.map (fun c => (c.tickStatistic era s b y).unmarked) =
      others.map (fun c => (c.tickStatistic era s b y).unmarked) :=
    map_eq_of_forgets (unmarked_tickStatistic_unmarked era s b · y) h
  rw [List.map_map, List.map_map]
  exact (List.map_congr_left fun c _ => c.unmarked_tickStatistic era s b x y).trans hforgets

variable {state other : SavedState}

/-- The mark of a criterion takes the override of its group, and its own one where the group has several. -/
theorem updateCriterion_congr {item : Item} (hgroup : state.override c.name = other.override c.name)
    (hown : c.criteria.length ≠ 1 → state.override (SavedState.criterionKey c.name item.name) =
      other.override (SavedState.criterionKey c.name item.name)) :
    c.updateCriterion era doc b state item = c.updateCriterion era doc b other item := by
  have hsame : c.hasOwnOverride state item = c.hasOwnOverride other item := by
    unfold hasOwnOverride
    split
    · exact hgroup
    · rename_i hseveral
      exact hown hseveral
  simp only [updateCriterion, hsame, hgroup]

/-- Of a saved state the pass reads the overrides under the keys of a group. -/
theorem updateStatistic_congr (h : ∀ key ∈ c.overrideKeys, state.override key = other.override key) :
    c.updateStatistic era doc b state = c.updateStatistic era doc b other := by
  have hgroup : state.override c.name = other.override c.name := h c.name List.mem_cons_self
  have hcriteria : c.criteria.map (c.updateCriterion era doc b state) =
      c.criteria.map (c.updateCriterion era doc b other) := by
    refine List.map_congr_left fun item hitem => ?_
    refine c.updateCriterion_congr era doc b hgroup fun hseveral => h _ (List.mem_cons_of_mem _ ?_)
    rw [if_neg hseveral]
    exact List.mem_map_of_mem hitem
  simp only [updateStatistic, hcriteria, hgroup]

/-- The override of a group stands for all its criteria. -/
theorem updateStatistic_of_override (h : state.override c.name = true) :
    let after := c.updateStatistic era doc b state
    after.done = true ∧ after.manual = true ∧
      ∀ item ∈ after.criteria, item.done = true ∧ item.manual = true := by
  refine ⟨?_, h, fun item hitem => ?_⟩
  · simp only [updateStatistic, h, Bool.or_true]
  · obtain ⟨old, -, rfl⟩ := List.mem_map.mp hitem
    simp only [updateCriterion, h, Bool.or_true, and_self]

/-- The own override of a criterion stands for it, where the group has several. -/
theorem updateCriterion_of_override (hseveral : c.criteria.length ≠ 1) {item : Item}
    (h : state.override (SavedState.criterionKey c.name item.name) = true) :
    (c.updateCriterion era doc b state item).done = true ∧
      (c.updateCriterion era doc b state item).manual = true := by
  simp only [updateCriterion, hasOwnOverride, if_neg hseveral, h, Bool.true_or, Bool.or_true,
    and_self]

end Category

section Tick

variable {version : Version} {now : Instant} {s : Sources}

/-- A tick with the statistics and without a reset marks what is overridden as done: a group with all its
criteria, and in a group of several any criterion. -/
theorem tick_of_override {c : Checklist} {state : SavedState} {doc : Value}
    (hdoc : s.readStatistics version.era = some doc)
    (hkept : (tick version now s c state).report.clearsManual = false) {group : Category}
    (hgroup : group ∈ (tick version now s c state).checklist.statistics) :
    (state.override group.name = true → group.done = true ∧ group.manual = true ∧
      ∀ item ∈ group.criteria, item.done = true ∧ item.manual = true) ∧
    (group.criteria.length ≠ 1 → ∀ item ∈ group.criteria,
      state.override (SavedState.criterionKey group.name item.name) = true →
        item.done = true ∧ item.manual = true) := by
  have hmanual := tick_manual version now s c state
  rw [hkept] at hmanual
  have hoverride (key : String) : (tick version now s c state).state.override key = state.override key := by
    rw [SavedState.override, (Prod.mk.inj hmanual).1]
    rfl
  rw [tick_statistics] at hgroup
  obtain ⟨old, -, rfl⟩ := List.mem_map.mp hgroup
  simp only [Category.tickStatistic, hdoc, ← hoverride]
  refine ⟨fun h => old.updateStatistic_of_override _ _ _ h, fun hseveral item hitem h => ?_⟩
  obtain ⟨before, -, rfl⟩ := List.mem_map.mp hitem
  have hlength : old.criteria.length ≠ 1 := by
    simpa only [Category.updateStatistic, List.length_map] using hseveral
  exact old.updateCriterion_of_override _ _ _ hlength h

variable {c d : Checklist} (h : c.unmarked = d.unmarked) {a b : SavedState}
  (hrest : a.withoutOverrides = b.withoutOverrides)

include h

/-- What is left without the marks is enough to know the entries without their progress. -/
theorem Checklist.bare_eq_of_unmarked : c.bare = d.bare := by
  have hbare (e : Checklist) : e.unmarked.bare = e.bare := by
    simp [bare, unmarked, Function.comp_def]
  rw [← hbare c, h, hbare d]

include hrest

/-- So a tick captures the same baseline, if any. -/
theorem Baseline.renewed_of_unmarked :
    a.baseline.renewed version now s c = b.baseline.renewed version now s d := by
  have hbaseline : a.baseline = b.baseline := congrArg (·.baseline) hrest
  rw [hbaseline, renewed_of_bare_eq (Checklist.bare_eq_of_unmarked h)]

/-- A tick keeps saved states alike but for their overrides. -/
theorem tick_state_withoutOverrides :
    (tick version now s c a).state.withoutOverrides =
      (tick version now s d b).state.withoutOverrides := by
  have hworld : c.world = d.world := congrArg (·.world) h
  have hbaseline : a.baseline = b.baseline := congrArg (·.baseline) hrest
  have hcustom : a.custom = b.custom := congrArg (·.custom) hrest
  have hbefore : a.world = b.world := congrArg (·.world) hrest
  simp only [SavedState.withoutOverrides, tick_state, s.clearsProgress_congr hworld,
    s.entersWorld_congr hworld, hbaseline, hcustom, hbefore,
    Baseline.renewed_of_bare_eq (Checklist.bare_eq_of_unmarked h)]

/-- An override that is the same before is the same afterwards. -/
theorem tick_override_congr {key : String} (hkey : a.override key = b.override key) :
    (tick version now s c a).state.override key = (tick version now s d b).state.override key := by
  have hworld : c.world = d.world := congrArg (·.world) h
  have hbaseline : a.baseline = b.baseline := congrArg (·.baseline) hrest
  simp only [tick_state, SavedState.override, s.clearsProgress_congr hworld, hbaseline] at hkey ⊢
  split
  · rfl
  · exact hkey

omit hrest in
/-- A tick keeps saved states alike but for the override under one key. -/
theorem SavedState.SameBut.tick {key : String} (hstate : a.SameBut key b) :
    (tick version now s c a).state.SameBut key (tick version now s d b).state where
  rest := tick_state_withoutOverrides h hstate.rest
  override k hk := tick_override_congr h hstate.rest (hstate.override k hk)

/-- A tick keeps checklists alike but for the marks of their statistics, whatever overrides there are. -/
theorem tick_unmarked :
    (tick version now s c a).checklist.unmarked = (tick version now s d b).checklist.unmarked := by
  have hcustom : (tick version now s c a).state.custom = (tick version now s d b).state.custom :=
    congrArg (·.custom) (tick_state_withoutOverrides h hrest)
  have hrenewed : a.baseline.renewed version now s c = b.baseline.renewed version now s d :=
    Baseline.renewed_of_unmarked h hrest
  have hadvancements : (tick version now s c a).checklist.advancements =
      (tick version now s d b).checklist.advancements := by
    rw [tick_advancements, tick_advancements, hrenewed]
    exact congrArg _ (congrArg (·.advancements) h)
  have hstatistics : (tick version now s c a).checklist.statistics.map (·.unmarked) =
      (tick version now s d b).checklist.statistics.map (·.unmarked) := by
    rw [tick_statistics, tick_statistics, hrenewed]
    exact Category.map_unmarked_tickStatistic _ _ _ (congrArg (·.statistics) h) _ _
  have hgoals : (tick version now s c a).checklist.goals = (tick version now s d b).checklist.goals := by
    rw [tick_goals, tick_goals]
    simp only [StageContext.ofTick, hadvancements, hrenewed]
    exact congrArg _ (congrArg (·.goals) h)
  simp only [Checklist.unmarked, Checklist.mk.injEq, and_true, true_and, tick_unlocks, tick_custom,
    tick_baseline, tick_world, tick_playTime, hrenewed]
  refine ⟨hadvancements, hstatistics, ?_, ?_, hgoals, ?_, ?_⟩
  · exact congrArg _ (congrArg (·.unlocks) h)
  · have hsame (item : Item) : item.updateCustom (tick version now s c a).state =
        item.updateCustom (tick version now s d b).state := by
      simp only [Item.updateCustom, SavedState.customValue?, hcustom]
    simp only [hsame]
    exact congrArg _ (congrArg (·.custom) h)
  · exact congrArg _ (congrArg (·.world) h)
  · exact congrArg _ (congrArg (·.playTime) h)

/-- Once the statistics are read with the same overrides, no mark from before is left. -/
theorem tick_checklist_of_override_eq {doc : Value} (hdoc : s.readStatistics version.era = some doc)
    (hoverride : ∀ key, a.override key = b.override key) :
    (tick version now s c a).checklist = (tick version now s d b).checklist := by
  have hstatistics : (tick version now s c a).checklist.statistics =
      (tick version now s d b).checklist.statistics := by
    rw [tick_statistics, tick_statistics, Baseline.renewed_of_unmarked h hrest]
    simp only [Category.tickStatistic, hdoc, Category.updateStatistic_congr _ _ _ _ fun key _ =>
      tick_override_congr h hrest (hoverride key)]
    exact map_eq_of_forgets (Category.updateStatistic_bareStatistic _ _ _ _)
      (congrArg (·.statistics) (Checklist.bare_eq_of_unmarked h))
  have hunmarked : (tick version now s c a).checklist.unmarked =
      (tick version now s d b).checklist.unmarked := tick_unmarked h hrest
  rw [← recompute_tick version now s c, ← recompute_tick version now s d]
  exact Checklist.recompute_congr (congrArg (·.advancements) hunmarked) hstatistics
    (congrArg (·.unlocks) hunmarked) (congrArg (·.custom) hunmarked) (congrArg (·.goals) hunmarked)
    (congrArg (·.baseline) hunmarked) (congrArg (·.world) hunmarked)
    (congrArg (·.playTime) hunmarked) version.era

end Tick

end Milestone
