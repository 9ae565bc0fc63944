import Milestone.Proofs.Checklist.Consistent
import Milestone.Proofs.Tick.Scan
import Milestone.Session.Basic

/-!
# Reached checklists

The checklists that ticks lead to from a template are consistent, whatever the versions, the documents and
the saved states on the way. Each pass establishes the facts about its entries from nothing, but for the
targets and the ends of staged goals, which no pass changes.
-/

namespace Milestone

open Json

/-- The checklists that a template leads to: those that are read, those that take over what a saved state
knows, and those that ticks leave. -/
inductive Checklist.Reached : Checklist → Prop where
  | read {text : String} {names : DisplayNames} {c : Checklist}
      (hread : Template.read text names = .ok c) : Reached c
  | seed (era : Era) (state : SavedState) {c : Checklist} (h : Reached c) :
      Reached (Session.seed era state c)
  | tick (version : Version) (now : Instant) (s : Sources) (state : SavedState) {c : Checklist}
      (h : Reached c) : Reached (tick version now s c state).checklist

namespace Category

variable (era : Era) (doc : Value) (b : Baseline) (state : SavedState) (c : Category)

/-- All criteria are done if as many are done as there are. -/
theorem countDone_eq_length_iff {criteria : List Item} :
    countDone criteria = criteria.length ↔ ∀ item ∈ criteria, item.done = true :=
  List.countP_eq_length

/-- The pass leaves a consistent advancement of any one. -/
theorem isConsistentAdvancement_updateAdvancement :
    (c.updateAdvancement era doc b).IsConsistentAdvancement where
  completed := rfl
  done_of_allMet hmet := by
    simp only [updateAdvancement] at hmet ⊢
    rw [hmet, Bool.or_true]
  done_of_manual hmanual := by cases hmanual
  manual := rfl
  criteria_manual item hitem := by
    obtain ⟨old, -, rfl⟩ := List.mem_map.mp hitem
    rfl

/-- The pass marks a criterion by its progress and the overrides. -/
theorem isMarked_updateCriterion (item : Item) :
    (c.updateCriterion era doc b state item).IsMarked := by
  simp only [Item.IsMarked, updateCriterion, Bool.or_eq_true, Item.isReached_iff]

/-- The pass leaves a consistent group of any one. -/
theorem isConsistentStatistic_updateStatistic :
    (c.updateStatistic era doc b state).IsConsistentStatistic where
  completed := rfl
  done_of_allMet hmet := by
    simp only [updateStatistic] at hmet ⊢
    rw [hmet, Bool.true_or]
  done_of_manual hmanual := by
    simp only [updateStatistic] at hmanual ⊢
    rw [hmanual, Bool.or_true]
  criteria item hitem := by
    obtain ⟨old, -, rfl⟩ := List.mem_map.mp hitem
    exact c.isMarked_updateCriterion era doc b state old
  allMet_iff := by
    generalize hnew : c.updateStatistic era doc b state = new
    have hmet : new.allMet =
        (!new.criteria.isEmpty && countDone new.criteria == new.criteria.length) := by
      rw [← hnew]
      rfl
    rw [hmet, Bool.and_eq_true, Bool.not_eq_true', List.isEmpty_eq_false_iff, beq_iff_eq,
      countDone_eq_length_iff]
  done_iff := by simp only [updateStatistic, Bool.or_eq_true]

end Category

/-- The pass keeps an unlock consistent. -/
theorem Item.isConsistentUnlock_updateUnlock (doc : Value) {item : Item}
    (h : item.IsConsistentUnlock) : (item.updateUnlock doc).IsConsistentUnlock :=
  ⟨rfl, h.manual⟩

/-- A goal whose target is neither 0 nor -1 has a positive one. -/
theorem Counter.zero_lt_of_ne {target : Counter} (hzero : target ≠ 0) (hfree : target.value ≠ -1)
    (hle : -1 ≤ target.value) : 0 < target := by
  have hvalue : target.value ≠ 0 := fun h => hzero (Counter.ext h)
  rw [Counter.lt_def, Counter.value_zero]
  omega

/-- A goal with a target is done from a positive target on, and by the flag that sets it. -/
theorem customProgress_marked {target : Counter} (hzero : target ≠ 0) (hle : -1 ≤ target.value)
    (value : Option CustomValue) :
    (customProgress target value).2.1 = true ↔
      (0 < target ∧ target ≤ (customProgress target value).1) ∨
        (customProgress target value).2.2 = true := by
  cases value with
  | none =>
    simp only [customProgress, Counter.lt_def, Counter.le_def, Counter.value_zero,
      Bool.false_eq_true, or_false, false_iff]
    omega
  | some value =>
    by_cases hfree : target.value = -1
    · have hneg : ¬0 < target := by
        rw [Counter.lt_def, Counter.value_zero]
        omega
      rcases value with (_ | _) | n <;> simp [customProgress, hzero, hfree, hneg]
    · have hpos := Counter.zero_lt_of_ne hzero hfree hle
      rcases value with (_ | _) | n
      · simp only [customProgress, if_neg hzero, if_neg hfree, Counter.le_def, Counter.value_zero,
          Bool.false_eq_true, or_false, false_iff]
        rw [Counter.lt_def, Counter.value_zero] at hpos
        omega
      · simp only [customProgress, if_neg hzero, if_neg hfree, or_true]
      · simp only [customProgress, if_neg hzero, if_neg hfree, decide_eq_true_eq,
          Bool.false_eq_true, or_false, hpos, true_and]

/-- A switch shows whether it is on, and is never set by hand. -/
theorem customProgress_switch (value : Option CustomValue) :
    (customProgress 0 value).1 = .ofFlag (customProgress 0 value).2.1 ∧
      (customProgress 0 value).2.2 = false := by
  rcases value with _ | b | n
  · exact ⟨rfl, rfl⟩
  · exact ⟨rfl, rfl⟩
  · exact ⟨by simp [customProgress], rfl⟩

/-- The pass keeps a custom goal consistent, whatever value is recorded for it. -/
theorem Item.IsConsistentCustom.updateCustom {item : Item} (h : item.IsConsistentCustom)
    (state : SavedState) : (item.updateCustom state).IsConsistentCustom := by
  refine ⟨h.target, fun hzero => ?_, fun hzero => ?_, fun hmanual => ?_⟩
  · exact customProgress_marked hzero h.target _
  · have htarget : item.target = 0 := hzero
    have hswitch := (customProgress_switch (state.customValue? item.name)).1
    rwa [← htarget] at hswitch
  · by_cases hzero : item.target = 0
    · have hnot := (customProgress_switch (state.customValue? item.name)).2
      rw [← hzero] at hnot
      have hset : (customProgress item.target (state.customValue? item.name)).2.2 = true := hmanual
      rw [hnot] at hset
      cases hset
    · exact (customProgress_marked hzero h.target _).mpr (.inr hmanual)

namespace StageContext

variable {ctx : StageContext}

/-- A scan keeps the kinds of the stages, and does not go past the first one that nothing completes. -/
theorem scan_spec {stages scanned : List Stage} {reached : Nat}
    (h : ctx.scan stages = some (reached, scanned)) :
    scanned.map (·.isManual) = stages.map (·.isManual) ∧
      reached ≤ stages.findIdx (·.isManual) := by
  obtain ⟨rfl, rfl⟩ := scan_eq_some h
  constructor
  · have hbare := congrArg (List.map (·.isManual)) (ctx.bare_shown stages)
    simpa only [List.map_map, Function.comp_def, isManual_bare] using hbare
  · refine List.findIdx_le_findIdx fun stage _ hmanual => ?_
    rw [Bool.not_eq_true', ← Bool.not_eq_true]
    intro hcomplete
    rw [isManual_of_complete hcomplete] at hmanual
    cases hmanual

/-- The first stage that nothing completes depends on the kinds of the stages alone. -/
theorem findIdx_isManual_congr {stages scanned : List Stage}
    (h : scanned.map (·.isManual) = stages.map (·.isManual)) :
    scanned.findIdx (·.isManual) = stages.findIdx (·.isManual) := by
  have hfind := congrArg (List.findIdx id) h
  simpa only [List.findIdx_map, Function.comp_def, id_eq] using hfind

/-- So does whether the last stage is one of them. -/
theorem isClosed_congr {goal new : StagedGoal}
    (h : new.stages.map (·.isManual) = goal.stages.map (·.isManual)) (hgoal : goal.IsClosed) :
    new.IsClosed := by
  have hlast := congrArg List.getLast? h
  obtain ⟨stage, hstage, hmanual⟩ := hgoal
  rw [List.getLast?_map, List.getLast?_map, hstage, Option.map_some, hmanual] at hlast
  exact Option.map_eq_some_iff.mp hlast

/-- A scan keeps a staged goal consistent. -/
theorem isConsistent_updateGoal (ctx : StageContext) {goal : StagedGoal} (h : goal.IsConsistent) :
    (ctx.updateGoal goal).IsConsistent := by
  cases hscan : ctx.scan goal.stages with
  | none =>
    have hsame : ctx.updateGoal goal = goal := by simp only [updateGoal, hscan]
    rwa [hsame]
  | some result =>
    obtain ⟨reached, scanned⟩ := result
    obtain ⟨hkinds, hle⟩ := scan_spec hscan
    simp only [updateGoal, hscan]
    refine StagedGoal.isConsistent_of_closed (isClosed_congr hkinds h.closed) ?_
    rwa [findIdx_isManual_congr hkinds]

end StageContext

section Tick

variable (era : Era) (s : Sources) (b : Baseline) (state : SavedState)

/-- A tick keeps an advancement consistent, with its document or without. -/
theorem Category.IsConsistentAdvancement.tick {c : Category} (h : c.IsConsistentAdvancement) :
    (c.tickAdvancement era s b).IsConsistentAdvancement := by
  unfold tickAdvancement
  split
  · exact c.isConsistentAdvancement_updateAdvancement era _ b
  · exact h

/-- The same for a group of statistics. -/
theorem Category.IsConsistentStatistic.tick {c : Category} (h : c.IsConsistentStatistic) :
    (c.tickStatistic era s b state).IsConsistentStatistic := by
  unfold tickStatistic
  split
  · exact c.isConsistentStatistic_updateStatistic era _ b state
  · exact h

/-- The same for an unlock. -/
theorem Item.IsConsistentUnlock.tick {item : Item} (h : item.IsConsistentUnlock) :
    (item.tickUnlock s).IsConsistentUnlock := by
  unfold tickUnlock
  split
  · exact isConsistentUnlock_updateUnlock _ h
  · exact h

namespace Checklist

/-- A tick keeps a checklist consistent, whatever it finds. -/
theorem IsConsistent.tick {c : Checklist} (h : c.IsConsistent) (version : Version) (now : Instant) :
    (tick version now s c state).checklist.IsConsistent := by
  rw [tick_checklist]
  constructor
  · intro a ha
    obtain ⟨old, hold, rfl⟩ := List.mem_map.mp ha
    exact (h.advancements old hold).tick version.era s _
  · intro group hgroup
    obtain ⟨old, hold, rfl⟩ := List.mem_map.mp hgroup
    exact (h.statistics old hold).tick version.era s _ _
  · intro u hu
    obtain ⟨old, hold, rfl⟩ := List.mem_map.mp hu
    exact (h.unlocks old hold).tick s
  · intro g hg
    obtain ⟨old, hold, rfl⟩ := List.mem_map.mp hg
    exact (h.custom old hold).updateCustom _
  · intro g hg
    obtain ⟨old, hold, rfl⟩ := List.mem_map.mp hg
    exact StageContext.isConsistent_updateGoal _ (h.goals old hold)

/-- Taking over a saved state concerns no entry. -/
theorem IsConsistent.seed {c : Checklist} (h : c.IsConsistent) :
    (Session.seed era state c).IsConsistent :=
  ⟨h.advancements, h.statistics, h.unlocks, h.custom, h.goals⟩

end Checklist

end Tick

/-- **Reached checklists are consistent.** From every template that is accepted, through every run of ticks
of any versions on any sources and saved states:

* a category counts the criteria that are done, and it is done if all that is asked of it is;
* a criterion of a statistic, and a custom goal that is no switch, is done exactly if it has reached a
  positive target or was set by hand; a custom goal that is a switch has progress 1 if it is on, else 0;
* a group of statistics has met all exactly if it has a criterion and all of them are done, and it is done
  exactly if it has met all or was set by hand;
* what was set by hand is done, and no advancement, criterion of one, or unlock is set by hand;
* an unlock has progress 1 if it is done, else 0;
* a staged goal stands at one of its stages, not past the first one that nothing completes.
-/
theorem isConsistent_of_reached {c : Checklist} (h : c.Reached) : c.IsConsistent := by
  induction h with
  | read hread => exact Checklist.isConsistent_of_read hread
  | seed era state _ ih => exact ih.seed era state
  | tick version now s state _ ih => exact ih.tick s state version now

/-- A player sets a goal of a count by hand before the tick. -/
theorem isConsistent_of_reached_set_by_hand :
    let text := "\x7b\"custom\": [\x7b\"root_name\": \"blocks\", \"target\": 3\x7d]\x7d"
    let c : Checklist := { Checklist.empty with
      custom := [{ Item.new "blocks" "blocks" with target := 3 }] }
    let state : SavedState := SavedState.empty.setCustom "blocks" (.flag true)
    let after := tick ⟨"1.16.5"⟩ ⟨⟨2021, 1, 15, by decide⟩, 0, 0, by decide⟩ .none c state
    Template.read text ∅ = .ok c ∧
      after.checklist.custom.map (fun g => (g.done, g.manual, g.progress)) = [(true, true, 3)] ∧
      after.checklist.IsConsistent := by
  intro text c state after
  have hread : Template.read text ∅ = .ok c := by decide +kernel
  exact ⟨hread, by decide, isConsistent_of_reached (.tick _ _ _ state (.read hread))⟩

end Milestone
