import Milestone.Proofs.Template.Fresh
import Milestone.Proofs.Tick.Entries

/-!
# Consistent entries

The progress of an entry is kept in several fields: counts, marks for done, and marks that a player has set.
This file says how they belong together, for each kind of entry, and proves it of new entries and of what a
tick makes of an entry. A pass that does not run leaves the entry alone, so the facts about an entry must
not speak of any document.
-/

namespace Milestone

open Json

/-- An item with a target is done by its progress or because a player said so. -/
def Item.IsMarked (item : Item) : Prop :=
  item.done = true ↔ (0 < item.target ∧ item.target ≤ item.progress) ∨ item.manual = true

/-- A switch has one step of progress if it is on. -/
def Item.IsSwitch (item : Item) : Prop :=
  item.progress = .ofFlag item.done

/-- What every category keeps: the number of its criteria that are done, and its own marks. -/
structure Category.IsCounted (c : Category) : Prop where
  completed : c.completed = countDone c.criteria
  done_of_allMet : c.allMet = true → c.done = true
  done_of_manual : c.manual = true → c.done = true

/-- An advancement and its criteria are done by documents alone. -/
structure Category.IsConsistentAdvancement (c : Category) : Prop extends c.IsCounted where
  manual : c.manual = false
  criteria_manual : ∀ item ∈ c.criteria, item.manual = false

/-- A group of statistics is done with all its criteria or because a player said so. -/
structure Category.IsConsistentStatistic (c : Category) : Prop extends c.IsCounted where
  criteria : ∀ item ∈ c.criteria, item.IsMarked
  allMet_iff : c.allMet = true ↔ c.criteria ≠ [] ∧ ∀ item ∈ c.criteria, item.done = true
  done_iff : c.done = true ↔ c.allMet = true ∨ c.manual = true

/-- An unlock is a switch that only a document turns on. -/
structure Item.IsConsistentUnlock (item : Item) : Prop where
  progress : item.IsSwitch
  manual : item.manual = false

/-- A custom goal is a switch, or done by its progress or because a player said so. -/
structure Item.IsConsistentCustom (item : Item) : Prop where
  target : -1 ≤ item.target.value
  marked : item.target ≠ 0 → item.IsMarked
  switch : item.target = 0 → item.IsSwitch
  done_of_manual : item.manual = true → item.done = true

/-- A staged goal stands at one of its stages, and not past the first one that nothing completes. -/
structure StagedGoal.IsConsistent (goal : StagedGoal) : Prop where
  closed : goal.IsClosed
  current_le_steps : goal.current ≤ goal.steps
  current_le_manual : goal.current ≤ goal.stages.findIdx (·.isManual)

/-- A checklist with entries whose fields belong together. -/
structure Checklist.IsConsistent (c : Checklist) : Prop where
  advancements : ∀ a ∈ c.advancements, a.IsConsistentAdvancement
  statistics : ∀ s ∈ c.statistics, s.IsConsistentStatistic
  unlocks : ∀ u ∈ c.unlocks, u.IsConsistentUnlock
  custom : ∀ g ∈ c.custom, g.IsConsistentCustom
  goals : ∀ g ∈ c.goals, g.IsConsistent

/-- A target is reached if it is positive and the progress is no lower. -/
theorem Item.isReached_iff {item : Item} :
    item.isReached = true ↔ 0 < item.target ∧ item.target ≤ item.progress := by
  simp only [isReached, isBounded, Bool.and_eq_true, decide_eq_true_eq]

/-- What a player has set stands. -/
theorem Item.IsMarked.done_of_manual {item : Item} (h : item.IsMarked) (hmanual : item.manual = true) :
    item.done = true :=
  h.mpr (.inr hmanual)

/-- The last stage bounds the first one that nothing completes. -/
theorem StagedGoal.isConsistent_of_closed {goal : StagedGoal} (h : goal.IsClosed)
    (hcurrent : goal.current ≤ goal.stages.findIdx (·.isManual)) : goal.IsConsistent := by
  obtain ⟨stage, hlast, hmanual⟩ := h
  have hlt : goal.stages.findIdx (·.isManual) < goal.stages.length :=
    List.findIdx_lt_length_of_exists ⟨stage, List.mem_of_getLast? hlast, hmanual⟩
  refine ⟨⟨stage, hlast, hmanual⟩, ?_, hcurrent⟩
  unfold steps
  omega

section Fresh

/-- None of the criteria of a new category is done. -/
theorem Category.IsFresh.isCounted {c : Category} (h : c.IsFresh) : c.IsCounted where
  completed := by
    rw [h.completed, eq_comm, countDone, List.countP_eq_zero]
    intro item hitem
    rw [(h.criteria item hitem).done]
    exact Bool.false_ne_true
  done_of_allMet hmet := by rw [h.allMet] at hmet; cases hmet
  done_of_manual hmanual := by rw [h.manual] at hmanual; cases hmanual

/-- A new item has not reached any target. -/
theorem Item.IsFresh.isMarked {item : Item} (h : item.IsFresh) : item.IsMarked := by
  unfold IsMarked
  rw [h.done, h.manual, h.progress]
  simp only [Counter.lt_def, Counter.le_def, Counter.value_zero, Bool.false_eq_true, or_false,
    false_iff]
  omega

/-- A new item is off, and shows so. -/
theorem Item.IsFresh.isSwitch {item : Item} (h : item.IsFresh) : item.IsSwitch := by
  unfold IsSwitch
  rw [h.done, h.progress]
  rfl

/-- A new advancement is consistent. -/
theorem Category.IsFresh.isConsistentAdvancement {c : Category} (h : c.IsFresh) :
    c.IsConsistentAdvancement where
  toIsCounted := h.isCounted
  manual := h.manual
  criteria_manual item hitem := (h.criteria item hitem).manual

/-- A new group of statistics is consistent. -/
theorem Category.IsFresh.isConsistentStatistic {c : Category} (h : c.IsFresh) :
    c.IsConsistentStatistic where
  toIsCounted := h.isCounted
  criteria item hitem := (h.criteria item hitem).isMarked
  allMet_iff := by
    rw [h.allMet]
    constructor
    · intro hmet
      cases hmet
    · rintro ⟨hne, hdone⟩
      obtain ⟨item, hitem⟩ := List.exists_mem_of_ne_nil _ hne
      rw [← hdone item hitem, (h.criteria item hitem).done]
  done_iff := by simp only [h.done, h.allMet, h.manual, or_self]

/-- A new unlock is consistent. -/
theorem Item.IsFresh.isConsistentUnlock {item : Item} (h : item.IsFresh) :
    item.IsConsistentUnlock :=
  ⟨h.isSwitch, h.manual⟩

/-- A new custom goal is consistent, if its target was checked. -/
theorem Item.IsFresh.isConsistentCustom {item : Item} (h : item.IsFresh)
    (htarget : -1 ≤ item.target.value) : item.IsConsistentCustom :=
  ⟨htarget, fun _ => h.isMarked, fun _ => h.isSwitch, h.isMarked.done_of_manual⟩

/-- A checklist that was read from a template is consistent. -/
theorem Checklist.isConsistent_of_read {text : String} {names : DisplayNames} {c : Checklist}
    (h : Template.read text names = .ok c) : c.IsConsistent := by
  obtain ⟨hfresh, htarget, hclosed⟩ := Template.isFresh_of_read h
  constructor
  · exact fun a ha => (hfresh.advancements a ha).isConsistentAdvancement
  · exact fun s hs => (hfresh.statistics s hs).isConsistentStatistic
  · exact fun u hu => (hfresh.unlocks u hu).isConsistentUnlock
  · exact fun g hg => (hfresh.custom g hg).isConsistentCustom (htarget g hg)
  · intro g hg
    refine StagedGoal.isConsistent_of_closed (hclosed g hg) ?_
    rw [hfresh.current g hg]
    exact Nat.zero_le _

end Fresh

end Milestone
