import Mathlib.Data.List.Forall2
import Milestone.Proofs.Checklist.Bare

/-!
# Less progress and more

Of two checklists with the same entries, the first may show at most the progress of the second: whatever is
done in the first is done in the second, and nothing counts more in the first. This file says so for each kind
of entry and proves that the counts and the steps follow their entries: as many steps in all, and at most as
many completed.
-/

namespace Milestone

/-- The count that a stage shows. -/
def Stage.seen? (stage : Stage) : Option Counter :=
  match stage.requirement with
  | .statistic _ _ current => some current
  | _ => none

/-- The same item with at most the progress of another. -/
structure Item.AtMost (a b : Item) : Prop where
  same : a.bare = b.bare
  progress : a.progress ≤ b.progress
  done : a.done = true → b.done = true

/-- The same category with at most the progress of another. -/
structure Category.AtMost (a b : Category) : Prop where
  same : a.bareStatistic = b.bareStatistic
  criteria : List.Forall₂ Item.AtMost a.criteria b.criteria
  completed : a.completed ≤ b.completed
  allMet : a.allMet = true → b.allMet = true
  done : a.done = true → b.done = true

/-- The same goal with at most the progress of another. The counts are compared for the stages up to the one
that the first one stands at, since those after it are left from earlier. -/
structure StagedGoal.AtMost (a b : StagedGoal) : Prop where
  same : a.bare = b.bare
  current : a.current ≤ b.current
  complete : a.isComplete = true → b.isComplete = true
  seen : ∀ i ≤ a.current, ∀ x ∈ a.stages[i]?.bind (·.seen?), ∀ y ∈ b.stages[i]?.bind (·.seen?), x ≤ y

/-- As many entries in a section, and at most as many done. -/
structure SectionCounts.AtMost (a b : SectionCounts) : Prop where
  total : a.total = b.total
  completed : a.completed ≤ b.completed
  visibleTotal : a.visibleTotal = b.visibleTotal
  visibleCompleted : a.visibleCompleted ≤ b.visibleCompleted

/-- Counts of the same sections with at most the progress of others. -/
structure Counts.AtMost (a b : Counts) : Prop where
  advancements : a.advancements.AtMost b.advancements
  recipes : a.recipes.AtMost b.recipes
  statistics : a.statistics.AtMost b.statistics
  unlocks : a.unlocks.AtMost b.unlocks
  custom : a.custom.AtMost b.custom
  staged : a.staged.AtMost b.staged
  criteria : a.criteria = b.criteria
  completedCriteria : a.completedCriteria ≤ b.completedCriteria

/-- As many steps, and at most as many completed. -/
structure Steps.AtMost (a b : Steps) : Prop where
  total : a.total = b.total
  completed : a.completed ≤ b.completed

namespace Checklist

/-- The same entries with at most the progress of others. -/
structure EntriesAtMost (c d : Checklist) : Prop where
  advancements : List.Forall₂ Category.AtMost c.advancements d.advancements
  statistics : List.Forall₂ Category.AtMost c.statistics d.statistics
  unlocks : List.Forall₂ Item.AtMost c.unlocks d.unlocks
  custom : List.Forall₂ Item.AtMost c.custom d.custom
  goals : List.Forall₂ StagedGoal.AtMost c.goals d.goals

/-- The same checklist with at most the progress of another. -/
structure AtMost (c d : Checklist) : Prop extends EntriesAtMost c d where
  counts : c.counts.AtMost d.counts
  totalSteps : c.totalSteps = d.totalSteps
  completedSteps : c.completedSteps ≤ d.completedSteps

end Checklist

section Sums

variable {α β : Type}

/-- Sums are ordered as their parts. -/
theorem sumBy_le_of_forall₂ {f : α → Nat} {g : β → Nat} {xs : List α} {ys : List β}
    (h : List.Forall₂ (fun x y => f x ≤ g y) xs ys) : sumBy f xs ≤ sumBy g ys := by
  induction h with
  | nil => exact Nat.le_refl 0
  | cons hxy _ ih => exact Nat.add_le_add hxy ih

/-- Numbers that are equal one by one have the same sum. -/
theorem sumBy_eq_of_forall₂ {f : α → Nat} {g : β → Nat} {xs : List α} {ys : List β}
    (h : List.Forall₂ (fun x y => f x = g y) xs ys) : sumBy f xs = sumBy g ys := by
  induction h with
  | nil => rfl
  | cons hxy _ ih => rw [sumBy, sumBy, hxy, ih]

/-- At least as many items of a list have a property if each of them has one where the other does. -/
theorem countP_le_of_forall₂ {p : α → Bool} {q : β → Bool} {xs : List α} {ys : List β}
    (h : List.Forall₂ (fun x y => p x = true → q y = true) xs ys) : xs.countP p ≤ ys.countP q := by
  induction h with
  | nil => exact Nat.le_refl 0
  | @cons x y xs ys hxy _ ih =>
    rw [List.countP_cons, List.countP_cons]
    by_cases hx : p x = true
    · rw [if_pos hx, if_pos (hxy hx)]
      exact Nat.add_le_add_right ih 1
    · rw [if_neg hx]
      exact Nat.le_add_right_of_le ih

/-- Lists that satisfy conditions alike one by one satisfy them equally often. -/
theorem countP_eq_of_forall₂ {p : α → Bool} {q : β → Bool} {xs : List α} {ys : List β}
    (h : List.Forall₂ (fun x y => p x = q y) xs ys) : xs.countP p = ys.countP q := by
  induction h with
  | nil => rfl
  | cons hxy _ ih => rw [List.countP_cons, List.countP_cons, hxy, ih]

/-- What is made of the items of one list in two ways is related item by item. -/
theorem forall₂_map_of_forall {r : β → β → Prop} {f g : α → β} {xs : List α}
    (h : ∀ x ∈ xs, r (f x) (g x)) : List.Forall₂ r (xs.map f) (xs.map g) := by
  rw [List.forall₂_map_left_iff, List.forall₂_map_right_iff, List.forall₂_same]
  exact h

end Sums

/-- An item is as far as itself. -/
theorem Item.AtMost.refl (item : Item) : item.AtMost item :=
  ⟨rfl, Int.le_refl _, id⟩

/-- A single step that follows from another has no more completed. -/
theorem Steps.one_atMost {x y : Bool} (h : x = true → y = true) : (one x).AtMost (one y) := by
  refine ⟨rfl, ?_⟩
  cases x with
  | false => exact Nat.zero_le _
  | true =>
    have hy : y = true := h rfl
    subst hy
    exact Nat.le_refl _

/-- At most as many criteria are done. -/
theorem Category.countDone_le {xs ys : List Item} (h : List.Forall₂ Item.AtMost xs ys) :
    countDone xs ≤ countDone ys :=
  countP_le_of_forall₂ (h.imp fun _ _ hxy => hxy.done)

namespace Category

variable {a b : Category}

/-- Whether a group only helps depends on what the template says of it. -/
theorem isHelper_bareStatistic (era : Era) (c : Category) :
    c.bareStatistic.isHelper era = c.isHelper era := by
  simp only [isHelper, bareStatistic]
  rcases c.criteria with _ | ⟨item, _ | ⟨_, _⟩⟩ <;> rfl

/-- Both groups only serve the stages of goals, or neither does. -/
theorem AtMost.isHelper (h : a.AtMost b) (era : Era) : a.isHelper era = b.isHelper era := by
  rw [← isHelper_bareStatistic, h.same, isHelper_bareStatistic]

/-- Both are recipes, or neither is. -/
theorem AtMost.recipe (h : a.AtMost b) : a.recipe = b.recipe :=
  congrArg (·.recipe) h.same

/-- Both are hidden, or neither is. -/
theorem AtMost.hidden (h : a.AtMost b) : a.hidden = b.hidden :=
  congrArg (·.hidden) h.same

/-- An advancement that is done has all its steps completed, so that one that is not has no more. -/
theorem AtMost.advancementSteps (h : a.AtMost b) :
    a.advancementSteps.AtMost b.advancementSteps := by
  have hlength := h.criteria.length_eq
  have hcompleted := h.completed
  unfold Category.advancementSteps
  rw [h.recipe]
  split
  · exact Steps.one_atMost h.done
  · refine ⟨by rw [hlength], ?_⟩
    by_cases ha : a.done = true
    · simp only [if_pos ha, if_pos (h.done ha), hlength, Nat.le_refl]
    · by_cases hb : b.done = true
      · simp only [if_neg ha, if_pos hb, hlength, Nat.min_le_right]
      · simp only [if_neg ha, if_neg hb, hlength]
        omega

/-- The group that is further has at least as many steps completed. -/
theorem AtMost.statisticSteps (h : a.AtMost b) : a.statisticSteps.AtMost b.statisticSteps := by
  have hlength := h.criteria.length_eq
  have hcompleted := h.completed
  refine ⟨hlength, ?_⟩
  simp only [Category.statisticSteps, hlength]
  omega

end Category

namespace StagedGoal

variable {a b : StagedGoal}

/-- Both goals are hidden, or neither is. -/
theorem AtMost.hidden (h : a.AtMost b) : a.hidden = b.hidden :=
  congrArg (·.hidden) h.same

/-- Both goals have the same number of steps. -/
theorem AtMost.steps (h : a.AtMost b) : a.steps = b.steps := by
  have hlength := congrArg (fun goal : StagedGoal => goal.stages.length) h.same
  simp only [bare, List.length_map] at hlength
  rw [StagedGoal.steps, StagedGoal.steps, hlength]

/-- The goal that is further has at least as many steps completed. -/
theorem AtMost.goalSteps (h : a.AtMost b) : a.goalSteps.AtMost b.goalSteps := by
  have hcurrent := h.current
  refine ⟨h.steps, ?_⟩
  simp only [StagedGoal.goalSteps, h.steps]
  omega

end StagedGoal

/-- A section counts at most as many entries as done, if its entries have at most the progress of others and are
hidden where they are. -/
theorem SectionCounts.ofMarks_atMost {α : Type} {r : α → α → Prop} {mark : α → Bool × Bool}
    (hmark : ∀ x y, r x y → (mark x).2 = (mark y).2 ∧ ((mark x).1 = true → (mark y).1 = true))
    {xs ys : List α} (h : List.Forall₂ r xs ys) :
    (ofMarks (xs.map mark)).AtMost (ofMarks (ys.map mark)) := by
  have hmarks : List.Forall₂ (fun m n : Bool × Bool => m.2 = n.2 ∧ (m.1 = true → n.1 = true))
      (xs.map mark) (ys.map mark) :=
    List.rel_map (fun x y hxy => hmark x y hxy) h
  refine ⟨hmarks.length_eq, ?_, ?_, ?_⟩
  · exact countP_le_of_forall₂ (hmarks.imp fun _ _ hmn => hmn.2)
  · exact countP_eq_of_forall₂ (hmarks.imp fun _ _ hmn => congrArg (!·) hmn.1)
  · refine countP_le_of_forall₂ (hmarks.imp fun m n hmn => ?_)
    rw [Bool.and_eq_true, Bool.and_eq_true, hmn.1]
    exact fun hm => ⟨hmn.2 hm.1, hm.2⟩

namespace Steps

/-- A sum of steps is ordered as its parts. -/
theorem sum_atMost {xs ys : List Steps} (h : List.Forall₂ AtMost xs ys) : (sum xs).AtMost (sum ys) where
  total := sumBy_eq_of_forall₂ (h.imp fun _ _ hxy => hxy.total)
  completed := sumBy_le_of_forall₂ (h.imp fun _ _ hxy => hxy.completed)

end Steps

namespace Checklist

variable {c d : Checklist} (h : c.EntriesAtMost d) (era : Era)

include h

/-- The groups that count correspond to each other. -/
theorem EntriesAtMost.countedStatistics :
    List.Forall₂ Category.AtMost (c.countedStatistics era) (d.countedStatistics era) :=
  List.rel_filter (fun _ _ hab => by simp only [hab.isHelper era]) h.statistics

/-- The steps follow the entries. -/
theorem EntriesAtMost.overall : (c.overall era).AtMost (d.overall era) := by
  apply Steps.sum_atMost
  unfold entrySteps
  refine List.rel_append (List.rel_append (List.rel_append ?_ ?_) ?_) ?_
  · exact List.rel_map (fun _ _ hab => hab.advancementSteps) h.advancements
  · exact List.rel_map (fun _ _ hab => hab.statisticSteps) (h.countedStatistics era)
  · exact List.rel_map (fun _ _ hab => Steps.one_atMost hab.done) (List.rel_append h.unlocks h.custom)
  · exact List.rel_map (fun _ _ hab => hab.goalSteps) h.goals

/-- So do the counts of the sections. -/
theorem EntriesAtMost.sectionCounts : (c.sectionCounts era).AtMost (d.sectionCounts era) := by
  have hcategory (a b : Category) (hab : a.AtMost b) :
      a.hidden = b.hidden ∧ (a.done = true → b.done = true) := ⟨hab.hidden, hab.done⟩
  have hitem (a b : Item) (hab : a.AtMost b) :
      a.hidden = b.hidden ∧ (a.done = true → b.done = true) :=
    ⟨congrArg (·.hidden) hab.same, hab.done⟩
  have hadvancements : List.Forall₂ Category.AtMost (c.advancements.filter (!·.recipe))
      (d.advancements.filter (!·.recipe)) :=
    List.rel_filter (fun _ _ hab => by simp only [hab.recipe]) h.advancements
  have hrecipes : List.Forall₂ Category.AtMost (c.advancements.filter (·.recipe))
      (d.advancements.filter (·.recipe)) :=
    List.rel_filter (fun _ _ hab => by simp only [hab.recipe]) h.advancements
  constructor
  · exact SectionCounts.ofMarks_atMost hcategory hadvancements
  · exact SectionCounts.ofMarks_atMost hcategory hrecipes
  · exact SectionCounts.ofMarks_atMost hcategory (h.countedStatistics era)
  · exact SectionCounts.ofMarks_atMost hitem h.unlocks
  · exact SectionCounts.ofMarks_atMost hitem h.custom
  · exact SectionCounts.ofMarks_atMost (fun _ _ hab => ⟨hab.hidden, hab.complete⟩) h.goals
  · exact sumBy_eq_of_forall₂ (hadvancements.imp fun _ _ hab => hab.criteria.length_eq)
  · exact sumBy_le_of_forall₂ (hadvancements.imp fun _ _ hab => hab.completed)

/-- What is counted follows the entries. -/
theorem EntriesAtMost.recompute : (c.recompute era).AtMost (d.recompute era) where
  advancements := h.advancements
  statistics := h.statistics
  unlocks := h.unlocks
  custom := h.custom
  goals := h.goals
  counts := h.sectionCounts era
  totalSteps := (h.overall era).total
  completedSteps := (h.overall era).completed

end Checklist

end Milestone
