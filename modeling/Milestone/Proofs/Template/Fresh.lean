import Milestone.Proofs.Template.Checks

/-!
# New checklists

A checklist that was read from a template shows no progress: nothing is done, nothing is counted, and
every staged goal stands before its first stage. Its last stage marks the end.
-/

namespace Milestone

/-- An item that nothing was recorded for. -/
structure Item.IsFresh (item : Item) : Prop where
  progress : item.progress = 0
  done : item.done = false
  manual : item.manual = false

/-- A category that nothing was recorded for. -/
structure Category.IsFresh (c : Category) : Prop where
  criteria : ∀ item ∈ c.criteria, item.IsFresh
  completed : c.completed = 0
  done : c.done = false
  allMet : c.allMet = false
  manual : c.manual = false
  earnedBefore : c.earnedBefore = false

/-- The last stage of a goal only marks its end. -/
def StagedGoal.IsClosed (goal : StagedGoal) : Prop :=
  ∃ stage, goal.stages.getLast? = some stage ∧ stage.isManual = true

/-- A checklist that nothing was recorded for. -/
structure Checklist.IsFresh (c : Checklist) : Prop where
  advancements : ∀ a ∈ c.advancements, a.IsFresh
  statistics : ∀ s ∈ c.statistics, s.IsFresh
  unlocks : ∀ u ∈ c.unlocks, u.IsFresh
  custom : ∀ g ∈ c.custom, g.IsFresh
  current : ∀ g ∈ c.goals, g.current = 0

namespace Template

/-- A criterion of an advancement is new. -/
theorem isFresh_of_buildMark {names : DisplayNames} {advancement : String}
    {d : String × Option CriterionDeclaration} {item : Item}
    (h : buildMark names advancement d = .ok item) : item.IsFresh := by
  simp only [buildMark, bind_eq_ok_iff, pure_eq_ok_iff] at h
  obtain ⟨_, -, rfl⟩ := h
  exact ⟨rfl, rfl, rfl⟩

/-- A built advancement is new, with all its criteria. -/
theorem isFresh_of_buildAdvancement {names : DisplayNames}
    {d : String × Option AdvancementDeclaration} {c : Category}
    (h : buildAdvancement names d = .ok c) : c.IsFresh := by
  simp only [buildAdvancement, bind_eq_ok_iff, pure_eq_ok_iff, mapM_eq_ok_iff] at h
  obtain ⟨_, -, criteria, hcriteria, rfl⟩ := h
  refine ⟨fun item hitem => ?_, rfl, rfl, rfl, rfl, rfl⟩
  obtain ⟨_, -, hbuild⟩ := exists_of_mem_of_forall₂ hcriteria hitem
  exact isFresh_of_buildMark hbuild

/-- A built criterion of a group is new. -/
theorem isFresh_of_buildCriterion {names : DisplayNames} {group : String}
    {d : String × Option CriterionDeclaration} {item : Item}
    (h : buildCriterion names group d = .ok item) : item.IsFresh := by
  simp only [buildCriterion, bind_eq_ok_iff, pure_eq_ok_iff] at h
  obtain ⟨_, -, _, -, rfl⟩ := h
  exact ⟨rfl, rfl, rfl⟩

/-- A built group of statistics is new, with criteria of its own or the one that is made up. -/
theorem isFresh_of_buildStatistic {names : DisplayNames}
    {d : String × Option StatisticDeclaration} {c : Category}
    (h : buildStatistic names d = .ok c) : c.IsFresh := by
  simp only [buildStatistic, bind_eq_ok_iff] at h
  obtain ⟨declared, -, h⟩ := h
  cases hcriteria : declared.criteria with
  | none =>
    simp only [hcriteria, bind_eq_ok_iff, pure_eq_ok_iff] at h
    obtain ⟨_, -, rfl⟩ := h
    refine ⟨fun item hitem => ?_, rfl, rfl, rfl, rfl, rfl⟩
    rw [List.mem_singleton.mp hitem]
    exact ⟨rfl, rfl, rfl⟩
  | some criteria =>
    simp only [hcriteria, bind_eq_ok_iff, pure_eq_ok_iff, mapM_eq_ok_iff] at h
    obtain ⟨items, hitems, rfl⟩ := h
    refine ⟨fun item hitem => ?_, rfl, rfl, rfl, rfl, rfl⟩
    obtain ⟨_, -, hbuild⟩ := exists_of_mem_of_forall₂ hitems hitem
    exact isFresh_of_buildCriterion hbuild

/-- A built unlock is new. -/
theorem isFresh_of_buildUnlock {names : DisplayNames} {d : String × Option UnlockDeclaration}
    {item : Item} (h : buildUnlock names d = .ok item) : item.IsFresh := by
  simp only [buildUnlock, bind_eq_ok_iff, pure_eq_ok_iff] at h
  obtain ⟨_, -, rfl⟩ := h
  exact ⟨rfl, rfl, rfl⟩

/-- A target that was checked is not below that of a goal without bound. -/
theorem le_of_checkTarget {entry : String} {target checked : Counter}
    (h : checkTarget entry target = .ok checked) : -1 ≤ checked.value := by
  unfold checkTarget at h
  split at h
  · cases h
  · cases h
    omega

/-- A built custom goal is new, and its target is one that was checked. -/
theorem isFresh_of_buildCustom {names : DisplayNames} {d : CustomDeclaration} {item : Item}
    (h : buildCustom names d = .ok item) : item.IsFresh ∧ -1 ≤ item.target.value := by
  simp only [buildCustom, bind_eq_ok_iff, pure_eq_ok_iff] at h
  obtain ⟨_, htarget, rfl⟩ := h
  exact ⟨⟨rfl, rfl, rfl⟩, le_of_checkTarget htarget⟩

/-- Closed stages end with one that only marks the end. -/
theorem getLast?_closeStages (stages : List Stage) :
    ∃ stage, (closeStages stages).getLast? = some stage ∧ stage.isManual = true := by
  unfold closeStages
  split
  · rename_i h
    exact (Option.any_eq_true _ _).mp h
  · exact ⟨finalStage, by simp, rfl⟩

/-- A built staged goal stands at its first stage, and its last one is completed by nothing. -/
theorem isClosed_of_buildGoal {names : DisplayNames} {d : GoalDeclaration} {goal : StagedGoal}
    (h : buildGoal names d = .ok goal) : goal.current = 0 ∧ goal.IsClosed := by
  unfold buildGoal at h
  split at h
  · cases h
  · simp only [bind_eq_ok_iff, pure_eq_ok_iff] at h
    obtain ⟨stages, -, rfl⟩ := h
    exact ⟨rfl, getLast?_closeStages stages⟩

/-- **New checklists show no progress.** Besides, custom goals have targets from -1 on, and the last stage
of a staged goal marks its end. -/
theorem isFresh_of_read {text : String} {names : DisplayNames} {c : Checklist}
    (h : read text names = .ok c) :
    c.IsFresh ∧ (∀ g ∈ c.custom, -1 ≤ g.target.value) ∧ ∀ g ∈ c.goals, g.IsClosed := by
  unfold read at h
  split at h
  · simp only [build, bind_eq_ok_iff, pure_eq_ok_iff, mapM_eq_ok_iff] at h
    obtain ⟨-, -, -, -, -, -, advancements, ha, statistics, hs, unlocks, hu, custom, hc, goals, hg,
      rfl⟩ := h
    have hcustom := forall₂_of_buildListed hc
    have hgoals := forall₂_of_buildListed hg
    refine ⟨⟨?_, ?_, ?_, ?_, ?_⟩, ?_, ?_⟩
    · intro a hmem
      obtain ⟨_, -, hbuild⟩ := exists_of_mem_of_forall₂ ha hmem
      exact isFresh_of_buildAdvancement hbuild
    · intro s hmem
      obtain ⟨_, -, hbuild⟩ := exists_of_mem_of_forall₂ hs hmem
      exact isFresh_of_buildStatistic hbuild
    · intro u hmem
      obtain ⟨_, -, hbuild⟩ := exists_of_mem_of_forall₂ hu hmem
      exact isFresh_of_buildUnlock hbuild
    · intro g hmem
      obtain ⟨_, -, hbuild⟩ := exists_of_mem_of_forall₂ hcustom hmem
      exact (isFresh_of_buildCustom hbuild).1
    · intro g hmem
      obtain ⟨_, -, hbuild⟩ := exists_of_mem_of_forall₂ hgoals hmem
      exact (isClosed_of_buildGoal hbuild).1
    · intro g hmem
      obtain ⟨_, -, hbuild⟩ := exists_of_mem_of_forall₂ hcustom hmem
      exact (isFresh_of_buildCustom hbuild).2
    · intro g hmem
      obtain ⟨_, -, hbuild⟩ := exists_of_mem_of_forall₂ hgoals hmem
      exact (isClosed_of_buildGoal hbuild).2
  · cases h

end Template

end Milestone
