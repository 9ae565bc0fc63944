import Milestone.Proofs.Checklist.Reached

/-!
# Complete checklists

The steps of a checklist and the counts of its sections are two ways to say how much is done, with weights
and exceptions of their own. They agree on when everything is. A sum of steps is completed exactly if each
part is, so the matter is settled entry by entry. There it needs two facts about reached checklists that the
marks alone do not show: an advancement with all its criteria is done, and a group that a player has set by
hand has all its criteria.
-/

namespace Milestone

open Json

/-- All steps are completed. -/
def Steps.IsFull (s : Steps) : Prop :=
  s.completed = s.total

/-- All entries of a section are done. -/
def SectionCounts.IsFull (s : SectionCounts) : Prop :=
  s.completed = s.total

/-- An advancement is done once all the criteria that it declares are. -/
def Category.EarnsAll (c : Category) : Prop :=
  c.criteria ≠ [] → (∀ item ∈ c.criteria, item.done = true) → c.done = true

/-- A group that a player has set by hand has all its criteria done. -/
def Category.SetsAll (c : Category) : Prop :=
  c.manual = true → ∀ item ∈ c.criteria, item.done = true

namespace Checklist

/-- The groups of statistics that count and have a criterion. -/
def askedStatistics (era : Era) (c : Checklist) : List Category :=
  (c.countedStatistics era).filter (!·.criteria.isEmpty)

/-- Everything that a checklist asks for is done. -/
structure IsDone (era : Era) (c : Checklist) : Prop where
  /-- Advancements and recipes alike. -/
  advancements : ∀ a ∈ c.advancements, a.done = true
  statistics : ∀ group ∈ c.askedStatistics era, group.done = true
  unlocks : ∀ u ∈ c.unlocks, u.done = true
  custom : ∀ g ∈ c.custom, g.done = true
  goals : ∀ goal ∈ c.goals, goal.isComplete = true

/-- The sections count everything as done. -/
structure HasFullCounts (era : Era) (c : Checklist) : Prop where
  advancements : c.counts.advancements.IsFull
  recipes : c.counts.recipes.IsFull
  statistics :
    (SectionCounts.ofMarks ((c.askedStatistics era).map fun s => (s.done, s.hidden))).IsFull
  unlocks : c.counts.unlocks.IsFull
  custom : c.counts.custom.IsFull
  staged : c.counts.staged.IsFull

end Checklist

namespace Steps

/-- A sum is completed if each of its parts is, since no part has more completed steps than it has. -/
theorem isFull_sum_iff {steps : List Steps} (h : ∀ s ∈ steps, s.completed ≤ s.total) :
    (sum steps).IsFull ↔ ∀ s ∈ steps, s.IsFull := by
  induction steps with
  | nil => exact ⟨nofun, fun _ => rfl⟩
  | cons s rest ih =>
    have hs : s.completed ≤ s.total := h s List.mem_cons_self
    have hrest : ∀ t ∈ rest, t.completed ≤ t.total := fun t ht => h t (List.mem_cons_of_mem _ ht)
    have hle := completed_sum_le_total hrest
    have hsplit : (sum (s :: rest)).IsFull ↔ s.IsFull ∧ (sum rest).IsFull := by
      simp only [IsFull, sum, sumBy] at hle ⊢
      omega
    rw [hsplit, ih hrest, List.forall_mem_cons]

@[simp] theorem isFull_one_iff {done : Bool} : (one done).IsFull ↔ done = true := by
  cases done <;> simp [one, IsFull]

end Steps

/-- A section is full if each of its entries is done. -/
@[simp] theorem SectionCounts.isFull_ofMarks_iff {marks : List (Bool × Bool)} :
    (ofMarks marks).IsFull ↔ ∀ m ∈ marks, m.1 = true :=
  List.countP_eq_length

section Entries

/-- No entry has more completed steps than it has, whatever its fields say. -/
theorem Checklist.completed_le_total (era : Era) (c : Checklist) :
    ∀ s ∈ c.entrySteps era, s.completed ≤ s.total := by
  intro s hs
  simp only [entrySteps, List.mem_append, List.mem_map] at hs
  obtain ((⟨a, -, rfl⟩ | ⟨group, -, rfl⟩) | ⟨item, -, rfl⟩) | ⟨goal, -, rfl⟩ := hs
  · unfold Category.advancementSteps Steps.one
    split
    · cases a.done <;> decide
    · cases a.done
      · exact Nat.min_le_right _ _
      · exact Nat.le_refl _
  · exact Nat.min_le_right _ _
  · unfold Steps.one
    cases item.done <;> decide
  · exact Nat.min_le_right _ _

/-- The steps of an advancement are completed exactly if it is done, also where it has no criteria. -/
theorem Category.isFull_advancementSteps_iff {c : Category} (h : c.IsCounted) (hearns : c.EarnsAll) :
    c.advancementSteps.IsFull ↔ c.done = true := by
  unfold advancementSteps
  split
  · exact Steps.isFull_one_iff
  · constructor
    · intro hfull
      by_contra hdone
      simp only [Steps.IsFull, if_neg hdone, h.completed] at hfull
      have hle := countDone_le_length c.criteria
      have hne : c.criteria ≠ [] := by
        intro hnil
        simp [hnil, countDone] at hfull
      have hall : countDone c.criteria = c.criteria.length := by omega
      exact hdone (hearns hne (countDone_eq_length_iff.mp hall))
    · intro hdone
      simp only [Steps.IsFull, if_pos hdone]

/-- The steps of a group of statistics are completed exactly if it is done or asks for nothing. -/
theorem Category.isFull_statisticSteps_iff {c : Category} (h : c.IsConsistentStatistic)
    (hsets : c.SetsAll) : c.statisticSteps.IsFull ↔ (c.criteria ≠ [] → c.done = true) := by
  have hle := countDone_le_length c.criteria
  have hfull : c.statisticSteps.IsFull ↔ ∀ item ∈ c.criteria, item.done = true := by
    rw [← countDone_eq_length_iff, Steps.IsFull, statisticSteps, h.completed, Nat.min_eq_left hle]
  rw [hfull]
  constructor
  · exact fun hall hne => h.done_iff.mpr (.inl (h.allMet_iff.mpr ⟨hne, hall⟩))
  · intro hdone item hitem
    rcases h.done_iff.mp (hdone (List.ne_nil_of_mem hitem)) with hmet | hmanual
    · exact (h.allMet_iff.mp hmet).2 item hitem
    · exact hsets hmanual item hitem

/-- The steps of a staged goal are completed exactly if only its last stage remains. -/
theorem StagedGoal.isFull_goalSteps_iff {goal : StagedGoal} (h : goal.IsConsistent) :
    goal.goalSteps.IsFull ↔ goal.isComplete = true := by
  have hle := h.current_le_steps
  have hne : goal.stages ≠ [] := by
    obtain ⟨stage, hlast, -⟩ := h.closed
    exact List.ne_nil_of_mem (List.mem_of_getLast? hlast)
  simp only [Steps.IsFull, goalSteps, isComplete, List.isEmpty_eq_false_iff.mpr hne, Bool.not_false,
    Bool.true_and, beq_iff_eq]
  omega

end Entries

section Reached

variable {P : Category → Prop} {c : Checklist} (h : c.Reached)

include h

/-- What holds of new advancements and of those that a pass leaves holds of all that are reached. -/
theorem Checklist.Reached.forall_advancements (hnew : ∀ a : Category, a.IsFresh → P a)
    (hpass : ∀ era doc b (a : Category), P (a.updateAdvancement era doc b)) :
    ∀ a ∈ c.advancements, P a := by
  induction h with
  | read hread => exact fun a ha => hnew a ((Template.isFresh_of_read hread).1.advancements a ha)
  | seed era state _ ih => exact ih
  | tick version now s state _ ih =>
    intro a ha
    rw [tick_advancements] at ha
    obtain ⟨old, hold, rfl⟩ := List.mem_map.mp ha
    unfold Category.tickAdvancement
    split
    · exact hpass _ _ _ old
    · exact ih old hold

/-- The same for groups of statistics. -/
theorem Checklist.Reached.forall_statistics (hnew : ∀ group : Category, group.IsFresh → P group)
    (hpass : ∀ era doc b state (group : Category), P (group.updateStatistic era doc b state)) :
    ∀ group ∈ c.statistics, P group := by
  induction h with
  | read hread => exact fun g hg => hnew g ((Template.isFresh_of_read hread).1.statistics g hg)
  | seed era state _ ih => exact ih
  | tick version now s state _ ih =>
    intro group hgroup
    rw [tick_statistics] at hgroup
    obtain ⟨old, hold, rfl⟩ := List.mem_map.mp hgroup
    unfold Category.tickStatistic
    split
    · exact hpass _ _ _ _ old
    · exact ih old hold

/-- What holds of new goals and is kept by a scan holds of all that are reached. -/
theorem Checklist.Reached.forall_goals {Q : StagedGoal → Prop}
    (hnew : ∀ goal : StagedGoal, goal.current = 0 → goal.IsClosed → Q goal)
    (hpass : ∀ (ctx : StageContext) (goal : StagedGoal), Q goal → Q (ctx.updateGoal goal)) :
    ∀ goal ∈ c.goals, Q goal := by
  induction h with
  | read hread =>
    obtain ⟨hfresh, -, hclosed⟩ := Template.isFresh_of_read hread
    exact fun goal hgoal => hnew goal (hfresh.current goal hgoal) (hclosed goal hgoal)
  | seed era state _ ih => exact ih
  | tick version now s state _ ih =>
    intro goal hgoal
    rw [tick_goals] at hgoal
    obtain ⟨old, hold, rfl⟩ := List.mem_map.mp hgoal
    exact hpass _ old (ih old hold)

/-- A reached advancement counts its criteria, and is done once it has all of them. -/
theorem Checklist.Reached.advancement_counted : ∀ a ∈ c.advancements, a.IsCounted ∧ a.EarnsAll := by
  refine h.forall_advancements (fun a ha => ⟨ha.isCounted, fun hne hall => ?_⟩)
    fun era doc b a => ⟨?_, fun hne hall => ?_⟩
  · obtain ⟨item, hitem⟩ := List.exists_mem_of_ne_nil _ hne
    have hdone := hall item hitem
    rw [(ha.criteria item hitem).done] at hdone
    cases hdone
  · exact (Category.isConsistentAdvancement_updateAdvancement era doc b a).toIsCounted
  · refine (Category.isConsistentAdvancement_updateAdvancement era doc b a).done_of_allMet ?_
    have hcount := Category.countDone_eq_length_iff.mpr hall
    simp only [Category.updateAdvancement] at hne hcount ⊢
    rw [if_neg (by rwa [List.isEmpty_iff]), beq_iff_eq]
    exact hcount

/-- A reached group of statistics is consistent, and has all its criteria if it is set by hand. -/
theorem Checklist.Reached.statistic_counted :
    ∀ group ∈ c.statistics, group.IsConsistentStatistic ∧ group.SetsAll := by
  refine h.forall_statistics (fun group hgroup => ⟨hgroup.isConsistentStatistic, fun hmanual => ?_⟩)
    fun era doc b state group => ⟨?_, fun hmanual item hitem => ?_⟩
  · rw [hgroup.manual] at hmanual
    cases hmanual
  · exact group.isConsistentStatistic_updateStatistic era doc b state
  · obtain ⟨old, -, rfl⟩ := List.mem_map.mp hitem
    have hset : state.override group.name = true := hmanual
    simp only [Category.updateCriterion, hset, Bool.or_true]

theorem Checklist.Reached.goal_consistent : ∀ goal ∈ c.goals, goal.IsConsistent := by
  refine h.forall_goals (fun goal hcurrent hclosed => ?_)
    fun ctx goal hgoal => StageContext.isConsistent_updateGoal ctx hgoal
  refine StagedGoal.isConsistent_of_closed hclosed ?_
  rw [hcurrent]
  exact Nat.zero_le _

/-- The steps of a reached checklist are all completed exactly if everything is done. -/
theorem Checklist.Reached.isFull_overall_iff (era : Era) : (c.overall era).IsFull ↔ c.IsDone era := by
  have hadvancement (a : Category) (ha : a ∈ c.advancements) :
      a.advancementSteps.IsFull ↔ a.done = true :=
    have ⟨hcounted, hearns⟩ := h.advancement_counted a ha
    Category.isFull_advancementSteps_iff hcounted hearns
  have hstatistic (group : Category) (hgroup : group ∈ c.countedStatistics era) :
      group.statisticSteps.IsFull ↔ (group.criteria ≠ [] → group.done = true) :=
    have ⟨hcons, hsets⟩ := h.statistic_counted group (List.mem_of_mem_filter hgroup)
    Category.isFull_statisticSteps_iff hcons hsets
  have hgoal (goal : StagedGoal) (hmem : goal ∈ c.goals) :
      goal.goalSteps.IsFull ↔ goal.isComplete = true :=
    StagedGoal.isFull_goalSteps_iff (h.goal_consistent goal hmem)
  rw [Checklist.overall, Steps.isFull_sum_iff (c.completed_le_total era)]
  simp only [Checklist.entrySteps, List.mem_append, List.mem_map]
  constructor
  · intro hfull
    refine ⟨fun a ha => ?_, fun group hgroup => ?_, fun u hu => ?_, fun g hg => ?_,
      fun goal hmem => ?_⟩
    · exact (hadvancement a ha).mp (hfull _ (.inl (.inl (.inl ⟨a, ha, rfl⟩))))
    · obtain ⟨hcounted, hasked⟩ := List.mem_filter.mp hgroup
      refine (hstatistic group hcounted).mp (hfull _ (.inl (.inl (.inr ⟨group, hcounted, rfl⟩)))) ?_
      rwa [Bool.not_eq_true', List.isEmpty_eq_false_iff] at hasked
    · exact Steps.isFull_one_iff.mp (hfull _ (.inl (.inr ⟨u, .inl hu, rfl⟩)))
    · exact Steps.isFull_one_iff.mp (hfull _ (.inl (.inr ⟨g, .inr hg, rfl⟩)))
    · exact (hgoal goal hmem).mp (hfull _ (.inr ⟨goal, hmem, rfl⟩))
  · rintro hdone s (((⟨a, ha, rfl⟩ | ⟨group, hgroup, rfl⟩) | ⟨item, hitem, rfl⟩) | ⟨goal, hmem, rfl⟩)
    · exact (hadvancement a ha).mpr (hdone.advancements a ha)
    · refine (hstatistic group hgroup).mpr fun hne => hdone.statistics group ?_
      rw [Checklist.askedStatistics, List.mem_filter, Bool.not_eq_true', List.isEmpty_eq_false_iff]
      exact ⟨hgroup, hne⟩
    · rcases hitem with hu | hg
      · exact Steps.isFull_one_iff.mpr (hdone.unlocks item hu)
      · exact Steps.isFull_one_iff.mpr (hdone.custom item hg)
    · exact (hgoal goal hmem).mpr (hdone.goals goal hmem)

end Reached

/-- Counts that are up to date are full exactly if everything is done. -/
theorem Checklist.hasFullCounts_iff {era : Era} {c : Checklist}
    (hcounts : c.counts = c.sectionCounts era) : c.HasFullCounts era ↔ c.IsDone era := by
  constructor
  · rintro ⟨hadvancements, hrecipes, hstatistics, hunlocks, hcustom, hstaged⟩
    simp only [hcounts, sectionCounts, SectionCounts.isFull_ofMarks_iff, List.forall_mem_map] at *
    refine ⟨fun a ha => ?_, hstatistics, hunlocks, hcustom, hstaged⟩
    cases hrecipe : a.recipe with
    | true => exact hrecipes a (List.mem_filter.mpr ⟨ha, hrecipe⟩)
    | false => exact hadvancements a (List.mem_filter.mpr ⟨ha, by rw [hrecipe]; rfl⟩)
  · intro hdone
    constructor <;>
      simp only [hcounts, sectionCounts, SectionCounts.isFull_ofMarks_iff, List.forall_mem_map]
    · exact fun a ha => hdone.advancements a (List.mem_of_mem_filter ha)
    · exact fun a ha => hdone.advancements a (List.mem_of_mem_filter ha)
    · exact hdone.statistics
    · exact hdone.unlocks
    · exact hdone.custom
    · exact hdone.goals

/-- **All steps are completed exactly if everything is done.** No checklist, however inconsistent, has more
completed steps than it has. After a tick of any reached checklist all steps are completed exactly if every
advancement and recipe, every group of statistics that counts and has a criterion, every unlock, every custom
goal and every staged goal is done. The counts of the sections say the same. -/
theorem steps_completed_iff_done :
    (∀ (c : Checklist) (era : Era), (c.overall era).completed ≤ (c.overall era).total) ∧
      ∀ {c : Checklist}, c.Reached → ∀ (version : Version) (now : Instant) (s : Sources)
        (state : SavedState), let after := (tick version now s c state).checklist
        (after.completedSteps = after.totalSteps ↔ after.IsDone version.era) ∧
          (after.completedSteps = after.totalSteps ↔ after.HasFullCounts version.era) := by
  refine ⟨fun c era => Steps.completed_sum_le_total (c.completed_le_total era), ?_⟩
  intro c hc version now s state after
  have hreached : after.Reached := .tick version now s state hc
  have hrecomputed : after = after.recompute version.era := by
    simp only [after, tick_checklist]
    rfl
  have hdone : after.completedSteps = after.totalSteps ↔ after.IsDone version.era := by
    rw [← hreached.isFull_overall_iff, hrecomputed]
    rfl
  have hcounts : after.counts = after.sectionCounts version.era := congrArg (·.counts) hrecomputed
  exact ⟨hdone, hdone.trans (Checklist.hasFullCounts_iff hcounts).symm⟩

/-- A player has set a whole group by hand. The group that only helps does not count, and the staged goal has
no step. -/
theorem steps_completed_iff_done_set_by_hand :
    let text := "\x7b\"stats\":\x7b\"walk\":\x7b\"criteria\":" ++
      "\x7b\"far\":\x7b\"target\":5\x7d,\"high\":\x7b\"target\":9\x7d\x7d\x7d," ++
      "\"helper\":\x7b\x7d\x7d,\"multi_stage_goals\":" ++
      "[\x7b\"root_name\":\"end\",\"stages\":[\x7b\"type\":\"final\"\x7d]\x7d]\x7d"
    let version : Version := ⟨"1.6.4"⟩
    let now : Instant := ⟨⟨2013, 7, 1, by decide⟩, 0, 0, by decide⟩
    let s : Sources := ⟨none, none, some (.object []), none⟩
    let state := SavedState.empty.setOverride "walk" true
    let criterion (name : String) (target : Counter) : Item :=
      { Item.new name name with target := target, address := some ⟨name⟩ }
    let c : Checklist :=
      { Checklist.empty with
        statistics :=
          [.new "walk" "walk" [criterion "far" 5, criterion "high" 9],
            .ofStatistic "helper" "helper" ⟨"helper"⟩ 0 false]
        goals := [⟨"end", "end", [⟨"stage_0", "stage_0", .manual⟩], 0, false⟩] }
    let after := (tick version now s c state).checklist
    Template.read text ∅ = .ok c ∧ (after.completedSteps, after.totalSteps) = (2, 2) ∧
      after.IsDone version.era ∧ after.HasFullCounts version.era ∧
      after.statistics.map (·.done) = [true, false] := by
  intro text version now s state criterion c after
  have hread : Template.read text ∅ = .ok c := by decide +kernel
  have hsteps : (after.completedSteps, after.totalSteps) = (2, 2) := by decide
  have hfull : after.completedSteps = after.totalSteps := by
    rw [(Prod.mk.inj hsteps).1, (Prod.mk.inj hsteps).2]
  obtain ⟨hdone, hcounts⟩ := steps_completed_iff_done.2 (.read hread) version now s state
  exact ⟨hread, hsteps, hdone.mp hfull, hcounts.mp hfull, by decide⟩

end Milestone
