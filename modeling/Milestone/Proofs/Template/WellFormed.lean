import Milestone.Proofs.Checklist.Bare
import Milestone.Proofs.Template.Document
import Milestone.Proofs.Template.Fresh

/-!
# Well-formed templates

Whatever the text, a checklist that was read from it has different names in each section and in each category,
targets that some count can reach or that mean a switch or no bound, and goals that end with a stage that only marks
the end. It shows no progress anywhere. So a name finds the one entry that bears it.
-/

namespace Milestone

/-- A statistic that a stage requires has a count of at least one, and none was seen yet. -/
def Requirement.IsNew : Requirement → Prop
  | .statistic _ required current => 1 ≤ required.value ∧ current = 0
  | _ => True

/-- A criterion of a group of statistics has an address and a target of at least -1. -/
structure Item.IsStatistic (item : Item) : Prop where
  target : -1 ≤ item.target.value
  address : item.address.isSome = true

/-- A goal ends with a stage that only marks the end, and its stages are new. -/
structure StagedGoal.IsWellFormed (goal : StagedGoal) : Prop where
  closed : goal.IsClosed
  stages : ∀ stage ∈ goal.stages, stage.requirement.IsNew

/-- A checklist as templates make them. -/
structure Checklist.IsWellFormed (c : Checklist) : Prop where
  advancements : (c.advancements.map (·.name)).Nodup
  statistics : (c.statistics.map (·.name)).Nodup
  unlocks : (c.unlocks.map (·.name)).Nodup
  custom : (c.custom.map (·.name)).Nodup
  goals : (c.goals.map (·.name)).Nodup
  marks : ∀ a ∈ c.advancements, (a.criteria.map (·.name)).Nodup
  criteria : ∀ group ∈ c.statistics, (group.criteria.map (·.name)).Nodup
  notSingle : ∀ a ∈ c.advancements, a.single = false
  statistic : ∀ group ∈ c.statistics, ∀ item ∈ group.criteria, item.IsStatistic
  customTarget : ∀ item ∈ c.custom, -1 ≤ item.target.value
  goal : ∀ goal ∈ c.goals, goal.IsWellFormed

/-- Every entry of a checklist, and every criterion of its category, is the one that its name finds. -/
structure Checklist.IsFoundByName (c : Checklist) : Prop where
  advancements : ∀ a ∈ c.advancements, c.advancement? a.name = some a ∧
    ∀ item ∈ a.criteria, a.criterion? item.name = some item
  statistics : ∀ group ∈ c.statistics, c.statistic? group.name = some group ∧
    ∀ item ∈ group.criteria, group.criterion? item.name = some item
  unlocks : ∀ item ∈ c.unlocks, c.unlock? item.name = some item
  custom : ∀ item ∈ c.custom, c.custom? item.name = some item
  goals : ∀ goal ∈ c.goals, c.goal? goal.name = some goal

/-- Where the names are different, every entry is found by its name. -/
theorem Checklist.IsWellFormed.isFoundByName {c : Checklist} (h : c.IsWellFormed) :
    c.IsFoundByName where
  advancements a ha :=
    ⟨Template.find?_of_nodup h.advancements ha, fun _ hitem => Template.find?_of_nodup (h.marks a ha) hitem⟩
  statistics group hgroup :=
    ⟨Template.find?_of_nodup h.statistics hgroup, fun _ hitem =>
      Template.find?_of_nodup (h.criteria group hgroup) hitem⟩
  unlocks _ hitem := Template.find?_of_nodup h.unlocks hitem
  custom _ hitem := Template.find?_of_nodup h.custom hitem
  goals _ hgoal := Template.find?_of_nodup h.goals hgoal

section Bare

/-- What nothing was recorded for has no progress to take away. -/
theorem Item.IsFresh.bare_eq {item : Item} (h : item.IsFresh) : item.bare = item := by
  obtain ⟨⟩ := item
  obtain ⟨rfl, rfl, rfl⟩ := h
  rfl

/-- A new unlock has no progress to take away. -/
theorem Item.IsFresh.bareUnlock_eq {item : Item} (h : item.IsFresh) : item.bareUnlock = item := by
  obtain ⟨⟩ := item
  obtain ⟨rfl, rfl, rfl⟩ := h
  rfl

/-- A new group of statistics has no progress to take away. -/
theorem Category.IsFresh.bareStatistic_eq {c : Category} (h : c.IsFresh) : c.bareStatistic = c := by
  have hcriteria : c.criteria.map (·.bare) = c.criteria :=
    (List.map_congr_left fun item hitem => (h.criteria item hitem).bare_eq).trans (List.map_id' _)
  obtain ⟨⟩ := c
  obtain ⟨-, rfl, rfl, rfl, rfl, rfl⟩ := h
  rw [bareStatistic, hcriteria]

/-- A new advancement has no progress to take away. -/
theorem Category.IsFresh.bareAdvancement_eq {c : Category} (h : c.IsFresh) :
    c.bareAdvancement = c := by
  rw [bareAdvancement, h.bareStatistic_eq]
  obtain ⟨⟩ := c
  obtain ⟨-, rfl, rfl, rfl, rfl, rfl⟩ := h
  rfl

/-- A goal before its first stage, with new stages, has none either. -/
theorem StagedGoal.IsWellFormed.bare_eq {goal : StagedGoal} (h : goal.IsWellFormed)
    (hcurrent : goal.current = 0) : goal.bare = goal := by
  have hstages : goal.stages.map (·.bare) = goal.stages := by
    refine (List.map_congr_left fun stage hstage => ?_).trans (List.map_id' _)
    have hnew := h.stages stage hstage
    obtain ⟨id, text, requirement⟩ := stage
    cases requirement with
    | statistic address required current =>
      obtain ⟨-, rfl⟩ := hnew
      rfl
    | _ => rfl
  rw [StagedGoal.bare, hstages, ← hcurrent]

end Bare

namespace Template

open Json

/-- What a stage requires is new. -/
theorem isNew_of_buildRequirement {goal : String} {index : Nat} {d : StageDeclaration}
    {requirement : Requirement} (h : buildRequirement goal index d = .ok requirement) :
    requirement.IsNew := by
  unfold buildRequirement at h
  split at h
  · simp only [bind_eq_ok_iff, pure_eq_ok_iff] at h
    obtain ⟨_, -, rfl⟩ := h
    trivial
  · split at h
    · simp only [bind_eq_ok_iff] at h
      obtain ⟨_, -, h⟩ := h
      split at h
      · cases h
      · rename_i hlow
        cases h
        refine ⟨?_, rfl⟩
        rw [Counter.lt_def, Counter.value_one] at hlow
        omega
    · split at h
      · simp only [bind_eq_ok_iff, pure_eq_ok_iff] at h
        obtain ⟨_, -, rfl⟩ := h
        trivial
      · split at h
        · simp only [bind_eq_ok_iff, pure_eq_ok_iff] at h
          obtain ⟨_, -, _, -, rfl⟩ := h
          trivial
        · split at h
          · cases h
            trivial
          · cases h

/-- A built staged goal is well formed. -/
theorem isWellFormed_of_buildGoal {names : DisplayNames} {d : GoalDeclaration} {goal : StagedGoal}
    (h : buildGoal names d = .ok goal) : goal.IsWellFormed := by
  refine ⟨(isClosed_of_buildGoal h).2, fun stage hstage => ?_⟩
  unfold buildGoal at h
  split at h
  · cases h
  · simp only [bind_eq_ok_iff, pure_eq_ok_iff] at h
    obtain ⟨stages, hbuilt, rfl⟩ := h
    have hdeclared : ∀ s ∈ stages, s.requirement.IsNew := by
      intro s hs
      obtain ⟨i, hi⟩ := List.mem_iff_getElem?.mp hs
      have hrel := rel_of_buildStages hbuilt i
      rw [hi] at hrel
      generalize d.stages[i]? = declared at hrel
      cases hrel with
      | some hbuild =>
        simp only [buildStage, bind_eq_ok_iff, pure_eq_ok_iff] at hbuild
        obtain ⟨requirement, hrequirement, rfl⟩ := hbuild
        exact isNew_of_buildRequirement hrequirement
    unfold closeStages at hstage
    split at hstage
    · exact hdeclared stage hstage
    · rcases List.mem_append.mp hstage with hs | hs
      · exact hdeclared stage hs
      · rw [List.mem_singleton.mp hs]
        trivial

/-- A built criterion of a group has an address and a target that was checked. -/
theorem isStatistic_of_buildCriterion {names : DisplayNames} {group : String}
    {d : String × Option CriterionDeclaration} {item : Item}
    (h : buildCriterion names group d = .ok item) : item.IsStatistic := by
  simp only [buildCriterion, bind_eq_ok_iff, pure_eq_ok_iff] at h
  obtain ⟨_, -, _, htarget, rfl⟩ := h
  exact ⟨le_of_checkTarget htarget, rfl⟩

/-- So has every criterion of a built group, the one that is made up included. -/
theorem isStatistic_of_buildStatistic {names : DisplayNames}
    {d : String × Option StatisticDeclaration} {group : Category}
    (h : buildStatistic names d = .ok group) : ∀ item ∈ group.criteria, item.IsStatistic := by
  simp only [buildStatistic, bind_eq_ok_iff] at h
  obtain ⟨declared, -, h⟩ := h
  cases hcriteria : declared.criteria with
  | none =>
    simp only [hcriteria, bind_eq_ok_iff, pure_eq_ok_iff] at h
    obtain ⟨_, htarget, rfl⟩ := h
    intro item hitem
    rw [List.mem_singleton.mp hitem]
    exact ⟨le_of_checkTarget htarget, rfl⟩
  | some criteria =>
    simp only [hcriteria, bind_eq_ok_iff, pure_eq_ok_iff, mapM_eq_ok_iff] at h
    obtain ⟨items, hitems, rfl⟩ := h
    intro item hitem
    obtain ⟨_, -, hbuild⟩ := exists_of_mem_of_forall₂ hitems hitem
    exact isStatistic_of_buildCriterion hbuild

/-- An advancement is no single statistic. -/
theorem single_of_buildAdvancement {names : DisplayNames}
    {d : String × Option AdvancementDeclaration} {a : Category}
    (h : buildAdvancement names d = .ok a) : a.single = false := by
  simp only [buildAdvancement, bind_eq_ok_iff, pure_eq_ok_iff] at h
  obtain ⟨_, -, criteria, -, rfl⟩ := h
  rfl

/-- The criteria of an advancement that was read have different names, as the keys of a block have. -/
theorem FollowsBlock.nodup {build : String × Option CriterionDeclaration → Except TemplateError Item}
    {block : List (String × Tree)} {criteria : List Item} (h : FollowsBlock build block criteria) :
    (criteria.map (·.name)).Nodup := by
  rw [h.names, ← map_fst_mergeMembers]
  exact nodup_mergeMembers block

/-- A checklist that is read is well formed. -/
theorem checklist_isWellFormed_of_read {text : String} {names : DisplayNames} {c : Checklist}
    (h : read text names = .ok c) : c.IsWellFormed := by
  obtain ⟨t, -, hfollows⟩ := follows_of_read h
  obtain ⟨hstatistics, hcriteria⟩ := nodup_statistics_of_read h
  have hadvancements := nodup_advancements_of_read h
  obtain ⟨-, htargets, -⟩ := isFresh_of_read h
  unfold read at h
  split at h
  · simp only [build, bind_eq_ok_iff, pure_eq_ok_iff, mapM_eq_ok_iff] at h
    obtain ⟨-, -, -, -, _, hunique, advancements, ha, statistics, hs, unlocks, hu, custom, hc, goals,
      hg, rfl⟩ := h
    constructor
    · exact hadvancements
    · exact hstatistics
    · rw [names_of_build (fun _ _ => name_of_buildUnlock) hu]
      exact nodup_of_checkUnique hunique
    · exact (nodup_of_buildListed (fun _ _ => name_of_buildCustom) hc).1
    · exact (nodup_of_buildListed (fun _ _ => name_of_buildGoal) hg).1
    · intro a hmem
      obtain ⟨m, -, hm⟩ := exists_of_mem_of_forall₂ hfollows.advancements hmem
      exact hm.criteria.nodup
    · exact hcriteria
    · intro a hmem
      obtain ⟨_, -, hbuild⟩ := exists_of_mem_of_forall₂ ha hmem
      exact single_of_buildAdvancement hbuild
    · intro group hmem
      obtain ⟨_, -, hbuild⟩ := exists_of_mem_of_forall₂ hs hmem
      exact isStatistic_of_buildStatistic hbuild
    · exact htargets
    · intro goal hmem
      obtain ⟨_, -, hbuild⟩ := exists_of_mem_of_forall₂ (forall₂_of_buildListed hg) hmem
      exact isWellFormed_of_buildGoal hbuild
  · cases h

/-- What a template makes is all that is left of a checklist without progress. -/
theorem bare_of_read {text : String} {names : DisplayNames} {c : Checklist}
    (h : read text names = .ok c) : c.bare = c := by
  have hwell := checklist_isWellFormed_of_read h
  obtain ⟨hfresh, -, -⟩ := isFresh_of_read h
  have hentries : { Checklist.empty with
      advancements := c.advancements
      statistics := c.statistics
      unlocks := c.unlocks
      custom := c.custom
      goals := c.goals } = c := by
    unfold read at h
    split at h
    · simp only [build, bind_eq_ok_iff, pure_eq_ok_iff] at h
      obtain ⟨-, -, -, -, -, -, advancements, -, statistics, -, unlocks, -, custom, -, goals, -,
        rfl⟩ := h
      rfl
    · cases h
  have hmap {α : Type} {f : α → α} {xs : List α} (hf : ∀ x ∈ xs, f x = x) : xs.map f = xs :=
    (List.map_congr_left hf).trans (List.map_id' xs)
  rw [Checklist.bare, hmap fun a ha => (hfresh.advancements a ha).bareAdvancement_eq,
    hmap fun s hs => (hfresh.statistics s hs).bareStatistic_eq,
    hmap fun u hu => (hfresh.unlocks u hu).bareUnlock_eq,
    hmap fun g hg => (hfresh.custom g hg).bare_eq,
    hmap fun g hg => (hwell.goal g hg).bare_eq (hfresh.current g hg), hentries]

/-- **Every template that is read is well formed.** A checklist that was read follows its text: the entries of each
section stand in the order of the text, those of a block of criteria at the first place of their key and with its
last value, a group of statistics is a single one exactly if its part of the text has no block of criteria, and the
stages of a goal are those that were declared, with at most one stage behind them that ends the goal. All names of a
section and of a category are different, targets are at least -1, every criterion of a group of statistics has an
address, every goal ends with a stage that only marks the end, and its statistics require at least one. Nothing shows
any progress. Every entry is the one that its name finds. -/
theorem isWellFormed_of_read {text : String} {names : DisplayNames} {c : Checklist}
    (h : read text names = .ok c) :
    (∃ t, Tree.read? text = some t ∧ Follows names t c) ∧ c.IsWellFormed ∧ (c.IsFresh ∧ c.bare = c) ∧
      c.IsFoundByName := by
  have hwell := checklist_isWellFormed_of_read h
  obtain ⟨hfresh, -, -⟩ := isFresh_of_read h
  exact ⟨follows_of_read h, hwell, ⟨hfresh, bare_of_read h⟩, hwell.isFoundByName⟩

/-- A group of statistics is null and another one is an array whose block of criteria repeats a key; a goal declares
no end. -/
theorem isWellFormed_of_read_repeated_criterion :
    let text := "\x7b\"stats\":\x7b\"walk\":null,\"go\":[null,false,null,0,\x7b\"swim\":null,\"fly\":null," ++
      "\"swim\":\x7b\"target\":-1\x7d\x7d]\x7d,\"multi_stage_goals\":[\x7b\"root_name\":\"end\",\"stages\":" ++
      "[\x7b\"type\":\"stat\",\"root_name\":\"jump\",\"target\":3\x7d]\x7d]\x7d"
    ∃ c, read text ∅ = .ok c ∧
      c.statistics.map (fun group => (group.name, group.single, group.criteria.map fun item =>
        (item.name, item.target, item.address))) =
        [("walk", true, [("walk", 0, some ⟨"walk"⟩)]),
          ("go", false, [("swim", .clamp (-1), some ⟨"swim"⟩), ("fly", 0, some ⟨"fly"⟩)])] ∧
      c.goals.map (·.stages) = [[⟨"stage_0", "stage_0", .statistic ⟨"jump"⟩ 3 0⟩, finalStage]] ∧
      ((∃ t, Tree.read? text = some t ∧ Follows ∅ t c) ∧ c.IsWellFormed ∧ (c.IsFresh ∧ c.bare = c) ∧
        c.IsFoundByName) := by
  intro text
  let criterion (name : String) (target : Counter) : Item :=
    { Item.new name name with target := target, address := some ⟨name⟩ }
  let c : Checklist := { Checklist.empty with
    statistics := [.ofStatistic "walk" "walk" ⟨"walk"⟩ 0 false,
      .new "go" "go" [criterion "swim" (.clamp (-1)), criterion "fly" 0]]
    goals := [⟨"end", "end", [⟨"stage_0", "stage_0", .statistic ⟨"jump"⟩ 3 0⟩, finalStage], 0, false⟩] }
  have hread : read text ∅ = .ok c := by decide +kernel
  exact ⟨c, hread, rfl, rfl, isWellFormed_of_read hread⟩

end Template

end Milestone
