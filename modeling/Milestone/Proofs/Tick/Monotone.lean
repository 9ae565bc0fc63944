import Milestone.Proofs.Checklist.AtMost
import Milestone.Proofs.Checklist.Complete
import Milestone.Proofs.Tick.Forget

/-!
# More in the documents, more in the checklist

Where all documents of one tick show at least what those of another show, the checklist after it shows at least
as much progress. Each pass is monotone on its own: lifetime counters stop at the ends of their range and at zero
without changing their order, overrides only add to what is done, and a scan that stops at the first stage that
is not complete comes as far when more stages are. The counts and the steps follow the entries.
-/

namespace Milestone

open Json

/-- A checklist asks for the statistic under an address, for a criterion or for a stage. -/
inductive Checklist.AsksFor (c : Checklist) (address : Address) : Prop where
  | criterion {group : Category} {item : Item} (hgroup : group ∈ c.statistics)
      (hitem : item ∈ group.criteria) (haddress : item.address = some address)
  | stage {goal : StagedGoal} {stage : Stage} {required current : Counter} (hgoal : goal ∈ c.goals)
      (hstage : stage ∈ goal.stages)
      (hrequirement : stage.requirement = .statistic address required current)

/-- Sources of the same world whose documents show at most what those of others show, of the statistics those
for which a checklist asks. A counter that is absent is zero. -/
structure Sources.AtMost (era : Era) (c : Checklist) (s t : Sources) : Prop where
  world : s.world = t.world
  entryDone : ∀ a ∈ s.achievements era, ∀ b ∈ t.achievements era, ∀ name,
    era.entryDone a name = true → era.entryDone b name = true
  criterionPresent : ∀ a ∈ s.achievements era, ∀ b ∈ t.achievements era, ∀ parent name,
    era.criterionPresent a parent name = true → era.criterionPresent b parent name = true
  counter : ∀ a ∈ s.statistics, ∀ b ∈ t.statistics, ∀ address, c.AsksFor address →
    (era.counter? a address).getD 0 ≤ (era.counter? b address).getD 0
  obtained : ∀ a ∈ s.unlocks, ∀ b ∈ t.unlocks, ∀ name,
    isObtained a name = true → isObtained b name = true

namespace Counter

/-- A mark that follows from another counts for no less. -/
theorem ofFlag_le {x y : Bool} (h : x = true → y = true) : ofFlag x ≤ ofFlag y := by
  cases x with
  | false => cases y <;> decide
  | true =>
    have hy : y = true := h rfl
    subst hy
    exact Int.le_refl _

/-- Differences to the same counter keep their order, also where they stop at an end or at zero. -/
theorem nonNegative_sub_le {a b : Counter} (h : a ≤ b) (base : Counter) :
    (a - base).nonNegative ≤ (b - base).nonNegative := by
  rw [le_def] at h ⊢
  rw [value_nonNegative, value_nonNegative, value_sub, value_sub]
  omega

end Counter

/-- Progress is ordered as the counters are. -/
theorem Era.progress_le {era : Era} {doc other : Value} {address : Address}
    (h : (era.counter? doc address).getD 0 ≤ (era.counter? other address).getD 0) (b : Baseline) :
    era.progress doc address b ≤ era.progress other address b := by
  cases era with
  | legacy => exact Counter.nonNegative_sub_le h _
  | _ => exact h

section Entries

variable {era : Era} {doc other : Value} (b : Baseline) (state : SavedState)

/-- An advancement follows what its document reports of it and of its criteria. -/
theorem Category.updateAdvancement_atMost
    (hentry : ∀ name, era.entryDone doc name = true → era.entryDone other name = true)
    (hcriterion : ∀ parent name, era.criterionPresent doc parent name = true →
      era.criterionPresent other parent name = true) (c : Category) :
    (c.updateAdvancement era doc b).AtMost (c.updateAdvancement era other b) := by
  have hearned (item : Item) : isEarned era doc c.name item = true →
      isEarned era other c.name item = true := by
    unfold isEarned
    split
    · exact hentry c.name
    · exact hcriterion c.name item.name
  have hcriteria : List.Forall₂ Item.AtMost (c.updateAdvancement era doc b).criteria
      (c.updateAdvancement era other b).criteria :=
    forall₂_map_of_forall fun item _ => ⟨rfl, Counter.ofFlag_le (hearned item), hearned item⟩
  have hcompleted := countDone_le hcriteria
  have hmet : (c.updateAdvancement era doc b).allMet = true →
      (c.updateAdvancement era other b).allMet = true := by
    have hle := countDone_le_length (c.updateAdvancement era other b).criteria
    simp only [updateAdvancement, List.isEmpty_map, List.length_map] at hcompleted hle ⊢
    split
    · exact hentry c.name
    · rw [beq_iff_eq, beq_iff_eq]
      omega
  refine ⟨?_, hcriteria, hcompleted, hmet, ?_⟩
  · simp [bareStatistic, updateAdvancement, markEarned, Item.bare, Function.comp_def]
  · have hdone := hentry c.name
    simp only [updateAdvancement, Bool.or_eq_true] at hmet ⊢
    exact Or.imp hdone hmet

/-- A criterion follows its counter, whatever the overrides. -/
theorem Category.updateCriterion_atMost (c : Category) {item : Item}
    (hcounter : ∀ address, item.address = some address →
      (era.counter? doc address).getD 0 ≤ (era.counter? other address).getD 0) :
    (c.updateCriterion era doc b state item).AtMost (c.updateCriterion era other b state item) := by
  have hprogress : (c.updateCriterion era doc b state item).progress ≤
      (c.updateCriterion era other b state item).progress := by
    simp only [updateCriterion]
    cases haddress : item.address with
    | none => exact Int.le_refl _
    | some address => exact Era.progress_le (hcounter address haddress) b
  refine ⟨rfl, hprogress, ?_⟩
  simp only [updateCriterion, Bool.or_eq_true, Item.isReached_iff]
  exact Or.imp_left (And.imp_right fun hreached => Int.le_trans hreached hprogress)

/-- A document with higher counters brings a group at least as far. -/
theorem Category.updateStatistic_atMost {c : Category}
    (hcounter : ∀ item ∈ c.criteria, ∀ address, item.address = some address →
      (era.counter? doc address).getD 0 ≤ (era.counter? other address).getD 0) :
    (c.updateStatistic era doc b state).AtMost (c.updateStatistic era other b state) := by
  have hcriteria : List.Forall₂ Item.AtMost (c.updateStatistic era doc b state).criteria
      (c.updateStatistic era other b state).criteria :=
    forall₂_map_of_forall fun item hitem => c.updateCriterion_atMost b state (hcounter item hitem)
  have hcompleted := countDone_le hcriteria
  have hmet : (c.updateStatistic era doc b state).allMet = true →
      (c.updateStatistic era other b state).allMet = true := by
    have hle := countDone_le_length (c.updateStatistic era other b state).criteria
    simp only [updateStatistic, List.isEmpty_map, List.length_map, Bool.and_eq_true,
      beq_iff_eq] at hcompleted hle ⊢
    exact And.imp_right fun hall => by omega
  refine ⟨?_, hcriteria, hcompleted, hmet, ?_⟩
  · rw [bareStatistic_updateStatistic, bareStatistic_updateStatistic]
  · simp only [updateStatistic, Bool.or_eq_true] at hmet ⊢
    exact Or.imp_left hmet

/-- A document with more unlocks brings an unlock at least as far. -/
theorem Item.updateUnlock_atMost
    (hobtained : ∀ name, isObtained doc name = true → isObtained other name = true) (item : Item) :
    (item.updateUnlock doc).AtMost (item.updateUnlock other) :=
  ⟨rfl, Counter.ofFlag_le (hobtained item.name), hobtained item.name⟩

end Entries

/-- What a name finds in two lists of the same categories. -/
theorem find?_name_atMost {xs ys : List Category} (h : List.Forall₂ Category.AtMost xs ys)
    (name : String) :
    Option.Rel Category.AtMost (xs.find? (·.name == name)) (ys.find? (·.name == name)) := by
  induction h with
  | nil => exact .none
  | @cons x y xs ys hxy _ ih =>
    have hname : x.name = y.name := congrArg (·.name) hxy.same
    rw [List.find?_cons, List.find?_cons, hname]
    cases y.name == name with
    | true => exact .some hxy
    | false => exact ih

namespace StageContext

/-- Stages are evaluated in the same era and from the same baseline, but against at most what another context
shows of what a checklist asks for. -/
structure AtMost (c : Checklist) (x y : StageContext) : Prop where
  era : x.era = y.era
  baseline : x.baseline = y.baseline
  advancements : List.Forall₂ Category.AtMost x.advancements y.advancements
  sources : x.sources.AtMost x.era c y.sources

/-- The count that a stage shows is the one that was seen. -/
theorem seen?_counted {ctx : StageContext} (hera : ctx.era.isKnown = true)
    (hfull : ctx.sources.IsFull ctx.era) (stage : Stage) :
    (ctx.counted stage).seen? = (ctx.evaluate stage.requirement).2 := by
  obtain ⟨achievements, statistics, unlocks, ha, hs, hu⟩ := documents_of_isFull hera hfull
  obtain ⟨id, text, requirement⟩ := stage
  cases requirement <;>
    simp only [counted, evaluate, ha, hs, hu, observed, Stage.observe, Stage.seen?]

section Goals

variable {c : Checklist} {x y : StageContext} (h : x.AtMost c y) (hera : x.era.isKnown = true)
  (hx : x.sources.IsFull x.era) (hy : y.sources.IsFull y.era)

include h

/-- What a stage finds done in one document it finds done in the other. -/
theorem AtMost.isAdvancementDone {doc other : Value}
    (hentry : ∀ name, x.era.entryDone doc name = true → x.era.entryDone other name = true)
    (name : String) :
    x.isAdvancementDone doc name = true → y.isAdvancementDone other name = true := by
  have hfound := find?_name_atMost h.advancements name
  unfold StageContext.isAdvancementDone
  rw [← h.era]
  generalize x.advancements.find? (·.name == name) = a at hfound ⊢
  generalize y.advancements.find? (·.name == name) = b at hfound ⊢
  cases hfound with
  | none => exact hentry name
  | some hab => exact hab.done

include hera hx hy

/-- With all documents at hand a stage that is complete stays so, and its count does not fall. -/
theorem AtMost.evaluate {stage : Stage}
    (hasks : ∀ address required current,
      stage.requirement = .statistic address required current → c.AsksFor address) :
    (x.isComplete stage = true → y.isComplete stage = true) ∧
      ∀ a ∈ (x.evaluate stage.requirement).2, ∀ b ∈ (y.evaluate stage.requirement).2, a ≤ b := by
  obtain ⟨achievements, statistics, unlocks, ha, hs, hu⟩ := documents_of_isFull hera hx
  obtain ⟨achievements', statistics', unlocks', ha', hs', hu'⟩ :=
    documents_of_isFull (h.era ▸ hera) hy
  have hread : x.sources.achievements x.era = some achievements := by
    rwa [StageContext.achievements, if_pos hera] at ha
  have hread' : y.sources.achievements x.era = some achievements' := by
    rwa [StageContext.achievements, ← h.era, if_pos hera] at ha'
  have hcounts : x.sources.statistics = some statistics := by
    rwa [StageContext.statistics, if_pos hera] at hs
  have hcounts' : y.sources.statistics = some statistics' := by
    rwa [StageContext.statistics, ← h.era, if_pos hera] at hs'
  have hunseen : ∀ a ∈ (none : Option Counter), ∀ b ∈ (none : Option Counter), a ≤ b :=
    fun a hmem => absurd hmem (Option.not_mem_none a)
  obtain ⟨id, text, requirement⟩ := stage
  cases requirement with
  | manual =>
    refine ⟨fun hcomplete => ?_, hunseen⟩
    cases hcomplete
  | advancement name =>
    simp only [StageContext.isComplete, StageContext.evaluate, ha, ha',
      StageStatus.ofBool_beq_complete]
    exact ⟨h.isAdvancementDone (h.sources.entryDone _ hread _ hread') name, hunseen⟩
  | statistic address required current =>
    have hcounter := h.sources.counter _ hcounts _ hcounts' address (hasks _ _ _ rfl)
    have hseen : x.era.progress statistics address x.baseline ≤
        y.era.progress statistics' address y.baseline := by
      rw [← h.era, ← h.baseline]
      exact Era.progress_le hcounter x.baseline
    simp only [StageContext.isComplete, StageContext.evaluate, hs, hs',
      StageStatus.ofBool_beq_complete, decide_eq_true_eq]
    refine ⟨fun hmet => Int.le_trans hmet hseen, fun a hseenA b hseenB => ?_⟩
    cases hseenA
    cases hseenB
    exact hseen
  | unlock name =>
    simp only [StageContext.isComplete, StageContext.evaluate, hu, hu',
      StageStatus.ofBool_beq_complete]
    exact ⟨h.sources.obtained _ hu _ hu' name, hunseen⟩
  | criterion parent name =>
    simp only [StageContext.isComplete, StageContext.evaluate, ha, ha', ← h.era,
      StageStatus.ofBool_beq_complete]
    exact ⟨h.sources.criterionPresent _ hread _ hread' parent name, hunseen⟩

/-- A goal comes at least as far where more of its stages are complete. -/
theorem AtMost.updateGoal {goal : StagedGoal} (hgoal : goal ∈ c.goals) (hcons : goal.IsConsistent) :
    (x.updateGoal goal).AtMost (y.updateGoal goal) := by
  have heval (stage : Stage) (hstage : stage ∈ goal.stages) :=
    h.evaluate hera hx hy fun _ _ _ => Checklist.AsksFor.stage hgoal hstage
  have hera' : y.era.isKnown = true := h.era ▸ hera
  have hreach : x.reach goal.stages ≤ y.reach goal.stages := by
    refine List.findIdx_le_findIdx fun stage hstage hstop => ?_
    rw [Bool.not_eq_true', ← Bool.not_eq_true] at hstop ⊢
    exact mt (heval stage hstage).1 hstop
  have hend := (isConsistent_updateGoal y hcons).current_le_steps
  rw [updateGoal_of_isFull x hera hx, updateGoal_of_isFull y hera' hy] at *
  refine ⟨?_, hreach, ?_, fun i hi a ha b hb => ?_⟩
  · simp only [StagedGoal.bare, bare_shown]
  · simp only [StagedGoal.isComplete, StagedGoal.steps, shown, List.length_mapIdx, Bool.and_eq_true,
      Bool.not_eq_true', List.isEmpty_eq_false_iff, ne_eq, List.mapIdx_eq_nil_iff,
      beq_iff_eq] at hend ⊢
    exact And.imp_right fun hcurrent => by omega
  · obtain ⟨stage, hstage, hseen⟩ := Option.bind_eq_some_iff.mp ha
    obtain ⟨stage', hstage', hseen'⟩ := Option.bind_eq_some_iff.mp hb
    obtain ⟨old, hold, rfl⟩ := getElem?_shown hstage hi
    obtain ⟨old', hold', rfl⟩ := getElem?_shown hstage' (Nat.le_trans hi hreach)
    obtain rfl : old = old' := Option.some.inj (hold.symm.trans hold')
    rw [seen?_counted hera hx] at hseen
    rw [seen?_counted hera' hy] at hseen'
    exact (heval old (List.mem_of_getElem? hold)).2 a hseen b hseen'

end Goals

end StageContext

section Tick

variable {version : Version} {c : Checklist} {state : SavedState} {s t : Sources}

/-- No baseline is captured of a world that it is already of. -/
theorem Sources.capturesBaseline_of_captured {b : Baseline}
    (h : version.era = .legacy → ∀ world, s.world = some world → b.world = some world) :
    s.capturesBaseline version b = false := by
  rw [← Bool.not_eq_true]
  intro hcap
  simp only [capturesBaseline, Bool.and_eq_true, beq_iff_eq, Option.any_eq_true,
    Baseline.isNeededFor, bne_iff_ne] at hcap
  obtain ⟨⟨hlegacy, -⟩, world, hworld, hneeded⟩ := hcap
  exact hneeded (h hlegacy world hworld)

/-- Ticks in the same world that capture no baseline leave the same state. -/
theorem tick_state_of_world_eq (hworld : s.world = t.world)
    (hs : s.capturesBaseline version state.baseline = false)
    (ht : t.capturesBaseline version state.baseline = false) (now later : Instant) :
    (tick version now s c state).state = (tick version later t c state).state := by
  have henters : s.entersWorld c = t.entersWorld c := by
    simp only [Sources.entersWorld, hworld]
  simp only [tick_state, Sources.clearsProgress, Sources.changesWorld, henters, hs, ht, hworld,
    Baseline.renewed_of_not_captures hs, Baseline.renewed_of_not_captures ht]

/-- **More in the documents never shows as less progress.** Take a tick of a known era on any reached checklist
and any saved state, and another tick on the same two, at any time, whose sources are of the same world. Let all
documents of the era be there for both, and in the oldest era let the baseline be of that world already. If
whatever the first documents report as done, earned or obtained the second ones report too, and no counter that
the checklist asks for is lower in the second ones, then the second tick leaves at least the progress that the
first one leaves: in every entry, in the counts of the sections and in the completed steps, out of as many steps
in all. -/
theorem tick_progress_mono (version : Version) (hera : version.era.isKnown = true)
    (now later : Instant) (hc : c.Reached) (state : SavedState) (hs : s.IsFull version.era)
    (ht : t.IsFull version.era) (hmore : s.AtMost version.era c t)
    (hbaseline : version.era = .legacy →
      ∀ world, s.world = some world → state.baseline.world = some world) :
    (tick version now s c state).checklist.AtMost (tick version later t c state).checklist := by
  have hcap : s.capturesBaseline version state.baseline = false :=
    Sources.capturesBaseline_of_captured hbaseline
  have hcap' : t.capturesBaseline version state.baseline = false :=
    Sources.capturesBaseline_of_captured (hmore.world ▸ hbaseline)
  have hrenewed := Baseline.renewed_of_not_captures hcap now c
  have hrenewed' := Baseline.renewed_of_not_captures hcap' later c
  have hstate := tick_state_of_world_eq (c := c) hmore.world hcap hcap' now later
  obtain ⟨doc, hdoc⟩ := Option.isSome_iff_exists.mp hs.achievements
  obtain ⟨doc', hdoc'⟩ := Option.isSome_iff_exists.mp ht.achievements
  obtain ⟨counts, hcounts⟩ := Option.isSome_iff_exists.mp hs.statistics
  obtain ⟨counts', hcounts'⟩ := Option.isSome_iff_exists.mp ht.statistics
  obtain ⟨unlocks, hunlocks⟩ := Option.isSome_iff_exists.mp hs.unlocks
  obtain ⟨unlocks', hunlocks'⟩ := Option.isSome_iff_exists.mp ht.unlocks
  have hadvancements : List.Forall₂ Category.AtMost
      (tick version now s c state).checklist.advancements
      (tick version later t c state).checklist.advancements := by
    rw [tick_advancements, tick_advancements, hrenewed, hrenewed']
    refine forall₂_map_of_forall fun a _ => ?_
    simp only [Category.tickAdvancement, Sources.readAchievements, if_pos hera, hdoc, hdoc']
    exact a.updateAdvancement_atMost state.baseline (hmore.entryDone _ hdoc _ hdoc')
      (hmore.criterionPresent _ hdoc _ hdoc')
  have hctx : (StageContext.ofTick version now s c state).AtMost c
      (StageContext.ofTick version later t c state) :=
    ⟨rfl, hrenewed.trans hrenewed'.symm, hadvancements, hmore⟩
  have hentries : (tick version now s c state).checklist.EntriesAtMost
      (tick version later t c state).checklist := by
    refine ⟨hadvancements, ?_, ?_, ?_, ?_⟩
    · rw [tick_statistics, tick_statistics, hrenewed, hrenewed', hstate]
      refine forall₂_map_of_forall fun group hgroup => ?_
      simp only [Category.tickStatistic, Sources.readStatistics, if_pos hera, hcounts, hcounts']
      exact Category.updateStatistic_atMost _ _ fun item hitem address haddress =>
        hmore.counter _ hcounts _ hcounts' address (.criterion hgroup hitem haddress)
    · rw [tick_unlocks, tick_unlocks]
      refine forall₂_map_of_forall fun u _ => ?_
      simp only [Item.tickUnlock, hunlocks, hunlocks']
      exact u.updateUnlock_atMost (hmore.obtained _ hunlocks _ hunlocks')
    · rw [tick_custom, tick_custom, hstate]
      exact forall₂_map_of_forall fun g _ => .refl _
    · rw [tick_goals, tick_goals]
      exact forall₂_map_of_forall fun goal hgoal =>
        hctx.updateGoal hera hs ht hgoal (hc.goal_consistent goal hgoal)
  rw [← recompute_tick version now s, ← recompute_tick version later t]
  exact hentries.recompute version.era

/-- The counters run through all worlds and are above the baseline of this one, in the second documents by more.
The way to go is a criterion and the first stage of a goal. -/
theorem tick_progress_mono_above_baseline :
    let text := "\x7b\"stats\":\x7b\"walk\":\x7b\"criteria\":" ++
      "\x7b\"far\":\x7b\"target\":5\x7d,\"high\":\x7b\"target\":9\x7d\x7d\x7d\x7d," ++
      "\"multi_stage_goals\":[\x7b\"root_name\":\"trip\",\"stages\":" ++
      "[\x7b\"type\":\"stat\",\"root_name\":\"far\",\"target\":4\x7d,\x7b\"type\":\"final\"\x7d]\x7d]\x7d"
    let version : Version := ⟨"1.6.4"⟩
    let now : Instant := ⟨⟨2013, 7, 1, by decide⟩, 0, 0, by decide⟩
    let sources (far : Int) (others : List (String × Value)) : Sources :=
      ⟨some "A", none, some (.object (("far", .number (.whole far)) :: others)), some (.object [])⟩
    let s := sources 12 []
    let t := sources 16 [("high", .number (.whole 3))]
    let state : SavedState :=
      { SavedState.empty with
        baseline := { Baseline.empty with world := some "A", counters := .ofList [("far", 10)] } }
    ∃ c, Template.read text ∅ = .ok c ∧ s.IsFull version.era ∧ t.IsFull version.era ∧
      s.AtMost version.era c t ∧
      (tick version now s c state).checklist.AtMost (tick version now t c state).checklist ∧
      (tick version now s c state).checklist.completedSteps = 0 ∧
      (tick version now t c state).checklist.completedSteps = 2 := by
  intro text version now sources s t state
  let criterion (name : String) (target : Counter) : Item :=
    { Item.new name name with target := target, address := some ⟨name⟩ }
  let c : Checklist :=
    { Checklist.empty with
      statistics := [.new "walk" "walk" [criterion "far" 5, criterion "high" 9]]
      goals :=
        [⟨"trip", "trip", [⟨"stage_0", "stage_0", .statistic ⟨"far"⟩ 4 0⟩,
          ⟨"stage_1", "stage_1", .manual⟩], 0, false⟩] }
  have hread : Template.read text ∅ = .ok c := by decide +kernel
  have hs : s.IsFull version.era := ⟨by decide, rfl, rfl⟩
  have ht : t.IsFull version.era := ⟨by decide, rfl, rfl⟩
  have hera : version.era = .legacy := by decide
  have hmore : s.AtMost version.era c t := by
    rw [hera]
    refine ⟨rfl, fun a ha b hb name hdone => ?_, fun a ha b hb parent name hpresent => ?_,
      fun a ha b hb address _ => ?_, fun a ha b hb name hobtained => ?_⟩ <;> cases ha <;> cases hb
    · by_cases hfar : name = "far"
      · rw [hfar]
        decide
      · simp [Era.entryDone, Value.get?, Value.members?, Keyed.lookup_cons_ite, hfar] at hdone
    · simp only [Era.criterionPresent] at hpresent
      split at hpresent <;> cases hpresent
    · by_cases hfar : address.raw = "far"
      · simp only [Era.counter?, hfar]
        decide
      · by_cases hhigh : address.raw = "high"
        · simp only [Era.counter?, hhigh]
          decide
        · simp [Era.counter?, Value.get?, Value.members?, Keyed.lookup_cons_ite, hfar, hhigh,
            Counter.le_def]
    · cases hobtained
  exact ⟨c, hread, hs, ht, hmore,
    tick_progress_mono version (by decide) now now (.read hread) state hs ht hmore
      (fun _ world hworld => hworld),
    by decide, by decide⟩

end Tick

end Milestone
