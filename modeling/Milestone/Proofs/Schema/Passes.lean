import Milestone.Proofs.Schema.Shown

/-!
# One meaning in every schema

What was done in a world leads to the same checklist in every era that counts per world, however its documents store
it. Each pass reads no more of the documents than what they show under the names and addresses of the checklist, and
there all of them show the same. The oldest era knows no criteria and counts from a baseline; where that is zero and
no counter is below it, its statistics are the same as well.
-/

namespace Milestone

open Json

/-- The achievement that a stage asks for, by itself or for one of its criteria. -/
def Requirement.achievement? : Requirement → Option String
  | .advancement name => some name
  | .criterion parent _ => some parent
  | _ => none

/-- No advancement of a checklist, and none that a stage asks for, has the name of an address with a counter. -/
structure Checklist.IsApartFrom (c : Checklist) (p : Attainment) : Prop where
  advancements : ∀ a ∈ c.advancements, p.counter? ⟨a.name⟩ = none
  stages : ∀ goal ∈ c.goals, ∀ stage ∈ goal.stages, ∀ name ∈ stage.requirement.achievement?,
    p.counter? ⟨name⟩ = none

/-- A checklist shows what was done: a criterion is done if it is earned, an advancement if it is done or all its
criteria are, and a statistic has progressed as far as its counter. -/
structure Checklist.Shows (c : Checklist) (p : Attainment) : Prop where
  earned : ∀ a ∈ c.advancements, ∀ item ∈ a.criteria, item.done = p.hasEarned a.name item.name
  done_iff : ∀ a ∈ c.advancements, a.done = true ↔
    p.isDone a.name = true ∨ a.criteria ≠ [] ∧ ∀ item ∈ a.criteria, item.done = true
  counted : ∀ group ∈ c.statistics, ∀ item ∈ group.criteria, ∀ address, item.address = some address →
    item.progress = (p.counter? address).getD 0

section Entries

variable {era other : Era} {doc doc' : Value} (b : Baseline)

/-- An advancement is done if it is reported so, or if it has criteria and all of them are done. -/
theorem Category.done_updateAdvancement_iff (c : Category) :
    (c.updateAdvancement era doc b).done = true ↔ era.entryDone doc c.name = true ∨
      (c.updateAdvancement era doc b).criteria ≠ [] ∧
        ∀ item ∈ (c.updateAdvancement era doc b).criteria, item.done = true := by
  have hall : (c.updateAdvancement era doc b).completed = (c.updateAdvancement era doc b).criteria.length ↔
      ∀ item ∈ (c.updateAdvancement era doc b).criteria, item.done = true := List.countP_eq_length
  rw [← hall]
  simp only [updateAdvancement, Bool.or_eq_true, ne_eq, List.isEmpty_iff]
  split
  · rename_i hnil
    simp only [hnil, not_true_eq_false, false_and, or_false, or_self]
  · rename_i hcriteria
    simp only [beq_iff_eq, hcriteria, not_false_eq_true, true_and]

/-- An advancement follows what is shown under its name. -/
theorem Category.updateAdvancement_of_shown {c : Category} (hera : era ≠ .legacy) (hother : other ≠ .legacy)
    (hentry : era.entryDone doc c.name = other.entryDone doc' c.name)
    (hcriterion : ∀ name, era.criterionPresent doc c.name name = other.criterionPresent doc' c.name name) :
    c.updateAdvancement era doc b = c.updateAdvancement other doc' b := by
  have hearned (item : Item) : isEarned era doc c.name item = isEarned other doc' c.name item := by
    simp only [isEarned]
    exact hcriterion item.name
  have hbefore : (era == .legacy) = (other == .legacy) := by
    rw [beq_eq_false_iff_ne.mpr hera, beq_eq_false_iff_ne.mpr hother]
  simp only [updateAdvancement, hearned, hentry, hbefore]

/-- A group of statistics follows the progress under its addresses. -/
theorem Category.updateStatistic_of_shown {c : Category} (state : SavedState)
    (h : ∀ a, era.progress doc a b = other.progress doc' a b) :
    c.updateStatistic era doc b state = c.updateStatistic other doc' b state := by
  have hcriterion : c.updateCriterion era doc b state = c.updateCriterion other doc' b state := by
    funext item
    simp only [updateCriterion, h]
  simp only [updateStatistic, hcriterion]

/-- Stages that are evaluated alike are scanned alike. -/
theorem StageContext.scan_of_evaluate {x y : StageContext} {stages : List Stage}
    (h : ∀ stage ∈ stages, x.evaluate stage.requirement = y.evaluate stage.requirement) :
    x.scan stages = y.scan stages := by
  induction stages with
  | nil => rfl
  | cons stage rest ih =>
    have hrest := ih fun later hlater => h later (List.mem_cons_of_mem _ hlater)
    simp only [scan, h stage List.mem_cons_self, hrest]

end Entries

/-- In an era that counts per world a counter is the progress itself. -/
theorem Era.progress_of_isPerWorld {era : Era} (hera : era.isPerWorld = true) (doc : Value)
    (a : Address) (b : Baseline) : era.progress doc a b = (era.counter? doc a).getD 0 := by
  cases era <;> cases hera <;> rfl

/-- So is a lifetime counter that is not negative, where the baseline is zero. -/
theorem Era.progress_legacy {doc : Value} {a : Address} {b : Baseline} (hzero : b.counter a.raw = 0)
    (hcounter : ∀ n ∈ Era.legacy.counter? doc a, 0 ≤ n) :
    Era.legacy.progress doc a b = (Era.legacy.counter? doc a).getD 0 := by
  have hraw : (0 : Counter) ≤ (Era.legacy.counter? doc a).getD 0 := by
    cases h : Era.legacy.counter? doc a with
    | none => exact Int.le_refl _
    | some n => exact hcounter n h
  simp only [Era.progress, hzero]
  generalize (Era.legacy.counter? doc a).getD 0 = raw at hraw ⊢
  have hlower := raw.lower
  have hupper := raw.upper
  rw [Counter.le_def, Counter.value_zero] at hraw
  apply Counter.ext
  rw [Counter.value_nonNegative, Counter.value_sub, Counter.value_zero, Counter.least, Counter.greatest]
  omega

theorem Era.isKnown_of_isPerWorld {era : Era} (hera : era.isPerWorld = true) : era.isKnown = true := by
  cases era <;> cases hera <;> rfl

namespace Attainment

variable {p : Attainment} {era other : Era} (world : Option String) (unlocks : Option Value) (b : Baseline)

@[simp] theorem sources_unlocks : (p.sources era world unlocks).unlocks = unlocks := by
  cases era <;> rfl

/-- An era that counts per world shows every counter as progress. -/
theorem exists_progress (hera : era.isPerWorld = true) :
    ∃ doc, (p.sources era world unlocks).readStatistics era = some doc ∧
      ∀ a, era.progress doc a b = (p.counter? a).getD 0 := by
  obtain ⟨doc, hdoc, hcounter⟩ := p.exists_statistics (Era.isKnown_of_isPerWorld hera) world unlocks
  exact ⟨doc, hdoc, fun a => by rw [Era.progress_of_isPerWorld hera, hcounter]⟩

/-- So does the oldest era for counters that are not negative, from a baseline of zero. -/
theorem exists_progress_legacy (hzero : ∀ address, b.counter address = 0)
    (hcounters : ∀ address, ∀ n ∈ p.counter? address, 0 ≤ n) :
    ∃ doc, (p.sources .legacy world unlocks).readStatistics .legacy = some doc ∧
      ∀ a, Era.legacy.progress doc a b = (p.counter? a).getD 0 := by
  obtain ⟨doc, hdoc, hcounter⟩ := @exists_statistics p .legacy rfl world unlocks
  refine ⟨doc, hdoc, fun a => ?_⟩
  rw [Era.progress_legacy (hzero a.raw), hcounter]
  rw [hcounter]
  exact hcounters a

/-- A group of statistics is the same after a tick in two eras that show the same progress. -/
theorem tickStatistic_of_progress {s t : Sources} {progress : Address → Counter}
    (hs : ∃ doc, s.readStatistics era = some doc ∧ ∀ a, era.progress doc a b = progress a)
    (ht : ∃ doc, t.readStatistics other = some doc ∧ ∀ a, other.progress doc a b = progress a)
    (state : SavedState) (c : Category) :
    c.tickStatistic era s b state = c.tickStatistic other t b state := by
  obtain ⟨doc, hdoc, hprogress⟩ := hs
  obtain ⟨doc', hdoc', hprogress'⟩ := ht
  simp only [Category.tickStatistic, hdoc, hdoc']
  exact Category.updateStatistic_of_shown b state fun a => (hprogress a).trans (hprogress' a).symm

/-- Its criteria have progressed as far as is shown. -/
theorem progress_tickStatistic {s : Sources} {progress : Address → Counter}
    (hs : ∃ doc, s.readStatistics era = some doc ∧ ∀ a, era.progress doc a b = progress a)
    (state : SavedState) (c : Category) : ∀ item ∈ (c.tickStatistic era s b state).criteria,
      ∀ address, item.address = some address → item.progress = progress address := by
  obtain ⟨doc, hdoc, hprogress⟩ := hs
  simp only [Category.tickStatistic, hdoc]
  intro item hitem address haddress
  obtain ⟨old, -, rfl⟩ := List.mem_map.mp hitem
  have hold : old.address = some address := haddress
  simp only [Category.updateCriterion, hold, Option.map_some, Option.getD_some, hprogress]

/-- An advancement shows what was done. -/
theorem shown_tickAdvancement (hera : era.isPerWorld = true) {c : Category}
    (hname : p.counter? ⟨c.name⟩ = none) :
    let after := c.tickAdvancement era (p.sources era world unlocks) b
    (∀ item ∈ after.criteria, item.done = p.hasEarned after.name item.name) ∧
      (after.done = true ↔ p.isDone after.name = true ∨
        after.criteria ≠ [] ∧ ∀ item ∈ after.criteria, item.done = true) := by
  obtain ⟨doc, hdoc, hshown⟩ := p.exists_achievements hera world unlocks
  obtain ⟨hentry, hcriterion⟩ := hshown c.name hname
  simp only [Category.tickAdvancement, hdoc]
  constructor
  · intro item hitem
    obtain ⟨old, -, rfl⟩ := List.mem_map.mp hitem
    have hearned : Category.isEarned era doc c.name old = era.criterionPresent doc c.name old.name := by
      cases era <;> cases hera <;> rfl
    exact hearned.trans (hcriterion old.name)
  · rw [Category.done_updateAdvancement_iff, hentry]
    exact Iff.rfl

variable (hera : era.isPerWorld = true) (hother : other.isPerWorld = true)

include hera hother

/-- An advancement is the same after a tick in all eras that count per world. -/
theorem tickAdvancement_sources {c : Category} (hname : p.counter? ⟨c.name⟩ = none) :
    c.tickAdvancement era (p.sources era world unlocks) b =
      c.tickAdvancement other (p.sources other world unlocks) b := by
  obtain ⟨doc, hdoc, hshown⟩ := p.exists_achievements hera world unlocks
  obtain ⟨doc', hdoc', hshown'⟩ := p.exists_achievements hother world unlocks
  obtain ⟨hentry, hcriterion⟩ := hshown c.name hname
  obtain ⟨hentry', hcriterion'⟩ := hshown' c.name hname
  have hlegacy {e : Era} (he : e.isPerWorld = true) : e ≠ .legacy := by
    rintro rfl
    cases he
  simp only [Category.tickAdvancement, hdoc, hdoc']
  exact Category.updateAdvancement_of_shown b (hlegacy hera) (hlegacy hother)
    (hentry.trans hentry'.symm) fun name => (hcriterion name).trans (hcriterion' name).symm

/-- A stage is evaluated alike in all of them, against the same advancements. -/
theorem evaluate_sources (advancements : List Category) {requirement : Requirement}
    (hname : ∀ name ∈ requirement.achievement?, p.counter? ⟨name⟩ = none) :
    (StageContext.mk era advancements (p.sources era world unlocks) b).evaluate requirement =
      (StageContext.mk other advancements (p.sources other world unlocks) b).evaluate requirement := by
  obtain ⟨doc, hdoc, hshown⟩ := p.exists_achievements hera world unlocks
  obtain ⟨doc', hdoc', hshown'⟩ := p.exists_achievements hother world unlocks
  obtain ⟨counts, hcounts, hprogress⟩ := p.exists_progress world unlocks b hera
  obtain ⟨counts', hcounts', hprogress'⟩ := p.exists_progress world unlocks b hother
  have ha : (StageContext.mk era advancements (p.sources era world unlocks) b).achievements =
      some doc := hdoc
  have ha' : (StageContext.mk other advancements (p.sources other world unlocks) b).achievements =
      some doc' := hdoc'
  have hs : (StageContext.mk era advancements (p.sources era world unlocks) b).statistics =
      some counts := hcounts
  have hs' : (StageContext.mk other advancements (p.sources other world unlocks) b).statistics =
      some counts' := hcounts'
  cases requirement with
  | manual => rfl
  | advancement name =>
    have hentry := (hshown name (hname name rfl)).1
    have hentry' := (hshown' name (hname name rfl)).1
    simp only [StageContext.evaluate, ha, ha', StageContext.isAdvancementDone, hentry, hentry']
  | statistic address required current =>
    simp only [StageContext.evaluate, hs, hs', hprogress, hprogress']
  | unlock name => simp only [StageContext.evaluate, sources_unlocks]
  | criterion parent name =>
    have hcriterion := (hshown parent (hname parent rfl)).2 name
    have hcriterion' := (hshown' parent (hname parent rfl)).2 name
    simp only [StageContext.evaluate, ha, ha', hcriterion, hcriterion']

/-- So a goal comes as far. -/
theorem updateGoal_sources (advancements : List Category) {goal : StagedGoal}
    (hstages : ∀ stage ∈ goal.stages, ∀ name ∈ stage.requirement.achievement?, p.counter? ⟨name⟩ = none) :
    (StageContext.mk era advancements (p.sources era world unlocks) b).updateGoal goal =
      (StageContext.mk other advancements (p.sources other world unlocks) b).updateGoal goal := by
  have hscan := StageContext.scan_of_evaluate fun stage hstage =>
    evaluate_sources (p := p) world unlocks b hera hother advancements (hstages stage hstage)
  simp only [StageContext.updateGoal, hscan]

/-- The counts are made alike in all of them. -/
theorem recompute_of_isPerWorld (c : Checklist) : c.recompute era = c.recompute other := by
  have hhelper {e : Era} (he : e.isPerWorld = true) (group : Category) : group.isHelper e = false := by
    have hlegacy : (e == .legacy) = false := by
      cases e <;> cases he <;> rfl
    rw [Category.isHelper, hlegacy, Bool.false_and, Bool.false_and]
  simp only [Checklist.recompute, Checklist.overall, Checklist.entrySteps, Checklist.sectionCounts,
    Checklist.countedStatistics, hhelper hera, hhelper hother]

omit hera hother in
/-- What the passes leave shows what was done. -/
theorem shows_update {c : Checklist} (hapart : c.IsApartFrom p) (state : SavedState) {w : Version}
    (hw : w.era.isPerWorld = true) :
    (c.update w (p.sources w.era world unlocks) state).Shows p := by
  rw [Checklist.update_eq]
  have hadvancement (a : Category) (ha : a ∈ c.advancements) :=
    shown_tickAdvancement (p := p) world unlocks c.baseline hw (hapart.advancements a ha)
  constructor
  · intro a ha
    obtain ⟨old, hold, rfl⟩ := List.mem_map.mp ha
    exact (hadvancement old hold).1
  · intro a ha
    obtain ⟨old, hold, rfl⟩ := List.mem_map.mp ha
    exact (hadvancement old hold).2
  · intro group hgroup
    obtain ⟨old, -, rfl⟩ := List.mem_map.mp hgroup
    exact progress_tickStatistic c.baseline (p.exists_progress world unlocks c.baseline hw) state old

omit hera hother in
/-- The passes leave the same entries in all versions that count per world. -/
theorem afterPasses_sources {c : Checklist} (hapart : c.IsApartFrom p) (state : SavedState)
    {v w : Version} (hv : v.era.isPerWorld = true) (hw : w.era.isPerWorld = true) :
    { c.afterPasses v (p.sources v.era world unlocks) state with playTime := c.playTime } =
      { c.afterPasses w (p.sources w.era world unlocks) state with playTime := c.playTime } := by
  have hadvancements : c.advancements.map
      (·.tickAdvancement v.era (p.sources v.era world unlocks) c.baseline) =
      c.advancements.map (·.tickAdvancement w.era (p.sources w.era world unlocks) c.baseline) :=
    List.map_congr_left fun a ha =>
      tickAdvancement_sources world unlocks c.baseline hv hw (hapart.advancements a ha)
  have hstatistics : c.statistics.map
      (·.tickStatistic v.era (p.sources v.era world unlocks) c.baseline state) =
      c.statistics.map (·.tickStatistic w.era (p.sources w.era world unlocks) c.baseline state) :=
    List.map_congr_left fun group _ => tickStatistic_of_progress c.baseline
      (p.exists_progress world unlocks c.baseline hv) (p.exists_progress world unlocks c.baseline hw)
      state group
  have hgoals (advancements : List Category) : c.goals.map
      (StageContext.mk v.era advancements (p.sources v.era world unlocks) c.baseline).updateGoal =
      c.goals.map
        (StageContext.mk w.era advancements (p.sources w.era world unlocks) c.baseline).updateGoal :=
    List.map_congr_left fun goal hgoal =>
      updateGoal_sources world unlocks c.baseline hv hw advancements (hapart.stages goal hgoal)
  simp only [Checklist.afterPasses, Item.tickUnlock, sources_unlocks, hadvancements, hstatistics,
    hgoals]

end Attainment

/-- **Every schema carries the same meaning.** Let no advancement of a checklist, and none that a stage asks for, have
the name of an address with a counter. Whatever was done, the checklist after all passes and the count shows it, and
is the same in every version that counts per world, apart from the play time, whose counter has a name of its own in
each: the same progress and marks of every entry, the same stages and counts. If no counter is negative and the
baseline is zero, the oldest versions have the same statistics. -/
theorem update_of_attainment (p : Attainment) {c : Checklist} (hapart : c.IsApartFrom p)
    (world : Option String) (unlocks : Option Value) (state : SavedState) {w : Version}
    (hw : w.era.isPerWorld = true) :
    (c.update w (p.sources w.era world unlocks) state).Shows p ∧
    (∀ v : Version, v.era.isPerWorld = true →
      { c.update v (p.sources v.era world unlocks) state with playTime := c.playTime } =
        { c.update w (p.sources w.era world unlocks) state with playTime := c.playTime }) ∧
    ∀ v : Version, v.era = .legacy → (∀ address, c.baseline.counter address = 0) →
      (∀ address, ∀ n ∈ p.counter? address, 0 ≤ n) →
      (c.update v (p.sources v.era world unlocks) state).statistics =
        (c.update w (p.sources w.era world unlocks) state).statistics := by
  refine ⟨Attainment.shows_update world unlocks hapart state hw, fun v hv => ?_,
    fun v hv hzero hcounters => ?_⟩
  · rw [Checklist.update_eq, Checklist.update_eq]
    -- the count reads no play time
    calc { (c.afterPasses v (p.sources v.era world unlocks) state).recompute v.era with
          playTime := c.playTime }
      _ = { c.afterPasses v (p.sources v.era world unlocks) state with
          playTime := c.playTime }.recompute v.era := rfl
      _ = { c.afterPasses w (p.sources w.era world unlocks) state with
          playTime := c.playTime }.recompute w.era := by
        rw [Attainment.afterPasses_sources world unlocks hapart state hv hw,
          Attainment.recompute_of_isPerWorld hv hw]
  · rw [Checklist.update_eq, Checklist.update_eq]
    refine List.map_congr_left fun group _ => ?_
    rw [hv]
    exact Attainment.tickStatistic_of_progress c.baseline
      (p.exists_progress_legacy world unlocks c.baseline hzero hcounters)
      (p.exists_progress world unlocks c.baseline hw) state group

/-- One achievement is done and another has a criterion that is earned; the item of the counter has a slash in it. -/
theorem update_of_attainment_with_slashed_item :
    let p : Attainment :=
      { achievements := .ofList [("open", ⟨true, ∅⟩), ("explore", ⟨false, .ofList [("sea", .bool true)]⟩)]
        counters := .ofList [("mined", .ofList [("ore/coal", 7)])]
        category_ne := by decide
        slash_notMem := by decide
        item_ne := by decide
        apart := by decide }
    let c : Checklist := { Checklist.empty with
      advancements := [.new "open" "open" [], .new "explore" "explore" [.new "sea" "sea", .new "hill" "hill"]]
      statistics := [.ofStatistic "coal" "coal" ⟨"mined/ore/coal"⟩ 9 false]
      goals := [⟨"trip", "trip", [⟨"stage_0", "stage_0", .criterion "explore" "sea"⟩,
        ⟨"stage_1", "stage_1", .statistic ⟨"mined/ore/coal"⟩ 7 0⟩, ⟨"final", "Complete", .manual⟩], 0, false⟩] }
    let after (version : Version) := c.update version (p.sources version.era none none) .empty
    c.IsApartFrom p ∧ (∀ address, ∀ n ∈ p.counter? address, 0 ≤ n) ∧ (after ⟨"1.16"⟩).Shows p ∧
      { after ⟨"1.8"⟩ with playTime := c.playTime } = { after ⟨"1.16"⟩ with playTime := c.playTime } ∧
      { after ⟨"1.12"⟩ with playTime := c.playTime } = { after ⟨"1.16"⟩ with playTime := c.playTime } ∧
      (after ⟨"1.6"⟩).statistics = (after ⟨"1.16"⟩).statistics ∧
      (after ⟨"1.16"⟩).advancements.map (fun a => (a.done, a.completed)) = [(true, 0), (false, 1)] ∧
      (after ⟨"1.16"⟩).statistics.map (·.criteria.map (·.progress)) = [[7]] ∧
      (after ⟨"1.16"⟩).goals.map (·.current) = [2] := by
  intro p c after
  have hapart : c.IsApartFrom p := ⟨by decide, by decide⟩
  have hcounters : ∀ address, ∀ n ∈ p.counter? address, 0 ≤ n := by
    intro address n hn
    obtain ⟨g, hg, x, hx, -, rfl⟩ := p.exists_of_counter? hn
    clear hn
    revert x g
    decide
  obtain ⟨hshows, hper, hold⟩ := update_of_attainment p hapart none none .empty (w := ⟨"1.16"⟩) (by decide)
  exact ⟨hapart, hcounters, hshows, hper ⟨"1.8"⟩ (by decide), hper ⟨"1.12"⟩ (by decide),
    hold ⟨"1.6"⟩ (by decide) (fun _ => rfl) hcounters, by decide, by decide, by decide⟩

end Milestone
