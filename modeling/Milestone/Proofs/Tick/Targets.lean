import Milestone.Proofs.Tick.Marks
import Milestone.Proofs.Tick.Overrides

/-!
# One override, one target

An override is meant for one target: a group of statistics with its criteria, or a single criterion. A tick looks
overrides up under keys that are put together from names, so it depends on the names of a template whether this
is so. This file proves that it is exactly if the keys are different, and shows a template where one key has two
targets.
-/

namespace Milestone

open Json

/-- Two groups of statistics that differ at most in one criterion, and in what follows from their criteria. -/
structure Category.DifferInCriterion (g h : Category) : Prop where
  manual : g.manual = h.manual
  criteria : ∃ k : Nat, ∀ j, j ≠ k → g.criteria[j]? = h.criteria[j]?

/-- Two checklists that differ at most in the marks of one target: the group with the name that is the key, or
else one criterion of one group. What is counted in the end may differ too. -/
structure Checklist.DifferInTarget (key : String) (c d : Checklist) : Prop where
  rest : c.unmarked = d.unmarked
  statistics : ∃ i : Nat, (∀ j, j ≠ i → c.statistics[j]? = d.statistics[j]?) ∧
    ∀ g ∈ c.statistics[i]?, ∀ h ∈ d.statistics[i]?, g.name = key ∨ g.DifferInCriterion h

section Group

variable {key : String} (era : Era) (doc : Value) (b : Baseline) {c : Category}

/-- In a group of another name an override shows in one criterion at most. -/
theorem Category.updateStatistic_differ (hnames : (c.criteria.map (·.name)).Nodup) {x y : SavedState}
    (h : ∀ k, k ≠ key → x.override k = y.override k) :
    c.name = key ∨
      (c.updateStatistic era doc b x).DifferInCriterion (c.updateStatistic era doc b y) := by
  by_cases hname : c.name = key
  · exact .inl hname
  have hgroup : x.override c.name = y.override c.name := h c.name hname
  refine .inr ⟨hgroup, ?_⟩
  by_cases hown : ∃ item ∈ c.criteria, SavedState.criterionKey c.name item.name = key
  · obtain ⟨item, hitem, hkey⟩ := hown
    obtain ⟨k, hk⟩ := List.getElem?_of_mem hitem
    refine ⟨k, fun j hj => ?_⟩
    simp only [updateStatistic, List.getElem?_map]
    refine Option.map_congr fun other hother => ?_
    refine c.updateCriterion_congr era doc b hgroup fun _ => h _ fun hsame => hj ?_
    have hequal : item.name = other.name := criterionKey_inj.mp (hkey.trans hsame.symm)
    have hlt : k < (c.criteria.map (·.name)).length := by
      rw [List.length_map]
      exact (List.getElem?_eq_some_iff.mp hk).1
    refine ((List.getElem?_inj hlt hnames).mp ?_).symm
    rw [List.getElem?_map, List.getElem?_map, hk, hother, Option.map_some, Option.map_some, hequal]
  · have hsame : c.updateStatistic era doc b x = c.updateStatistic era doc b y := by
      refine c.updateStatistic_congr era doc b fun k hk => h k fun hkey => ?_
      rcases Category.mem_overrideKeys_iff.mp hk with rfl | ⟨-, item, hitem, heq⟩
      · exact hname hkey
      · exact hown ⟨item, hitem, heq.trans hkey⟩
    exact ⟨0, fun j _ => by rw [hsame]⟩

/-- Where nothing else is overridden, an override under any key of a group shows in it. -/
theorem Category.updateStatistic_ne_of_mem {state : SavedState} (hempty : state.overrides = ∅)
    (hkey : key ∈ c.overrideKeys) :
    c.updateStatistic era doc b state ≠ c.updateStatistic era doc b (state.setOverride key true) := by
  intro heq
  have hset : (state.setOverride key true).override key = true := by
    rw [SavedState.override_setOverride, if_pos rfl]
  have hunmarked := c.isUnmarked_updateStatistic hempty era doc b
  rw [heq] at hunmarked
  rcases Category.mem_overrideKeys_iff.mp hkey with rfl | ⟨hseveral, item, hitem, rfl⟩
  · have hmanual := (c.updateStatistic_of_override era doc b hset).2.1
    rw [hunmarked.manual] at hmanual
    cases hmanual
  · have hmanual := (c.updateCriterion_of_override era doc b hseveral hset).2
    rw [hunmarked.criteria _ (List.mem_map_of_mem hitem)] at hmanual
    cases hmanual

end Group

namespace Checklist

variable {c : Checklist}

/-- Different keys belong to different groups. -/
theorem index_eq_of_mem_overrideKeys (hkeys : c.overrideKeys.Nodup) {key : String} {i j : Nat}
    {g h : Category} (hi : c.statistics[i]? = some g) (hj : c.statistics[j]? = some h)
    (hg : key ∈ g.overrideKeys) (hh : key ∈ h.overrideKeys) : i = j := by
  have hdisjoint := List.pairwise_iff_getElem.mp (List.nodup_flatMap.mp hkeys).2
  obtain ⟨hilt, rfl⟩ := List.getElem?_eq_some_iff.mp hi
  obtain ⟨hjlt, rfl⟩ := List.getElem?_eq_some_iff.mp hj
  rcases Nat.lt_trichotomy i j with hlt | heq | hlt
  · exact absurd hh (hdisjoint i j hilt hjlt hlt hg)
  · exact heq
  · exact absurd hg (hdisjoint j i hjlt hilt hlt hh)

/-- If the keys are different, saved states that differ in one override make a difference in one group at most. -/
theorem HasDistinctNames.exists_index (hnames : c.HasDistinctNames) (hkeys : c.overrideKeys.Nodup)
    {key : String} {x y : SavedState} (h : ∀ k, k ≠ key → x.override k = y.override k) (era : Era)
    (doc : Value) (b : Baseline) :
    ∃ i : Nat, ∀ j group, c.statistics[j]? = some group →
      (j ≠ i → group.updateStatistic era doc b x = group.updateStatistic era doc b y) ∧
        (group.name = key ∨
          (group.updateStatistic era doc b x).DifferInCriterion (group.updateStatistic era doc b y)) := by
  have hdiffer (j : Nat) (group : Category) (hgroup : c.statistics[j]? = some group) :=
    group.updateStatistic_differ era doc b (hnames.criteria group (List.mem_of_getElem? hgroup)) h
  have hsame (group : Category) (hmem : key ∉ group.overrideKeys) :
      group.updateStatistic era doc b x = group.updateStatistic era doc b y :=
    group.updateStatistic_congr era doc b fun k hk => h k fun heq => hmem (heq ▸ hk)
  by_cases hfound : ∃ (i : Nat) (target : Category), c.statistics[i]? = some target ∧ key ∈ target.overrideKeys
  · obtain ⟨i, target, htarget, hkey⟩ := hfound
    refine ⟨i, fun j group hgroup => ⟨fun hj => hsame group fun hmem => hj ?_, hdiffer j group hgroup⟩⟩
    exact index_eq_of_mem_overrideKeys hkeys hgroup htarget hmem hkey
  · refine ⟨0, fun j group hgroup => ⟨fun _ => hsame group fun hmem => hfound ?_, hdiffer j group hgroup⟩⟩
    exact ⟨j, group, hgroup, hmem⟩

/-- So one override makes a difference in one target at most. -/
theorem HasDistinctNames.differInTarget (hnames : c.HasDistinctNames) (hkeys : c.overrideKeys.Nodup)
    (version : Version) (now : Instant) (s : Sources) (state : SavedState) (key : String) (value : Bool) :
    (tick version now s c state).checklist.DifferInTarget key
      (tick version now s c (state.setOverride key value)).checklist := by
  have halike : state.SameBut key (state.setOverride key value) := state.sameBut_setOverride key value
  have hafter : (tick version now s c state).state.SameBut key
      (tick version now s c (state.setOverride key value)).state := .tick rfl halike
  refine ⟨tick_unmarked rfl halike.rest, ?_⟩
  cases hdoc : s.readStatistics version.era with
  | none =>
    rw [tick_statistics_of_unread hdoc, tick_statistics_of_unread hdoc]
    refine ⟨0, fun j _ => rfl, fun g hg h hh => .inr ?_⟩
    rw [Option.mem_unique hg hh]
    exact ⟨rfl, 0, fun j _ => rfl⟩
  | some doc =>
    simp only [tick_statistics, Category.tickStatistic, hdoc]
    obtain ⟨i, hi⟩ := hnames.exists_index hkeys hafter.override version.era doc
      (state.baseline.renewed version now s c)
    refine ⟨i, fun j hj => ?_, fun g hg h hh => ?_⟩
    · rw [List.getElem?_map, List.getElem?_map]
      exact Option.map_congr fun group hgroup => (hi j group hgroup).1 hj
    · rw [List.getElem?_map] at hg hh
      obtain ⟨group, hgroup, rfl⟩ := Option.map_eq_some_iff.mp hg
      obtain ⟨same, hsame, rfl⟩ := Option.map_eq_some_iff.mp hh
      obtain rfl : group = same := Option.some.inj (hgroup.symm.trans hsame)
      exact (hi i group hgroup).2

/-- If one override always makes a difference in one target at most, the keys are different: a key of two groups
shows in both of them where nothing else is overridden. -/
theorem HasDistinctNames.nodup_of_differInTarget (hnames : c.HasDistinctNames)
    (h : ∀ version now s state key value, (tick version now s c state).checklist.DifferInTarget key
      (tick version now s c (state.setOverride key value)).checklist) : c.overrideKeys.Nodup := by
  refine List.nodup_flatMap.mpr
    ⟨fun group hgroup => group.nodup_overrideKeys (hnames.criteria group hgroup), ?_⟩
  refine List.pairwise_iff_getElem.mpr fun i j hi hj hlt key hkeyi hkeyj => ?_
  let version : Version := ⟨"1.12.2"⟩
  let now : Instant := ⟨⟨2018, 3, 1, by decide⟩, 0, 0, by decide⟩
  let s : Sources := ⟨none, none, some (.object []), none⟩
  have hstate (state : SavedState) : (tick version now s c state).state = state := by
    refine tick_state_of_clean _ _ _ _ _ ?_
    simp [s, Sources.entersWorld, Sources.capturesBaseline]
  have hread : s.readStatistics version.era = some (.object []) := by
    have hera : version.era.isKnown = true := by decide
    rw [Sources.readStatistics, if_pos hera]
  obtain ⟨k, hk, -⟩ := (h version now s .empty key true).statistics
  have hindex (n : Nat) (hn : n < c.statistics.length) (hkey : key ∈ c.statistics[n].overrideKeys) :
      n = k := by
    by_contra hne
    have hequal := hk n hne
    simp only [tick_statistics, hstate, Category.tickStatistic, hread, List.getElem?_map,
      List.getElem?_eq_getElem hn, Option.map_some, Option.some.injEq] at hequal
    exact Category.updateStatistic_ne_of_mem _ _ _ rfl hkey hequal
  have hsame := (hindex i hi hkeyi).trans (hindex j hj hkeyj).symm
  omega

end Checklist

/-- **One override has one target exactly if the keys are different.** Take a reached checklist. The keys under
which its groups of statistics and their criteria are overridden are all different exactly if, for every tick on
it and every saved state, setting an override changes the marks of one target at most. Then that target is the
group with the name that is the key, or one criterion of a group, with what follows for that group. The keys are
different if no group has the name of a group of several criteria followed by the word for criteria. -/
theorem override_of_one_target_iff {c : Checklist} (hc : c.Reached) :
    (c.overrideKeys.Nodup ↔ ∀ (version : Version) (now : Instant) (s : Sources) (state : SavedState)
      (key : String) (value : Bool), (tick version now s c state).checklist.DifferInTarget key
        (tick version now s c (state.setOverride key value)).checklist) ∧
    ((∀ group ∈ c.statistics, ∀ other ∈ c.statistics, 2 ≤ group.criteria.length →
      ∀ rest, other.name ≠ group.name ++ ".criteria" ++ rest) → c.overrideKeys.Nodup) :=
  ⟨⟨hc.hasDistinctNames.differInTarget, hc.hasDistinctNames.nodup_of_differInTarget⟩,
    hc.hasDistinctNames.nodup_overrideKeys⟩

/-- With ordinary names the override of a criterion shows in that criterion alone. -/
theorem override_of_one_target_iff_with_plain_names :
    let text := "\x7b\"stats\":\x7b\"travel\":\x7b\"criteria\":" ++
      "\x7b\"walk\":\x7b\"target\":5\x7d,\"swim\":\x7b\"target\":5\x7d\x7d\x7d," ++
      "\"jump\":\x7b\"target\":5\x7d\x7d\x7d"
    let version : Version := ⟨"1.20.4"⟩
    let now : Instant := ⟨⟨2024, 1, 15, by decide⟩, 0, 0, by decide⟩
    let s : Sources := ⟨some "A", none, some (.object [("stats", .object [])]), none⟩
    let key := SavedState.criterionKey "travel" "swim"
    ∃ c, Template.read text ∅ = .ok c ∧ c.Reached ∧
      (tick version now s c .empty).checklist.DifferInTarget key
        (tick version now s c (SavedState.empty.setOverride key true)).checklist ∧
      (tick version now s c (SavedState.empty.setOverride key true)).checklist.statistics.map
        (fun g => (g.manual, g.criteria.map (·.manual))) = [(false, [false, true]), (false, [false])] := by
  intro text version now s key
  let criterion (name : String) : Item :=
    { Item.new name name with target := 5, address := some ⟨name⟩ }
  let c : Checklist :=
    { Checklist.empty with
      statistics :=
        [.new "travel" "travel" [criterion "walk", criterion "swim"],
          .ofStatistic "jump" "jump" ⟨"jump"⟩ 5 false] }
  have hread : Template.read text ∅ = .ok c := by decide +kernel
  have hnames : ∀ group ∈ c.statistics, ∀ other ∈ c.statistics, 2 ≤ group.criteria.length →
      ∀ rest, other.name ≠ group.name ++ ".criteria" ++ rest := by
    intro group _ other hother _ rest heq
    have hshort : ∀ g ∈ c.statistics, g.name.length ≤ 6 := by decide
    have hother := hshort other hother
    have hword : ".criteria".length = 9 := by decide
    have hlength := congrArg String.length heq
    rw [String.length_append, String.length_append] at hlength
    omega
  obtain ⟨hiff, hsuffices⟩ := override_of_one_target_iff (.read hread)
  exact ⟨c, hread, .read hread, hiff.mp (hsuffices hnames) version now s .empty key true, by decide⟩

/-- A template may name a group like the key of a criterion in another one. The override under this key marks the
criterion and the group with its own criterion. -/
theorem override_of_two_targets :
    let text := "\x7b\"stats\":\x7b\"travel\":\x7b\"criteria\":" ++
      "\x7b\"walk\":\x7b\"target\":5\x7d,\"swim\":\x7b\"target\":5\x7d\x7d\x7d," ++
      "\"travel.criteria.swim\":\x7b\"target\":5\x7d\x7d\x7d"
    let version : Version := ⟨"1.20.4"⟩
    let now : Instant := ⟨⟨2024, 1, 15, by decide⟩, 0, 0, by decide⟩
    let s : Sources := ⟨some "A", none, some (.object [("stats", .object [])]), none⟩
    let key := SavedState.criterionKey "travel" "swim"
    ∃ c, Template.read text ∅ = .ok c ∧ ¬c.overrideKeys.Nodup ∧
      ¬(tick version now s c .empty).checklist.DifferInTarget key
        (tick version now s c (SavedState.empty.setOverride key true)).checklist ∧
      (tick version now s c .empty).checklist.statistics.map
        (fun g => (g.manual, g.criteria.map (·.manual))) = [(false, [false, false]), (false, [false])] ∧
      (tick version now s c (SavedState.empty.setOverride key true)).checklist.statistics.map
        (fun g => (g.manual, g.criteria.map (·.manual))) = [(false, [false, true]), (true, [true])] := by
  intro text version now s key
  let criterion (name : String) : Item :=
    { Item.new name name with target := 5, address := some ⟨name⟩ }
  let c : Checklist :=
    { Checklist.empty with
      statistics :=
        [.new "travel" "travel" [criterion "walk", criterion "swim"],
          .ofStatistic "travel.criteria.swim" "travel.criteria.swim" ⟨"travel.criteria.swim"⟩ 5 false] }
  have hread : Template.read text ∅ = .ok c := by decide +kernel
  refine ⟨c, hread, by decide, fun hdiffer => ?_, by decide, by decide⟩
  obtain ⟨i, hsame, -⟩ := hdiffer.statistics
  by_cases hi : i = 0
  · have hsecond := hsame 1 (by omega)
    revert hsecond
    decide
  · have hfirst := hsame 0 (Ne.symm hi)
    revert hfirst
    decide

end Milestone
