import Milestone.Proofs.Json.Keys
import Milestone.Proofs.Run.Basic

/-!
# Progress since the baseline

Where counters run through all worlds, the progress in one world is what came since its baseline was
captured. Along a run the baseline changes at captures only, and a tick that reads the counters of a world
always counts from a baseline of that world. So the progress that a tick shows is the growth of each
counter between two documents: the one of the capture and its own.
-/

namespace Milestone

open Json

/-- The count that a flat document has under a key: zero without an entry, or for one that is no
counter. -/
def Json.Value.count (doc : Value) (key : String) : Counter :=
  ((doc.get? key).bind Value.counter?).getD 0

namespace Counter

/-- What came since a count: never below zero, and within the range of counters. -/
def growth (count before : Counter) : Int :=
  max 0 (min greatest (count.value - before.value))

/-- A saturating difference that is not let below zero is the growth. -/
theorem value_nonNegative_sub (a b : Counter) : (a - b).nonNegative.value = a.growth b := by
  rw [value_nonNegative, value_sub, growth]
  simp only [least, greatest]
  omega

end Counter

namespace Baseline

/-- A captured baseline has the counts of its document, under every key. -/
theorem counter_capture {doc : Value} (h : doc.HasDistinctKeys) (c : Checklist) (world : String)
    (version : Version) (now : Instant) (key : String) :
    (capture c world doc version now).counter key = doc.count key := by
  have hlookup : (countersOf doc).get? key = (doc.get? key).bind Value.counter? := by
    cases doc with
    | object members =>
      rw [countersOf, Keyed.get?_ofList]
      exact lookup_reverse_filterMap Value.counter? (h members rfl) key
    | _ => rfl
  rw [counter, capture, hlookup, Value.count]

/-- A captured baseline has the play time of its document. -/
theorem playTime_capture (doc : Value) (c : Checklist) (world : String) (version : Version)
    (now : Instant) : (capture c world doc version now).playTime = doc.count version.playTimeKey :=
  rfl

end Baseline

/-- The statistics and the play time of a checklist are what came in one document since another. -/
structure Checklist.CountsSince (c : Checklist) (version : Version) (doc before : Value) : Prop where
  statistics : ∀ group ∈ c.statistics, ∀ item ∈ group.criteria, ∀ address,
    item.address = some address →
      item.progress.value = (doc.count address.raw).growth (before.count address.raw)
  playTime : c.playTime.value =
    (doc.count version.playTimeKey).growth (before.count version.playTimeKey)

section Tick

variable {version : Version} {s : Sources} {b : Baseline} {doc before : Value}

theorem Era.value_progress_legacy (address : Address)
    (hcount : b.counter address.raw = before.count address.raw) :
    (Era.legacy.progress doc address b).value =
      (doc.count address.raw).growth (before.count address.raw) := by
  rw [← hcount, ← Counter.value_nonNegative_sub]
  rfl

theorem Sources.readStatistics_legacy (hera : version.era = .legacy)
    (hdoc : s.statistics = some doc) : s.readStatistics version.era = some doc := by
  simp only [readStatistics, hera, hdoc]
  rfl

/-- After a tick of the oldest era, a criterion with an address shows the growth of its counter. -/
theorem Category.value_progress_tickStatistic (hera : version.era = .legacy)
    (hdoc : s.statistics = some doc) (hcount : ∀ key, b.counter key = before.count key)
    {state : SavedState} {group : Category} {item : Item} {address : Address}
    (hitem : item ∈ (group.tickStatistic version.era s b state).criteria)
    (haddress : item.address = some address) :
    item.progress.value = (doc.count address.raw).growth (before.count address.raw) := by
  simp only [tickStatistic, Sources.readStatistics_legacy hera hdoc, updateStatistic,
    List.mem_map] at hitem
  obtain ⟨old, -, rfl⟩ := hitem
  have hold : old.address = some address := haddress
  have hprogress : (group.updateCriterion version.era doc b state old).progress =
      Era.legacy.progress doc address b := by
    simp only [updateCriterion, hold, hera, Option.map_some, Option.getD_some]
  rw [hprogress]
  exact Era.value_progress_legacy address (hcount _)

/-- After a tick of the oldest era, the play time is the growth of its counter. -/
theorem Version.value_tickPlayTime (hera : version.era = .legacy) (hdoc : s.statistics = some doc)
    (hplay : b.playTime = before.count version.playTimeKey) (played : Counter) :
    (version.tickPlayTime s b played).value =
      (doc.count version.playTimeKey).growth (before.count version.playTimeKey) := by
  rw [← hplay, ← Counter.value_nonNegative_sub]
  simp only [tickPlayTime, Sources.readStatistics_legacy hera hdoc]
  simp only [playTime, hera]
  rfl

/-- After a tick of the oldest era that counts from the counts of a document, the checklist shows what
came since that document. -/
theorem tick_countsSince (hera : version.era = .legacy) (hdoc : s.statistics = some doc)
    {c : Checklist} {state : SavedState} {now : Instant}
    (hcount : ∀ key, (state.baseline.renewed version now s c).counter key = before.count key)
    (hplay : (state.baseline.renewed version now s c).playTime = before.count version.playTimeKey) :
    (tick version now s c state).checklist.CountsSince version doc before := by
  rw [tick_checklist]
  constructor
  · intro group hgroup item hitem address haddress
    obtain ⟨old, -, rfl⟩ := List.mem_map.mp hgroup
    exact Category.value_progress_tickStatistic hera hdoc hcount hitem haddress
  · exact Version.value_tickPlayTime hera hdoc hplay c.playTime

/-- In the oldest era a tick captures exactly if it has a world and its counters while the baseline is not
of that world. -/
theorem capturesBaseline_iff (hera : version.era = .legacy) :
    s.capturesBaseline version b = true ↔
      ∃ world doc, s.world = some world ∧ s.statistics = some doc ∧ b.world ≠ some world := by
  simp only [Sources.capturesBaseline, Baseline.isNeededFor, hera, beq_self_eq_true, Bool.true_and,
    Bool.and_eq_true, Option.isSome_iff_exists, Option.any_eq_true, bne_iff_ne]
  constructor
  · rintro ⟨⟨doc, hdoc⟩, world, hworld, hne⟩
    exact ⟨world, doc, hworld, hdoc, hne⟩
  · rintro ⟨world, doc, hworld, hdoc, hne⟩
    exact ⟨⟨doc, hdoc⟩, world, hworld, hne⟩

end Tick

/-- **Progress counts from the baseline of the world.** In the oldest era, at every tick of every run, with
edits of the manual progress and other checklists loaded in between:

* the baseline is replaced if there are a world and its counters and the baseline is of no or another
  world, and else it stays as it was;
* if there are a world and its counters, the checklist counts from the saved baseline, which is one of
  that world;
* if the tick captures the baseline of a world from a document, then every later tick in that world with
  counters at hand shows exactly what came since that document, as long as no other capture came between.
  Every document that was read has its keys once.
-/
theorem progress_since_capture (version : Version) (hera : version.era = .legacy) (start : Standing)
    (moves : List Move) (now : Instant) (s : Sources) :
    let st := start.run version moves
    let t := tick version now s st.checklist st.state
    ((t.report.baselineCaptured = true ↔
        ∃ world doc, s.world = some world ∧ s.statistics = some doc ∧
          st.state.baseline.world ≠ some world) ∧
      (t.report.baselineCaptured = true →
        ∃ world doc, s.world = some world ∧ s.statistics = some doc ∧
          t.state.baseline = .capture st.checklist world doc version now) ∧
      (t.report.baselineCaptured = false → t.state.baseline = st.state.baseline)) ∧
    (∀ world doc, s.world = some world → s.statistics = some doc →
      t.checklist.baseline = t.state.baseline ∧ t.state.baseline.world = some world) ∧
    ∀ world before, s.world = some world → s.statistics = some before → before.HasDistinctKeys →
      t.report.baselineCaptured = true →
      ∀ (between : List Move) (later : Instant) (p : Sources) (doc : Value),
        (∀ r ∈ (st.afterTick version now s).reports version between, r.baselineCaptured = false) →
        p.world = some world → p.statistics = some doc →
        let mid := (st.afterTick version now s).run version between
        let u := tick version later p mid.checklist mid.state
        u.report.baselineCaptured = false ∧ u.checklist.CountsSince version doc before := by
  intro st t
  refine ⟨⟨?_, ?_, ?_⟩, ?_, ?_⟩
  · rw [tick_baselineCaptured]
    exact capturesBaseline_iff hera
  · intro hcap
    rw [tick_baselineCaptured] at hcap
    rw [tick_state_baseline]
    exact Baseline.renewed_of_captures hcap now st.checklist
  · exact Standing.afterTick_baseline
  · intro world doc hworld hdoc
    rw [tick_baseline, tick_state_baseline]
    exact ⟨rfl, Baseline.renewed_world hera hworld hdoc now st.checklist⟩
  · intro world before hworld hbefore hkeys hcap between later p doc hnone hpworld hpdoc mid u
    rw [tick_baselineCaptured] at hcap
    obtain ⟨w, d, hw, hd, hrenewed⟩ := Baseline.renewed_of_captures hcap now st.checklist
    obtain rfl : world = w := Option.some.inj (hworld.symm.trans hw)
    obtain rfl : before = d := Option.some.inj (hbefore.symm.trans hd)
    have hmid : mid.state.baseline = .capture st.checklist world before version now := by
      rw [Standing.run_baseline hnone, Standing.afterTick, tick_state_baseline, hrenewed]
    have hidle : p.capturesBaseline version mid.state.baseline = false := by
      rw [← Bool.not_eq_true, capturesBaseline_iff hera]
      rintro ⟨w, d, hw, -, hne⟩
      rw [hmid] at hne
      exact hne (hpworld.symm.trans hw)
    have hkept := Baseline.renewed_of_not_captures hidle later mid.checklist
    refine ⟨by rw [tick_baselineCaptured, hidle], tick_countsSince hera hpdoc ?_ ?_⟩
    · intro key
      rw [hkept, hmid]
      exact Baseline.counter_capture hkeys ..
    · rw [hkept, hmid]
      exact Baseline.playTime_capture ..

/-- Between the capture and the later tick the player sets an override, a tick has no counters, and another
checklist is loaded. -/
theorem progress_since_capture_after_replace :
    let version : Version := ⟨"1.6.4"⟩
    let now : Instant := ⟨⟨2013, 7, 1, by decide⟩, 0, 0, by decide⟩
    let before : Value := .object [("1100", .number (.whole 7200)), ("2000", .number (.whole 5))]
    let doc : Value := .object [("1100", .number (.whole 9000)), ("2000", .number (.whole 12))]
    let jumps : Checklist :=
      { Checklist.empty with statistics := [.ofStatistic "jumps" "Jumps" ⟨"2000"⟩ 10 false] }
    let s : Sources := ⟨some "Overworld", none, some before, none⟩
    let p : Sources := ⟨some "Overworld", none, some doc, none⟩
    let st : Standing := Standing.run version ⟨.empty, .empty⟩ []
    let between : List Move := [.edit (.setOverride "jumps" true),
      .tick now ⟨some "Overworld", none, none, none⟩, .replace jumps]
    let mid := (st.afterTick version now s).run version between
    let u := tick version now p mid.checklist mid.state
    (version.era = .legacy ∧ before.HasDistinctKeys ∧
      (tick version now s st.checklist st.state).report.baselineCaptured = true ∧
      ∀ r ∈ (st.afterTick version now s).reports version between, r.baselineCaptured = false) ∧
    u.report.baselineCaptured = false ∧ u.checklist.CountsSince version doc before ∧
      u.checklist.playTime.value = 1800 ∧
      u.checklist.statistics.map (·.criteria.map (·.progress.value)) = [[7]] := by
  intro version now before doc jumps s p st between mid u
  have hkeys : before.HasDistinctKeys := by
    intro members h
    rw [← Value.object.inj h]
    decide
  have hcap : (tick version now s st.checklist st.state).report.baselineCaptured = true := by decide
  have hnone : ∀ r ∈ (st.afterTick version now s).reports version between,
      r.baselineCaptured = false := by decide
  obtain ⟨-, -, hcounts⟩ :=
    progress_since_capture version (by decide) ⟨.empty, .empty⟩ [] now s
  obtain ⟨hidle, hsince⟩ :=
    hcounts "Overworld" before rfl rfl hkeys hcap between now p doc hnone rfl rfl
  exact ⟨⟨by decide, hkeys, hcap, hnone⟩, hidle, hsince, by decide, by decide⟩

end Milestone
