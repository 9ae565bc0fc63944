import Milestone.Proofs.Json.Lookup
import Milestone.Proofs.Run.Baseline
import Milestone.Proofs.Template.Checks

/-!
# Achievements earned before the baseline

A baseline has the counters of its document under every key, but of the achievements only those that the
checklist asked for when it was captured. So the mark of an advancement that was earned before is right for these
alone. An achievement that another checklist asks for later is never marked, although its counter was captured.
-/

namespace Milestone

open Json

namespace Baseline

/-- A captured baseline lists the achievements that its document reports, of those in the checklist. -/
theorem wasEarned_capture (c : Checklist) (world : String) (doc : Value) (version : Version)
    (now : Instant) (name : String) :
    (capture c world doc version now).wasEarned name =
      ((c.advancement? name).isSome && Era.legacy.entryDone doc name) := by
  have hlisted : ((c.advancements.filter fun a => Era.legacy.entryDone doc a.name).reverse.any
      (·.name == name)) = ((c.advancement? name).isSome && Era.legacy.entryDone doc name) := by
    rw [Bool.eq_iff_iff, Bool.and_eq_true, Checklist.advancement?, List.find?_isSome]
    simp only [List.any_eq_true, List.mem_reverse, List.mem_filter, beq_iff_eq]
    constructor
    · rintro ⟨a, ⟨ha, hdone⟩, rfl⟩
      exact ⟨⟨a, ha, rfl⟩, hdone⟩
    · rintro ⟨⟨a, ha, rfl⟩, hdone⟩
      exact ⟨a, ⟨ha, hdone⟩, rfl⟩
  rw [wasEarned, capture, earnedIn, Keyed.get?_ofList, ← List.map_reverse, lookup_map_const, hlisted]
  cases (c.advancement? name).isSome && Era.legacy.entryDone doc name <;> rfl

end Baseline

section Tick

variable {version : Version} {s : Sources} {doc : Value}

/-- A tick of the oldest era that reads the counters marks an advancement by the baseline. -/
theorem earnedBefore_of_tick (hera : version.era = .legacy) (hdoc : s.statistics = some doc)
    {now : Instant} {c : Checklist} {state : SavedState} {a : Category}
    (ha : a ∈ (tick version now s c state).checklist.advancements) :
    a.earnedBefore = (tick version now s c state).state.baseline.wasEarned a.name := by
  have hread : s.readAchievements version.era = some doc := by
    rw [hera]
    exact hdoc
  rw [tick_state_baseline]
  rw [tick_advancements] at ha
  obtain ⟨old, -, rfl⟩ := List.mem_map.mp ha
  simp only [Category.tickAdvancement, hread]
  simp only [Category.updateAdvancement, hera, beq_self_eq_true, Bool.true_and]

/-- A tick in the world of the baseline captures none. -/
theorem capturesBaseline_of_world {b : Baseline} {world : String} (hb : b.world = some world)
    (hs : ∀ w, s.world = some w → w = world) : s.capturesBaseline version b = false := by
  rw [Sources.capturesBaseline]
  cases hw : s.world with
  | none => simp
  | some w => simp [Baseline.isNeededFor, hb, hs w hw]

/-- After a capture the baseline is that of the document, until the next one. -/
theorem Standing.baseline_since_capture {st : Standing} {now : Instant} {world : String}
    (hworld : s.world = some world) (hdoc : s.statistics = some doc)
    (hcap : (tick version now s st.checklist st.state).report.baselineCaptured = true)
    {between : List Move}
    (hnone : ∀ r ∈ (st.afterTick version now s).reports version between, r.baselineCaptured = false) :
    ((st.afterTick version now s).run version between).state.baseline =
      .capture st.checklist world doc version now := by
  rw [tick_baselineCaptured] at hcap
  obtain ⟨w, d, hw, hd, hrenewed⟩ := Baseline.renewed_of_captures hcap now st.checklist
  obtain rfl : world = w := Option.some.inj (hworld.symm.trans hw)
  obtain rfl : doc = d := Option.some.inj (hdoc.symm.trans hd)
  rw [Standing.run_baseline hnone, Standing.afterTick, tick_state_baseline, hrenewed]

/-- The tick of the capture marks every advancement by its document. -/
theorem Standing.earnedBefore_of_capture (hera : version.era = .legacy) {st : Standing} {now : Instant}
    {world : String} (hworld : s.world = some world) (hdoc : s.statistics = some doc)
    (hcap : (tick version now s st.checklist st.state).report.baselineCaptured = true) {a : Category}
    (ha : a ∈ (tick version now s st.checklist st.state).checklist.advancements) :
    a.earnedBefore = Era.legacy.entryDone doc a.name := by
  have hnone : ∀ r ∈ (st.afterTick version now s).reports version [], r.baselineCaptured = false :=
    fun r hr => absurd hr List.not_mem_nil
  have hbaseline : (tick version now s st.checklist st.state).state.baseline =
      .capture st.checklist world doc version now :=
    baseline_since_capture hworld hdoc hcap hnone
  -- a tick keeps the names, so that the checklist of the capture lists the advancement
  have hlisted : (st.checklist.advancement? a.name).isSome = true := by
    rw [tick_advancements] at ha
    obtain ⟨old, hold, rfl⟩ := List.mem_map.mp ha
    rw [Checklist.advancement?, List.find?_isSome]
    refine ⟨old, hold, ?_⟩
    unfold Category.tickAdvancement
    split <;> exact beq_self_eq_true _
  rw [earnedBefore_of_tick hera hdoc ha, hbaseline, Baseline.wasEarned_capture, hlisted, Bool.true_and]

/-- A later tick in the world of a captured baseline captures nothing and marks by the document of the capture, of
the advancements those that the checklist of that time had. -/
theorem earnedBefore_of_later_tick (hera : version.era = .legacy) (hdoc : s.statistics = some doc)
    {now : Instant} {d : Checklist} {state : SavedState} {world : String} {before : Value}
    (hbaseline : state.baseline = .capture d world before version now)
    (hworld : ∀ w, s.world = some w → w = world) (later : Instant) (c : Checklist) :
    (tick version later s c state).report.baselineCaptured = false ∧
      ∀ a ∈ (tick version later s c state).checklist.advancements, a.earnedBefore =
        ((d.advancement? a.name).isSome && Era.legacy.entryDone before a.name) := by
  have hidle : s.capturesBaseline version state.baseline = false :=
    capturesBaseline_of_world (congrArg Baseline.world hbaseline) hworld
  refine ⟨by rw [tick_baselineCaptured, hidle], fun a ha => ?_⟩
  rw [earnedBefore_of_tick hera hdoc ha, tick_state_baseline, Baseline.renewed_of_not_captures hidle,
    hbaseline, Baseline.wasEarned_capture]

end Tick

/-- **Marks of what was earned before follow the checklist of the capture.** Let a tick of the oldest era capture
the baseline of a world from a document, and let any moves without a capture follow it, loads of other checklists
among them. Then a tick in that world, or in none, that has the counters at hand captures nothing and marks an
advancement as earned before exactly if the document of the capture reports it as done and the checklist of that
time had an advancement of its name. So all its marks say what that document says exactly if that checklist had
each of its advancements that the document reports. The tick of the capture itself marks by its document. -/
theorem earnedBefore_since_capture (version : Version) (hera : version.era = .legacy) (start : Standing)
    (moves : List Move) (now : Instant) (s : Sources) :
    let st := start.run version moves
    let t := tick version now s st.checklist st.state
    ∀ world before, s.world = some world → s.statistics = some before →
      t.report.baselineCaptured = true →
      (∀ a ∈ t.checklist.advancements, a.earnedBefore = Era.legacy.entryDone before a.name) ∧
      ∀ (between : List Move) (later : Instant) (p : Sources) (doc : Value),
        (∀ r ∈ (st.afterTick version now s).reports version between, r.baselineCaptured = false) →
        (∀ w, p.world = some w → w = world) → p.statistics = some doc →
        let mid := (st.afterTick version now s).run version between
        let u := tick version later p mid.checklist mid.state
        u.report.baselineCaptured = false ∧
        (∀ a ∈ u.checklist.advancements, a.earnedBefore =
          ((st.checklist.advancement? a.name).isSome && Era.legacy.entryDone before a.name)) ∧
        ((∀ a ∈ u.checklist.advancements, a.earnedBefore = Era.legacy.entryDone before a.name) ↔
          ∀ a ∈ u.checklist.advancements, Era.legacy.entryDone before a.name = true →
            (st.checklist.advancement? a.name).isSome = true) := by
  intro st t world before hworld hbefore hcap
  refine ⟨fun a ha => Standing.earnedBefore_of_capture hera hworld hbefore hcap ha, ?_⟩
  intro between later p doc hnone hpworld hpdoc mid u
  have hmid : mid.state.baseline = .capture st.checklist world before version now :=
    Standing.baseline_since_capture hworld hbefore hcap hnone
  obtain ⟨hidle, hmark⟩ := earnedBefore_of_later_tick hera hpdoc hmid hpworld later mid.checklist
  refine ⟨hidle, hmark, ?_⟩
  refine forall₂_congr fun a ha => ?_
  rw [hmark a ha]
  cases (st.checklist.advancement? a.name).isSome <;> cases Era.legacy.entryDone before a.name <;>
    decide

/-- Of two achievements that were earned before the capture, a checklist that is loaded later asks for the one that
was listed then and for another. -/
theorem earnedBefore_since_capture_after_replace :
    let version : Version := ⟨"1.6.4"⟩
    let now : Instant := ⟨⟨2013, 7, 1, by decide⟩, 0, 0, by decide⟩
    let before : Value := .object [("5242880", .number (.whole 1)), ("5242881", .number (.whole 1))]
    let first : Checklist := { Checklist.empty with advancements := [.new "5242881" "5242881" []] }
    let second : Checklist :=
      { Checklist.empty with
        advancements := [.new "5242881" "5242881" [], .new "5242882" "5242882" []] }
    let s : Sources := ⟨some "Overworld", none, some before, none⟩
    let st : Standing := Standing.run version ⟨.empty, .empty⟩ [.replace first]
    let between : List Move := [.tick now ⟨none, none, none, none⟩, .replace second]
    let mid := (st.afterTick version now s).run version between
    let u := tick version now s mid.checklist mid.state
    (version.era = .legacy ∧
      (tick version now s st.checklist st.state).report.baselineCaptured = true ∧
      ∀ r ∈ (st.afterTick version now s).reports version between, r.baselineCaptured = false) ∧
    u.report.baselineCaptured = false ∧
    (∀ a ∈ u.checklist.advancements, a.earnedBefore = Era.legacy.entryDone before a.name) ∧
    u.checklist.advancements.map (fun a => (a.name, a.earnedBefore)) =
      [("5242881", true), ("5242882", false)] := by
  intro version now before first second s st between mid u
  have hcap : (tick version now s st.checklist st.state).report.baselineCaptured = true := by decide
  have hnone : ∀ r ∈ (st.afterTick version now s).reports version between,
      r.baselineCaptured = false := by decide
  obtain ⟨-, hsince⟩ := earnedBefore_since_capture version (by decide) ⟨.empty, .empty⟩
    [.replace first] now s "Overworld" before rfl rfl hcap
  have hworld : ∀ w, s.world = some w → w = "Overworld" := fun w hw => (Option.some.inj hw).symm
  obtain ⟨hidle, -, hiff⟩ := hsince between now s before hnone hworld rfl
  exact ⟨⟨by decide, hcap, hnone⟩, hidle, hiff.mpr (by decide), by decide⟩

/-- A template that asks for an achievement is loaded after the capture, whose document reports the achievement as
done. The counter of a statistic that only this template asks for counts from that document, but no mark shows the
achievement as earned before. -/
theorem earnedBefore_lost_by_switch :
    let version : Version := ⟨"1.6.4"⟩
    let now : Instant := ⟨⟨2013, 7, 1, by decide⟩, 0, 0, by decide⟩
    let firstText := "\x7b\"advancements\":\x7b\"5242881\":\x7b\x7d\x7d\x7d"
    let secondText := "\x7b\"advancements\":\x7b\"5242880\":\x7b\x7d,\"5242881\":\x7b\x7d\x7d," ++
      "\"stats\":\x7b\"walk\":\x7b\"root_name\":\"2000\",\"target\":9\x7d\x7d\x7d"
    let document (walked : Int) : Value := .object [("5242880", .number (.whole 1)),
      ("5242881", .number (.whole 1)), ("2000", .number (.whole walked))]
    let sources (walked : Int) : Sources := ⟨some "Overworld", none, some (document walked), none⟩
    ∃ first second, Template.read firstText ∅ = .ok first ∧ Template.read secondText ∅ = .ok second ∧
      let st : Standing := ⟨first, .empty⟩
      let mid := (st.afterTick version now (sources 5)).run version [.replace second]
      let u := tick version now (sources 7) mid.checklist mid.state
      (tick version now (sources 5) st.checklist st.state).report.baselineCaptured = true ∧
      u.report.baselineCaptured = false ∧
      u.checklist.statistics.map (·.criteria.map (·.progress)) = [[2]] ∧
      ¬(∀ a ∈ u.checklist.advancements,
        a.earnedBefore = Era.legacy.entryDone (document 5) a.name) ∧
      u.checklist.advancements.map
        (fun a => (a.name, a.earnedBefore, Era.legacy.entryDone (document 5) a.name)) =
        [("5242880", false, true), ("5242881", true, true)] := by
  intro version now firstText secondText document sources
  let first : Checklist := { Checklist.empty with advancements := [.new "5242881" "5242881" []] }
  let second : Checklist :=
    { Checklist.empty with
      advancements := [.new "5242880" "5242880" [], .new "5242881" "5242881" []]
      statistics := [.ofStatistic "walk" "walk" ⟨"2000"⟩ 9 false] }
  have hfirst : Template.read firstText ∅ = .ok first := by decide +kernel
  have hsecond : Template.read secondText ∅ = .ok second := by decide +kernel
  exact ⟨first, second, hfirst, hsecond, by decide, by decide, by decide, by decide, by decide⟩

end Milestone
