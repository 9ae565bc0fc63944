import Milestone.Proofs.Run.Manual
import Milestone.Proofs.Tick.Marks

/-!
# Marks of manual progress along a run

What a player has set by hand belongs to one world, and a tick that enters another one clears it in the saved
state. The marks in the checklist are another matter. Those of custom goals follow the saved state in every
tick, but those of statistics only in ticks that read the statistics. So this file follows the overrides that
the marks show along a run: they are those of the last tick that read the statistics. A tick into another world
that does not read them leaves the marks of the world before, and the next tick that does takes them away.
-/

namespace Milestone

open Json

namespace Standing

variable (version : Version)

/-- The saved state whose overrides the marks of the statistics show after a move, from the one before. A tick
that reads the statistics shows the overrides that it leaves, and a new checklist shows none. -/
def shownAfter (st : Standing) (shown : SavedState) : Move → SavedState
  | .tick now s =>
    if (s.readStatistics version.era).isSome then (st.afterTick version now s).state else shown
  | .edit _ => shown
  | .replace _ => .empty

/-- The saved state whose overrides the marks of the statistics show after a run. -/
def shown : Standing → SavedState → List Move → SavedState
  | _, before, [] => before
  | st, before, m :: rest => shown (st.move version m) (st.shownAfter version before m) rest

variable {version} {st : Standing} {before : SavedState}

/-- Each move keeps to the overrides that the marks show. -/
theorem showsOverrides_move (h : ∀ group ∈ st.checklist.statistics, group.ShowsOverrides before) {m : Move}
    (hm : ∀ c, m = .replace c → ∀ group ∈ c.statistics, group.IsUnmarked) :
    ∀ group ∈ (st.move version m).checklist.statistics,
      group.ShowsOverrides (st.shownAfter version before m) := by
  cases m with
  | tick now s =>
    rw [shownAfter]
    split
    · rename_i hread
      exact tick_showsOverrides hread
    · rename_i hunread
      rw [Option.not_isSome_iff_eq_none] at hunread
      rw [move, afterTick, tick_statistics_of_unread hunread]
      exact h
  | edit e => exact h
  | replace c =>
    exact fun group hgroup => (hm c rfl group hgroup).showsOverrides (SavedState.override_of_empty rfl)

/-- So at any time of a run the marks of the statistics show the overrides of one saved state. -/
theorem showsOverrides_run (h : ∀ group ∈ st.checklist.statistics, group.ShowsOverrides before)
    {moves : List Move} (hmoves : ∀ c, .replace c ∈ moves → ∀ group ∈ c.statistics, group.IsUnmarked) :
    ∀ group ∈ (st.run version moves).checklist.statistics,
      group.ShowsOverrides (st.shown version before moves) := by
  induction moves generalizing st before with
  | nil => exact h
  | cons m rest ih =>
    refine ih (showsOverrides_move h fun c heq => ?_) fun c hc => ?_
    · exact hmoves c (heq ▸ List.mem_cons_self)
    · exact hmoves c (List.mem_cons_of_mem _ hc)

/-- As long as no tick reads the statistics and no other checklist is loaded, the groups stay as they are. -/
theorem statistics_run_of_unread {moves : List Move} (hreplace : ∀ c, .replace c ∉ moves)
    (hunread : ∀ now s, .tick now s ∈ moves → s.readStatistics version.era = none) :
    (st.run version moves).checklist.statistics = st.checklist.statistics := by
  induction moves generalizing st with
  | nil => rfl
  | cons m rest ih =>
    have hmove : (st.move version m).checklist.statistics = st.checklist.statistics := by
      cases m with
      | tick now s => exact tick_statistics_of_unread (hunread now s List.mem_cons_self)
      | edit e => rfl
      | replace c => exact absurd List.mem_cons_self (hreplace c)
    rw [← hmove]
    exact ih (fun c hc => hreplace c (List.mem_cons_of_mem _ hc))
      fun now s hs => hunread now s (List.mem_cons_of_mem _ hs)

end Standing

/-- **Marks leave with their world exactly if the statistics are read.** Take any run from a checklist without
marks, such as one that is read from a template, in which only such checklists are loaded. Let a tick after it
report a change of world.

* No manual progress is saved then, and no custom goal is marked as set by hand.
* No group of statistics and none of its criteria is so marked exactly if the tick reads the statistics, that is,
  in a known era with the document at hand, or if no override under any of their keys was set when they were read
  last.
* Marks that are left stay as long as no tick reads the statistics. The first tick that does leaves none of them,
  as long as no player has set an override in the other world.
-/
theorem marks_after_worldChanged_iff (version : Version) {start : Standing}
    (hstart : ∀ group ∈ start.checklist.statistics, group.IsUnmarked) {moves : List Move}
    (hmoves : ∀ c, .replace c ∈ moves → ∀ group ∈ c.statistics, group.IsUnmarked) (now : Instant)
    (s : Sources) :
    let st := start.run version moves
    let t := tick version now s st.checklist st.state
    t.report.worldChanged = true →
      (t.state.manual = (∅, ∅) ∧ ∀ g ∈ t.checklist.custom, g.manual = false) ∧
      ((∀ group ∈ t.checklist.statistics, group.IsUnmarked) ↔
        (s.readStatistics version.era).isSome = true ∨
          ∀ key ∈ st.checklist.overrideKeys, (start.shown version .empty moves).override key = false) ∧
      ∀ later : List Move, let u := (st.afterTick version now s).run version later
        ((∀ c, .replace c ∉ later) →
          (∀ now' s', .tick now' s' ∈ later → s'.readStatistics version.era = none) →
            u.checklist.statistics = t.checklist.statistics) ∧
        ((∀ key, .edit (.setOverride key true) ∉ later) → ∀ (next : Instant) (p : Sources),
          (p.readStatistics version.era).isSome = true →
            ∀ group ∈ (tick version next p u.checklist u.state).checklist.statistics, group.IsUnmarked) := by
  intro st t hchanged
  have hmanual : t.state.manual = (∅, ∅) := tick_state_of_worldChanged hchanged
  have hunset (key : String) : t.state.override key = false :=
    SavedState.override_of_empty (Prod.mk.inj hmanual).1 key
  refine ⟨⟨hmanual, tick_custom_of_worldChanged hchanged⟩, ?_, ?_⟩
  · -- Without the statistics the groups show the overrides of the tick that read them last.
    cases hread : s.readStatistics version.era with
    | some doc =>
      have hread : (s.readStatistics version.era).isSome = true := by rw [hread, Option.isSome_some]
      exact iff_of_true (tick_isUnmarked_of_unset hread hunset) (.inl rfl)
    | none =>
      have hshown : ∀ group ∈ st.checklist.statistics,
          group.ShowsOverrides (start.shown version .empty moves) :=
        Standing.showsOverrides_run (fun group hgroup =>
          (hstart group hgroup).showsOverrides (SavedState.override_of_empty rfl)) hmoves
      have hsame : t.checklist.statistics = st.checklist.statistics := tick_statistics_of_unread hread
      rw [hsame, Option.isSome_none, or_iff_right Bool.false_ne_true]
      simp only [Checklist.overrideKeys, List.forall_mem_flatMap]
      exact forall₂_congr fun group hgroup => (hshown group hgroup).isUnmarked_iff
  · intro later u
    refine ⟨Standing.statistics_run_of_unread, fun hnone next p hp => ?_⟩
    refine tick_isUnmarked_of_unset hp fun key => ?_
    have hstill : u.state.override key = false := Standing.override_run (hunset key) (hnone key)
    have hnext : (u.move version (.tick next p)).state.override key = false :=
      Standing.override_move hstill nofun
    exact hnext

/-- The override of a goal was set in the world that is left. The tick into the other world does not find the
statistics and keeps the mark, also over an edit of another kind, until they are read. -/
theorem marks_after_worldChanged_iff_without_statistics :
    let text := "\x7b\"stats\": \x7b\"jumps\": \x7b\"target\": 10\x7d\x7d\x7d"
    let version : Version := ⟨"1.12.2"⟩
    let now : Instant := ⟨⟨2018, 3, 1, by decide⟩, 0, 0, by decide⟩
    let jumps : Checklist :=
      { Checklist.empty with statistics := [.ofStatistic "jumps" "jumps" ⟨"jumps"⟩ 10 false] }
    let start : Standing := ⟨jumps, .empty⟩
    let s (world : String) (doc : Option Value) : Sources := ⟨some world, none, doc, none⟩
    let moves : List Move :=
      [.edit (.setOverride "jumps" true), .replace jumps, .tick now (s "A" (some (.object [])))]
    let st := start.run version moves
    let t := tick version now (s "B" none) st.checklist st.state
    let later : List Move := [.edit (.setCustom "flag" (.flag true)), .tick now (s "B" none)]
    let u := (st.afterTick version now (s "B" none)).run version later
    Template.read text ∅ = .ok jumps ∧ t.report.worldChanged = true ∧
      (start.shown version .empty moves).override "jumps" = true ∧
      ¬(∀ group ∈ t.checklist.statistics, group.IsUnmarked) ∧
      u.checklist.statistics = t.checklist.statistics ∧
      ∀ group ∈ (tick version now (s "B" (some (.object []))) u.checklist u.state).checklist.statistics,
        group.IsUnmarked := by
  intro text version now jumps start s moves st t later u
  have hread : Template.read text ∅ = .ok jumps := by decide +kernel
  have hnew : ∀ group ∈ jumps.statistics, group.IsUnmarked := Template.isUnmarked_of_read hread
  have hmoves (c : Checklist) (hc : .replace c ∈ moves) : ∀ group ∈ c.statistics, group.IsUnmarked := by
    simp only [moves, List.mem_cons, reduceCtorEq, Move.replace.injEq, List.not_mem_nil, or_false,
      false_or] at hc
    rwa [hc]
  have hchanged : t.report.worldChanged = true := by decide
  have hset : (start.shown version .empty moves).override "jumps" = true := by decide
  obtain ⟨-, hiff, hlater⟩ := marks_after_worldChanged_iff version hnew hmoves now (s "B" none) hchanged
  obtain ⟨hstay, hleave⟩ := hlater later
  have hunread (now' : Instant) (s' : Sources) (hs : .tick now' s' ∈ later) :
      s'.readStatistics version.era = none := by
    simp only [later, List.mem_cons, reduceCtorEq, Move.tick.injEq, List.not_mem_nil, or_false,
      false_or] at hs
    rw [hs.2, Sources.readStatistics, ite_self]
  refine ⟨hread, hchanged, hset, fun hunmarked => ?_, hstay (by simp [later]) hunread,
    hleave (by simp [later]) now _ (by decide)⟩
  rcases hiff.mp hunmarked with hreads | hunset
  · rw [Sources.readStatistics, ite_self, Option.isSome_none] at hreads
    cases hreads
  · rw [hunset "jumps" (by decide)] at hset
    cases hset

/-- A goal is reached in one world both by its progress and by its override. The tick into the other world finds
nothing but its name, and the goal stays marked as set by hand although no override is set. -/
theorem marks_stay_without_statistics :
    let text := "\x7b\"stats\": \x7b\"jumps\": \x7b\"root_name\": " ++
      "\"minecraft:custom/minecraft:jump\", \"target\": 10\x7d\x7d\x7d"
    let version : Version := ⟨"1.20.4"⟩
    let now : Instant := ⟨⟨2024, 1, 15, by decide⟩, 0, 0, by decide⟩
    let read : Checklist :=
      { Checklist.empty with
        statistics :=
          [.ofStatistic "jumps" "jumps" ⟨"minecraft:custom/minecraft:jump"⟩ 10 false] }
    let state := { SavedState.empty with world := some "A" }.setOverride "jumps" true
    let doc : Value := .object [("stats", .object [("minecraft:custom",
      .object [("minecraft:jump", .number (.whole 12))])])]
    let first := tick version now ⟨some "A", none, some doc, none⟩
      (Session.seed version.era state read) state
    let t := tick version now ⟨some "B", none, none, none⟩ first.checklist first.state
    Template.read text ∅ = .ok read ∧ first.checklist.Reached ∧
      t.report.worldChanged = true ∧ t.state.override "jumps" = false ∧
      t.checklist.statistics.map (fun group => (group.manual, group.criteria.map (·.manual))) =
        [(true, [true])] := by
  intro text version now read state doc first t
  have hread : Template.read text ∅ = .ok read := by decide +kernel
  exact ⟨hread, .tick _ _ _ _ (.seed _ _ (.read hread)), by decide, by decide, by decide⟩

end Milestone
