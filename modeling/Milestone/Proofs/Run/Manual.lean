import Milestone.Proofs.Run.Basic

/-!
# Manual progress along a run

Manual progress belongs to the world in which it was made. A tick clears it when it enters another world than
the one before, and when it captures a baseline. This file follows the manual progress along a run of ticks
and edits: at any time it is what the edits have made of it since the last tick that cleared it. The world
before is that of the last tick that had one, so ticks without a world make no difference.
-/

namespace Milestone

namespace Move

/-- The world of a tick, if it has one. -/
def world? : Move → Option String
  | .tick _ s => s.world
  | _ => none

/-- The edit that a move is, if it is one. -/
def edit? : Move → Option SavedState.Edit
  | .edit e => some e
  | _ => none

end Move

/-- An edit reads and changes the manual progress alone. -/
theorem SavedState.manual_edit_congr {s t : SavedState} (h : s.manual = t.manual) (e : Edit) :
    (s.edit e).manual = (t.edit e).manual := by
  obtain ⟨hoverrides, hcustom⟩ := Prod.mk.inj h
  cases e <;> simp only [edit, manual, setOverride, clearOverride, setCustom, hoverrides, hcustom]

/-- So do any number of edits. -/
theorem SavedState.manual_foldl_edit_congr {s t : SavedState} (h : s.manual = t.manual)
    (edits : List Edit) : (edits.foldl edit s).manual = (edits.foldl edit t).manual := by
  induction edits generalizing s t with
  | nil => exact h
  | cons e rest ih => exact ih (manual_edit_congr h e)

section Tick

variable (version : Version) (now : Instant) (s : Sources) (c : Checklist) (state : SavedState)

/-- A tick reports another world exactly if it has a world and a different one was seen before. -/
theorem tick_worldChanged_iff :
    (tick version now s c state).report.worldChanged = true ↔
      ∃ world before, s.world = some world ∧ c.world = some before ∧ before ≠ world := by
  rw [tick_worldChanged]
  simp only [Sources.changesWorld, Sources.entersWorld, Bool.and_eq_true, Option.any_eq_true,
    bne_iff_ne, Option.isSome_iff_exists]
  constructor
  · rintro ⟨⟨world, hworld, hne⟩, before, hbefore⟩
    refine ⟨world, before, hworld, hbefore, fun heq => hne ?_⟩
    rw [hbefore, heq]
  · rintro ⟨world, before, hworld, hbefore, hne⟩
    refine ⟨⟨world, hworld, fun heq => hne ?_⟩, before, hbefore⟩
    exact Option.some.inj (hbefore.symm.trans heq)

/-- Where checklist and saved state agree on the world that was seen last, they do so after a tick. -/
theorem tick_state_world (h : c.world = state.world) :
    (tick version now s c state).state.world = s.world.or c.world := by
  rw [tick_state]
  cases hworld : s.world with
  | none => simp [Sources.entersWorld, hworld, h]
  | some world =>
    by_cases hsame : c.world = some world
    · simp [Sources.entersWorld, hworld, hsame, ← h]
    · simp [Sources.entersWorld, hworld, hsame]

end Tick

namespace Standing

variable (version : Version)

/-- The world of the last tick that had one, or else the one that was recorded before the run. -/
def lastWorld (start : Standing) (moves : List Move) : Option String :=
  (moves.filterMap (·.world?)).getLast?.or start.state.world

/-- The moves of a run since the last tick that cleared the manual progress, with the state from which they
start: the empty one after such a tick, and else the one from which the run starts. -/
inductive SinceCleared (start : Standing) : List Move → SavedState → List Move → Prop where
  | never {moves : List Move} (h : ∀ r ∈ start.reports version moves, r.clearsManual = false) :
      SinceCleared start moves start.state moves
  | cleared (before : List Move) {since : List Move} (now : Instant) (s : Sources)
      (h : (tick version now s (start.run version before).checklist
        (start.run version before).state).report.clearsManual = true)
      (hsince : ∀ r ∈ ((start.run version before).afterTick version now s).reports version since,
        r.clearsManual = false) :
      SinceCleared start (before ++ .tick now s :: since) .empty since

variable {version}

/-- The last world of a run is that of the moves after the first, if they have one. -/
theorem lastWorld_cons (start : Standing) (m : Move) (rest : List Move) :
    start.lastWorld (m :: rest) =
      (rest.filterMap (·.world?)).getLast?.or (m.world?.or start.state.world) := by
  rw [lastWorld, List.filterMap_cons]
  cases hworld : m.world? with
  | none => rfl
  | some world => rw [List.getLast?_cons, Option.some_or]; cases List.getLast? _ <;> rfl

/-- Checklist and saved state agree on the world throughout a run of ticks and edits: it is that of the last
tick that had one. -/
theorem run_world {start : Standing} {moves : List Move}
    (hseed : start.checklist.world = start.state.world) (hmoves : ∀ c, .replace c ∉ moves) :
    (start.run version moves).checklist.world = start.lastWorld moves ∧
      (start.run version moves).state.world = start.lastWorld moves := by
  induction moves generalizing start with
  | nil => exact ⟨hseed, rfl⟩
  | cons m rest ih =>
    have hrest (c : Checklist) : .replace c ∉ rest := fun h => hmoves c (List.mem_cons_of_mem _ h)
    have hmove : (start.move version m).checklist.world = (start.move version m).state.world ∧
        (start.move version m).state.world = m.world?.or start.state.world := by
      cases m with
      | tick now s =>
        have hstate := tick_state_world version now s start.checklist start.state hseed
        exact ⟨(tick_world ..).trans hstate.symm, hstate.trans (by rw [hseed]; rfl)⟩
      | edit e =>
        have hstate := start.state.edit_world e
        exact ⟨hseed.trans hstate.symm, hstate⟩
      | replace c => exact absurd List.mem_cons_self (hmoves c)
    obtain ⟨hseed', hworld⟩ := hmove
    rw [lastWorld_cons, ← hworld]
    exact ih hseed' hrest

/-- As long as no tick clears the manual progress, it is what the edits make of it. -/
theorem manual_run_of_kept {start : Standing} {moves : List Move}
    (h : ∀ r ∈ start.reports version moves, r.clearsManual = false) :
    (start.run version moves).state.manual =
      ((moves.filterMap (·.edit?)).foldl SavedState.edit start.state).manual := by
  induction moves generalizing start with
  | nil => rfl
  | cons m rest ih =>
    cases m with
    | tick now s =>
      have hkept : (start.afterTick version now s).state.manual = start.state.manual := by
        rw [afterTick, tick_manual, h _ List.mem_cons_self]
        rfl
      have hrest : ∀ r ∈ (start.afterTick version now s).reports version rest,
          r.clearsManual = false :=
        fun r hr => h r (List.mem_cons_of_mem _ hr)
      exact (ih hrest).trans (SavedState.manual_foldl_edit_congr hkept _)
    | edit e => exact ih h
    | replace c => exact ih h

/-- Every run has moves since the last tick that cleared the manual progress. -/
theorem exists_sinceCleared (start : Standing) (moves : List Move) :
    ∃ base since, SinceCleared version start moves base since := by
  induction moves generalizing start with
  | nil => exact ⟨start.state, [], .never nofun⟩
  | cons m rest ih =>
    obtain ⟨base, since, h⟩ := ih (start.move version m)
    cases h with
    | cleared before now s hclears hsince =>
      exact ⟨.empty, since, .cleared (m :: before) now s hclears hsince⟩
    | never hnone =>
      -- No later tick clears, so that the first move decides.
      cases m with
      | tick now s =>
        cases hclears : (tick version now s start.checklist start.state).report.clearsManual with
        | true => exact ⟨.empty, rest, .cleared [] now s hclears hnone⟩
        | false =>
          exact ⟨start.state, .tick now s :: rest, .never (List.forall_mem_cons.mpr ⟨hclears, hnone⟩)⟩
      | edit e => exact ⟨start.state, .edit e :: rest, .never hnone⟩
      | replace c => exact ⟨start.state, .replace c :: rest, .never hnone⟩

/-- The manual progress is what the edits have made of it since the last tick that cleared it. -/
theorem SinceCleared.manual_run {start : Standing} {moves since : List Move} {base : SavedState}
    (h : SinceCleared version start moves base since) :
    (start.run version moves).state.manual =
      ((since.filterMap (·.edit?)).foldl SavedState.edit base).manual := by
  cases h with
  | never h => exact manual_run_of_kept h
  | cleared before now s h hsince =>
    have hcleared : ((start.run version before).afterTick version now s).state.manual =
        SavedState.empty.manual := by
      rw [afterTick, tick_manual, h]
      rfl
    rw [run, List.foldl_append]
    exact (manual_run_of_kept hsince).trans (SavedState.manual_foldl_edit_congr hcleared _)

/-- An override that is not set stays so as long as no player sets it. -/
theorem override_move {st : Standing} {key : String} (h : st.state.override key = false) {m : Move}
    (hm : m ≠ .edit (.setOverride key true)) : (st.move version m).state.override key = false := by
  cases m with
  | tick now s =>
    simp only [move, afterTick, tick_state, SavedState.override] at h ⊢
    split
    · rfl
    · exact h
  | edit e =>
    cases e with
    | setOverride k value =>
      rw [move, SavedState.edit, SavedState.override_setOverride]
      split
      · rename_i heq
        rw [← Bool.not_eq_true]
        rintro rfl
        exact hm (heq ▸ rfl)
      · exact h
    | clearOverride k => rw [move, SavedState.edit, SavedState.override_clearOverride, h, ite_self]
    | setCustom k value => exact h
  | replace c => exact h

/-- So it does over a whole run. -/
theorem override_run {st : Standing} {key : String} (h : st.state.override key = false)
    {moves : List Move} (hmoves : .edit (.setOverride key true) ∉ moves) :
    (st.run version moves).state.override key = false := by
  induction moves generalizing st with
  | nil => exact h
  | cons m rest ih =>
    refine ih (override_move h fun heq => ?_) fun hmem => ?_
    · exact hmoves (heq ▸ List.mem_cons_self)
    · exact hmoves (List.mem_cons_of_mem _ hmem)

end Standing

/-- **Manual progress lives as long as its world.** Let a checklist know the same world as the saved state at
the start of a run of ticks and edits. Then at any time:

* both know the world of the last tick that had one, or else that of the start;
* a tick reports another world exactly if it has one and a different one was known;
* a tick that reports another world or a captured baseline leaves no manual progress, and every other tick
  leaves it as it was;
* the manual progress is what the edits since the last such tick have made of none, or without such a tick
  all edits of that at the start.
-/
theorem manual_since_cleared (version : Version) (start : Standing)
    (hseed : start.checklist.world = start.state.world) (moves : List Move)
    (hmoves : ∀ c, .replace c ∉ moves) (now : Instant) (s : Sources) :
    let st := start.run version moves
    let t := tick version now s st.checklist st.state
    (st.checklist.world = start.lastWorld moves ∧ st.state.world = start.lastWorld moves) ∧
    (t.report.worldChanged = true ↔
      ∃ world before, s.world = some world ∧ start.lastWorld moves = some before ∧ before ≠ world) ∧
    (t.state.manual =
      if t.report.worldChanged || t.report.baselineCaptured then (∅, ∅) else st.state.manual) ∧
    ∃ base since, Standing.SinceCleared version start moves base since ∧
      st.state.manual = ((since.filterMap (·.edit?)).foldl SavedState.edit base).manual := by
  intro st t
  have hworld : st.checklist.world = start.lastWorld moves ∧ st.state.world = start.lastWorld moves :=
    Standing.run_world hseed hmoves
  refine ⟨hworld, ?_, tick_manual .., ?_⟩
  · rw [← hworld.1]
    exact tick_worldChanged_iff ..
  · have hcut : ∃ base since, Standing.SinceCleared version start moves base since :=
      Standing.exists_sinceCleared start moves
    obtain ⟨base, since, hsince⟩ := hcut
    exact ⟨base, since, hsince, hsince.manual_run⟩

/-- The first tick in the other world has no counters, so that its baseline is captured later and the override
of that world is lost. The custom value set afterwards stays when no world is open. -/
theorem manual_since_cleared_after_late_capture :
    let version : Version := ⟨"1.6.4"⟩
    let now : Instant := ⟨⟨2013, 7, 1, by decide⟩, 0, 0, by decide⟩
    let start : Standing :=
      ⟨{ Checklist.empty with world := some "A" }, { SavedState.empty with world := some "A" }⟩
    let counters : Json.Value := .object [("2010", .number (.whole 3))]
    let moves : List Move :=
      [.tick now ⟨some "A", none, none, none⟩, .tick now ⟨none, none, none, none⟩,
        .tick now ⟨some "B", none, none, none⟩, .edit (.setOverride "jumps" true),
        .tick now ⟨some "B", none, some counters, none⟩, .edit (.setCustom "flag" (.flag true)),
        .tick now ⟨none, none, none, none⟩]
    let s : Sources := ⟨some "A", none, none, none⟩
    let st := start.run version moves
    let t := tick version now s st.checklist st.state
    ((start.reports version moves).map (fun r => (r.worldChanged, r.baselineCaptured)) =
        [(false, false), (false, false), (true, false), (false, true), (false, false)] ∧
      st.state.manual = (∅, SavedState.empty.setCustom "flag" (.flag true) |>.custom)) ∧
    start.lastWorld moves = some "B" ∧ st.state.world = some "B" ∧ t.report.worldChanged = true ∧
      t.state.manual = (∅, ∅) := by
  intro version now start counters moves s st t
  have hmoves (c : Checklist) : .replace c ∉ moves := by simp [moves]
  obtain ⟨⟨-, hworld⟩, hchanged, hmanual, -⟩ :=
    manual_since_cleared version start rfl moves hmoves now s
  have hlast : start.lastWorld moves = some "B" := by decide
  have hreport : t.report.worldChanged = true :=
    hchanged.mpr ⟨"A", "B", rfl, hlast, by decide⟩
  refine ⟨⟨by decide, by decide⟩, hlast, hworld.trans hlast, hreport, ?_⟩
  rw [hmanual, hreport]
  rfl

end Milestone
