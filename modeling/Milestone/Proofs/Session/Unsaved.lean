import Milestone.Proofs.Session.Tries

/-!
# The mark of an unsaved state

The mark of an unsaved state decides what the next tick goes on with: while it is set, the state in memory
wins over the one in the store, and an edit that others made in between is overwritten. This file follows the
mark along runs of ticks whose saves are accepted or rejected in any order, with edits between the ticks. The
mark is set exactly while a save of the last tick that tried one was rejected. This is more often than the
store rejected the last save: a tick that makes good with its own save what it could not retry leaves the
mark behind.
-/

namespace Milestone

namespace Session

variable {σ : Type} {store : Store σ} {held : σ → SavedState} (hstore : store.Holds held)
  (session : Session) (x : σ) (sources : σ → Sources) (now : Instant)

theorem tick_session_state :
    (session.tick store sources now x).1.1.state =
      (session.nextTick store x sources now).state := by
  rw [tick_eq, settle_state]

/-- What a tick reports on the state is not changed by its save. -/
theorem tick_report :
    (session.tick store sources now x).1.2.worldChanged =
        (session.nextTick store x sources now).report.worldChanged ∧
      (session.tick store sources now x).1.2.baselineCaptured =
        (session.nextTick store x sources now).report.baselineCaptured := by
  rw [tick_eq]
  cases hdirty : (session.nextTick store x sources now).dirty with
  | false =>
    rw [settle_of_clean store _ _ hdirty]
    exact ⟨rfl, rfl⟩
  | true =>
    rw [settle_of_dirty store _ _ hdirty]
    split <;> exact ⟨rfl, rfl⟩

/-- A switch of the template does not concern the saved state. -/
theorem switchTemplate_unsaved {session next : Session} {files : FileTree} {path : String}
    (h : session.switchTemplate files path = .ok next) : next.unsaved = session.unsaved := by
  unfold switchTemplate at h
  split at h
  · cases h
  · cases h
    rfl

include hstore

/-- After a tick whose own save was accepted, the store holds the state of the session. -/
theorem held_tick_of_own
    (h : true ∈ ownTries store (session.refresh store x).2 (session.nextTick store x sources now)) :
    held (session.tick store sources now x).2 = (session.tick store sources now x).1.1.state := by
  rw [tick_session_state, tick_eq, held_settle _ _ hstore.keeps, if_pos h]

/-- After the first part of a tick without a rejected save, the store holds the state of the session. -/
theorem held_refresh_of_saved (h : (session.refresh store x).1.unsaved = false) :
    held (session.refresh store x).2 = (session.refresh store x).1.state := by
  have hnone : false ∉ session.retries store x := by
    rw [← refresh_unsaved, h]
    exact Bool.false_ne_true
  rw [refresh_state _ _ hstore, held_refresh _ _ hstore]
  cases hunsaved : session.unsaved with
  | false =>
    rw [(retries_eq_nil store session x).mpr hunsaved]
    rfl
  | true =>
    have hretry : true ∈ session.retries store x := by
      rw [retries, if_pos hunsaved] at hnone ⊢
      exact true_mem_of_false_not_mem hnone
    rw [if_pos hretry, if_pos rfl]

/-- After a tick without a rejected save, the store holds the state of the session. -/
theorem held_tick_of_saved (h : (session.tick store sources now x).1.1.unsaved = false) :
    held (session.tick store sources now x).2 = (session.tick store sources now x).1.1.state := by
  rw [tick_session_state]
  exact held_settle_of_saved _ _ hstore.keeps (held_refresh_of_saved hstore session x)
    (tick_state_of_clean _ _ _ _ _) h

/-- A tick without an outstanding save keeps the manual progress that the store holds, in the session and in
the store, unless it changes the world or captures a baseline. -/
theorem tick_keeps_manual (hsaved : session.unsaved = false)
    (hworld : (session.tick store sources now x).1.2.worldChanged = false)
    (hcap : (session.tick store sources now x).1.2.baselineCaptured = false) :
    (session.tick store sources now x).1.1.state.overrides = (held x).overrides ∧
      (session.tick store sources now x).1.1.state.custom = (held x).custom ∧
      (held (session.tick store sources now x).2).overrides = (held x).overrides ∧
      (held (session.tick store sources now x).2).custom = (held x).custom := by
  rw [(tick_report session x sources now).1] at hworld
  rw [(tick_report session x sources now).2] at hcap
  have hstate : (session.refresh store x).1.state = held x := by
    rw [refresh_state _ _ hstore, hsaved]
    rfl
  have hplace : held (session.refresh store x).2 = held x := by
    rw [held_refresh _ _ hstore, (retries_eq_nil store session x).mpr hsaved]
    rfl
  have hmanual : (session.nextTick store x sources now).state.overrides =
        (session.refresh store x).1.state.overrides ∧
      (session.nextTick store x sources now).state.custom =
        (session.refresh store x).1.state.custom := tick_manual_of_kept _ _ _ _ _ hworld hcap
  rw [hstate] at hmanual
  obtain ⟨hoverrides, hcustom⟩ := hmanual
  rw [tick_session_state, tick_eq, held_settle _ _ hstore.keeps, hplace]
  refine ⟨hoverrides, hcustom, ?_⟩
  split
  · exact ⟨hoverrides, hcustom⟩
  · exact ⟨rfl, rfl⟩

end Session

/-- A session in its surroundings, with the saves that each of its ticks tried. The last tick stands in
front, and in each tick its last save. -/
structure Situation (σ : Type) where
  session : Session
  place : σ
  tries : List (List Bool)

namespace Situation

variable {σ : Type}

/-- The situation after a tick, with the saves that a log of the store finds. -/
def afterTick (store : Store σ) (sources : σ → Sources) (now : Instant) (st : Situation σ) :
    Situation σ :=
  let out := st.session.tick store.logged (fun y => sources y.1) now (st.place, [])
  ⟨out.1.1, out.2.1, out.2.2 :: st.tries⟩

/-- Whether the last save was accepted, if there was one. -/
def lastTry? (st : Situation σ) : Option Bool :=
  st.tries.flatten.head?

/-- The saves of the last tick that tried any. -/
def lastTries (st : Situation σ) : List Bool :=
  (st.tries.find? (!·.isEmpty)).getD []

/-- The runs of a session: ticks on any sources, switches of the template, and between them what others
do. -/
inductive Leads (store : Store σ) (held : σ → SavedState) (start : Situation σ) :
    Situation σ → Prop where
  | refl : Leads store held start start
  | tick {st : Situation σ} (h : Leads store held start st) (sources : σ → Sources)
      (now : Instant) : Leads store held start (st.afterTick store sources now)
  | switch {st : Situation σ} (h : Leads store held start st) {files : FileTree} {path : String}
      {next : Session} (hswitch : st.session.switchTemplate files path = .ok next) :
      Leads store held start { st with session := next }
  | between {st : Situation σ} (h : Leads store held start st) {y : σ}
      (hbetween : store.Between held st.place y) : Leads store held start { st with place := y }

variable {store : Store σ} {held : σ → SavedState}

/-- The last save is that of the last tick that tried any. -/
theorem lastTry?_eq (st : Situation σ) : st.lastTry? = st.lastTries.head? := by
  unfold lastTry? lastTries
  generalize st.tries = tries
  induction tries with
  | nil => rfl
  | cons first rest ih =>
    cases first with
    | nil => simpa using ih
    | cons b bs => simp

/-- The log makes no difference to a tick. -/
theorem afterTick_eq (st : Situation σ) (sources : σ → Sources) (now : Instant) :
    st.afterTick store sources now =
      ⟨(st.session.tick store sources now st.place).1.1,
        (st.session.tick store sources now st.place).2,
        st.session.tries store st.place sources now :: st.tries⟩ := by
  simp only [afterTick, Session.tick_logged, List.append_nil]

theorem lastTries_afterTick (st : Situation σ) (sources : σ → Sources) (now : Instant) :
    (st.afterTick store sources now).lastTries =
      if st.session.tries store st.place sources now = [] then st.lastTries
      else st.session.tries store st.place sources now := by
  rw [afterTick_eq]
  unfold lastTries
  cases st.session.tries store st.place sources now <;> simp

/-- Along a run the mark is set exactly while a save of the last tick that tried any was rejected. -/
theorem unsaved_iff_of_leads {session : Session} (hclear : session.unsaved = false) {x : σ}
    {st : Situation σ} (h : Leads store held ⟨session, x, []⟩ st) :
    st.session.unsaved = true ↔ false ∈ st.lastTries := by
  induction h with
  | refl =>
    rw [hclear]
    simp [lastTries]
  | @tick st _ sources now ih =>
    have htick : (st.afterTick store sources now).session.unsaved = true ↔
        false ∈ st.session.tries store st.place sources now := by
      rw [afterTick_eq]
      exact Session.tick_unsaved store st.session st.place sources now
    rw [htick, lastTries_afterTick]
    split
    · rename_i hnone
      have hretries : st.session.retries store st.place = [] :=
        (List.append_eq_nil_iff.mp hnone).2
      have hsaved := (Session.retries_eq_nil store st.session st.place).mp hretries
      rw [← ih, hnone, hsaved]
      simp
    · exact Iff.rfl
  | switch _ hswitch ih =>
    rw [Session.switchTemplate_unsaved hswitch]
    exact ih
  | between _ _ ih => exact ih

/-- Along a run a mark without a rejected last save is that of a tick which made good with its own save
what it could not retry. -/
theorem lastTries_of_leads {session : Session} (hclear : session.unsaved = false) {x : σ}
    {st : Situation σ} (h : Leads store held ⟨session, x, []⟩ st)
    (hunsaved : st.session.unsaved = true) (hlast : st.lastTry? ≠ some false) :
    st.lastTries = [true, false] := by
  have hmem := (unsaved_iff_of_leads hclear h).mp hunsaved
  clear hunsaved
  rw [lastTry?_eq] at hlast
  induction h with
  | refl => simp [lastTries] at hmem
  | @tick st _ sources now ih =>
    rw [lastTries_afterTick] at hmem hlast ⊢
    split
    · rename_i hnone
      rw [if_pos hnone] at hmem hlast
      exact ih hlast hmem
    · rename_i hsome
      rw [if_neg hsome] at hmem hlast
      exact Session.tries_of_last_accepted store st.session st.place hmem hlast
  | switch _ _ ih => exact ih hlast hmem
  | between _ _ ih => exact ih hlast hmem

/-- A session goes on with the state that the store holds exactly if its mark is clear or that is the state
in memory; an outstanding save that is accepted puts the latter into the store. -/
theorem refresh_keeps_iff (hstore : store.Holds held) (session : Session) (y : σ) :
    ((session.refresh store y).1.state = held y ↔
        session.unsaved = false ∨ held y = session.state) ∧
      (held (session.refresh store y).2 = held y ↔
        session.unsaved = false ∨ store.accepts session.state y = false ∨
          held y = session.state) := by
  rw [Session.refresh_state _ _ hstore, Session.held_refresh _ _ hstore, Session.retries]
  cases session.unsaved with
  | false => simp
  | true =>
    cases store.accepts session.state y with
    | false => simp [eq_comm]
    | true => simp [eq_comm]

/-- **Edits are kept unless the mark is set.** Let a store be such that it can always be loaded but may reject
any save, and let a session without an outstanding save run on it: with ticks on any sources, with switches of
the template, and between them with edits from outside that the store accepts. After every tick:

* the mark is set exactly if a save of the last tick that tried any was rejected;
* it says that the last save of all was rejected, unless in the last tick that tried any the outstanding
  save was rejected again and its own was accepted;
* in that case, and also if the mark is clear, the store holds the state of the session;
* until the next tick, only edits change what the store holds;
* where the store holds the state of the session, edits from outside are in the state with which the next
  tick goes on exactly if the mark is clear or they changed nothing, and that tick leaves them in the store
  exactly if besides that it does not get the outstanding save through;
* if the mark is clear, a next tick that neither changes the world nor captures a baseline keeps the edited
  overrides and custom values, in the session and in the store.
-/
theorem edits_kept_iff_saved (hstore : store.Holds held) {session : Session}
    (hclear : session.unsaved = false) {x : σ} {st : Situation σ}
    (hrun : Leads store held ⟨session, x, []⟩ st) (sources : σ → Sources) (now : Instant) :
    let after := st.afterTick store sources now
    (after.session.unsaved = true ↔ false ∈ after.lastTries) ∧
      ((after.session.unsaved = true → after.lastTry? = some false) ↔
        after.lastTries ≠ [true, false]) ∧
      (after.session.unsaved = false ∨ after.lastTries = [true, false] →
        held after.place = after.session.state) ∧
      ∀ y, store.Between held after.place y →
        (∃ edits : List SavedState.Edit, held y = edits.foldl SavedState.edit (held after.place)) ∧
        (held after.place = after.session.state →
          ((after.session.refresh store y).1.state = held y ↔
            after.session.unsaved = false ∨ held y = held after.place) ∧
          (held (after.session.refresh store y).2 = held y ↔
            after.session.unsaved = false ∨ store.accepts after.session.state y = false ∨
              held y = held after.place)) ∧
        ∀ (later : σ → Sources) (time : Instant),
          let next := after.session.tick store later time y
          after.session.unsaved = false → next.1.2.worldChanged = false →
            next.1.2.baselineCaptured = false →
              next.1.1.state.overrides = (held y).overrides ∧
                next.1.1.state.custom = (held y).custom ∧
                (held next.2).overrides = (held y).overrides ∧
                (held next.2).custom = (held y).custom := by
  intro after
  have hleads : Leads store held ⟨session, x, []⟩ after := hrun.tick sources now
  have hmark := unsaved_iff_of_leads hclear hleads
  refine ⟨hmark, ⟨?_, ?_⟩, ?_, ?_⟩
  · intro hsays hgood
    have hlast := hsays (hmark.mpr (by simp [hgood]))
    rw [lastTry?_eq, hgood] at hlast
    cases hlast
  · intro hbad hunsaved
    refine Decidable.byContradiction fun hlast => hbad ?_
    exact lastTries_of_leads hclear hleads hunsaved hlast
  · intro hcase
    have hafter : after = _ := afterTick_eq st sources now
    cases hunsaved : after.session.unsaved with
    | false =>
      rw [hafter] at hunsaved ⊢
      exact Session.held_tick_of_saved hstore st.session st.place sources now hunsaved
    | true =>
      have hgood : after.lastTries = [true, false] := hcase.resolve_left (by simp [hunsaved])
      rw [hafter] at hunsaved ⊢
      have hmem := (Session.tick_unsaved store st.session st.place sources now).mp hunsaved
      rw [lastTries_afterTick, if_neg (List.ne_nil_of_mem hmem)] at hgood
      exact Session.held_tick_of_own hstore st.session st.place sources now
        (Session.own_of_tries store st.session st.place hgood)
  · intro y hbetween
    refine ⟨hstore.held_between hbetween, fun hheld => ?_, fun later time => ?_⟩
    · rw [hheld]
      exact refresh_keeps_iff hstore after.session y
    · exact Session.tick_keeps_manual hstore after.session y later time

/-- A save is accepted at the first tick, and an edit follows. -/
theorem edits_kept_iff_saved_after_edit :
    let store := MemoryStore.store
    let session : Session := ⟨⟨"1.20.4"⟩, "saves", "template.json", none, .empty, .empty, false⟩
    let now : Instant := ⟨⟨2024, 1, 1, by decide⟩, 0, 0, by decide⟩
    let world : MemoryStore → Sources := fun _ => ⟨some "A", none, none, none⟩
    let after := afterTick store world now ⟨session, ⟨.empty, 0, 0⟩, []⟩
    let y := (store.edit (.setOverride "jumps" true) after.place).2
    let next := after.session.tick store world now y
    after.session.unsaved = false ∧ next.1.1.state.overrides = y.state.overrides ∧
      next.2.state.overrides = y.state.overrides ∧ y.state.override "jumps" = true := by
  intro store session now world after y next
  have hsaved : after.session.unsaved = false := by decide
  have hbetween : store.Between MemoryStore.state after.place y :=
    .edit (.setOverride "jumps" true) .refl rfl
  have hclear : session.unsaved = false := rfl
  have hrun : Leads store MemoryStore.state ⟨session, ⟨.empty, 0, 0⟩, []⟩
      ⟨session, ⟨.empty, 0, 0⟩, []⟩ := .refl
  obtain ⟨-, -, -, hedits⟩ := edits_kept_iff_saved MemoryStore.holds hclear hrun world now
  obtain ⟨-, -, hkeeps⟩ := hedits y hbetween
  obtain ⟨hmemory, -, hstored, -⟩ := hkeeps world now hsaved (by decide) (by decide)
  exact ⟨hsaved, hmemory, hstored, by decide⟩

/-- Others set an override while the store holds the state of the session, and the next tick takes it back
though it clears no manual progress. -/
structure LosesOverride (store : Store σ) (held : σ → SavedState) (sources : σ → Sources)
    (now : Instant) (key : String) (st : Situation σ) : Prop where
  held_state : held st.place = st.session.state
  accepted : (store.edit (.setOverride key true) st.place).1 = .ok ()
  edited : (held (store.edit (.setOverride key true) st.place).2).override key = true
  sameWorld : (st.session.tick store sources now
    (store.edit (.setOverride key true) st.place).2).1.2.worldChanged = false
  noCapture : (st.session.tick store sources now
    (store.edit (.setOverride key true) st.place).2).1.2.baselineCaptured = false
  lost : (st.session.tick store sources now
    (store.edit (.setOverride key true) st.place).2).1.1.state.override key = false
  overwritten : (held (st.session.tick store sources now
    (store.edit (.setOverride key true) st.place).2).2).override key = false

/-- Two runs that lose an edit. In the first one the save of the first tick is rejected; the second tick
enters another world, its retry is rejected and its own save accepted, and still the mark is set. In the
second one the store has the state of a world, rejects that of another, and rejects once more when the
session comes back to the state that the store has. -/
theorem edit_lost_after_rejected_saves :
    let store := MemoryStore.store
    let session : Session := ⟨⟨"1.20.4"⟩, "saves", "template.json", none, .empty, .empty, false⟩
    let now : Instant := ⟨⟨2024, 1, 1, by decide⟩, 0, 0, by decide⟩
    let world (name : String) : MemoryStore → Sources := fun _ => ⟨some name, none, none, none⟩
    let start (rejections : Nat) : Situation MemoryStore := ⟨session, ⟨.empty, rejections, 0⟩, []⟩
    let late := ((start 2).afterTick store (world "A") now).afterTick store (world "B") now
    let first := (start 0).afterTick store (world "A") now
    let full := { first with place := { first.place with rejections := 3 } }
    let back := (full.afterTick store (world "B") now).afterTick store (world "A") now
    store.Holds MemoryStore.state ∧
      (Leads store MemoryStore.state (start 2) late ∧ late.session.unsaved = true ∧
        late.lastTry? = some true ∧
        late.LosesOverride store MemoryStore.state (world "B") now "jumps") ∧
      Leads store MemoryStore.state (start 0) back ∧ back.session.unsaved = true ∧
        back.lastTry? = some false ∧
        back.LosesOverride store MemoryStore.state (world "A") now "jumps" := by
  intro store session now world start late first full back
  have hlate : Leads store MemoryStore.state (start 2) late := .tick (.tick .refl _ _) _ _
  have hfull : Leads store MemoryStore.state (start 0) full :=
    .between (.tick .refl (world "A") now) (.change .refl rfl)
  have hback : Leads store MemoryStore.state (start 0) back := .tick (.tick hfull _ _) _ _
  refine ⟨MemoryStore.holds, ⟨hlate, by decide, by decide, ?_⟩, hback, by decide, by decide, ?_⟩
  · exact ⟨by decide, MemoryStore.edit_accepted (by decide) _, by decide, by decide, by decide,
      by decide, by decide⟩
  · exact ⟨by decide, MemoryStore.edit_accepted (by decide) _, by decide, by decide, by decide,
      by decide, by decide⟩

end Situation

end Milestone
