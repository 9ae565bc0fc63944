import Milestone.Proofs.Run.Basic
import Milestone.Proofs.Session.Unsaved

/-!
# Tracking on a store that fails

As long as nobody else changes what a store holds, a session never depends on it: while the mark of an unsaved
state is clear, the store holds the state in memory, and while it is set, the state in memory is not replaced.
So every tick goes on with the state of the tick before, whether saves are accepted and loads succeed or not.
A run on any store is the run of the ticks alone.
-/

namespace Milestone

/-- What a tick leaves and reports, without whether the state was saved. -/
structure TickOutcome where
  checklist : Checklist
  state : SavedState
  report : Report
  deriving DecidableEq

/-- The outcome of a tick. -/
def Tick.outcome (t : Tick) : TickOutcome :=
  ⟨t.checklist, t.state, { t.report with unsaved := false }⟩

/-- The outcomes of ticks one after the other, where no store takes part. -/
def Standing.outcomes (version : Version) : Standing → List (Instant × Sources) → List TickOutcome
  | _, [] => []
  | st, (now, s) :: rest =>
    (tick version now s st.checklist st.state).outcome ::
      outcomes version (st.afterTick version now s) rest

/-- A turn of a session in surroundings `σ`. -/
structure Turn (σ : Type) where
  /-- What happens there before the tick. -/
  before : σ → σ
  now : Instant
  /-- The sources that the tick finds. -/
  sources : σ → Sources

/-- Nobody changes what the store holds before the tick. -/
def Turn.Keeps {σ : Type} (turn : Turn σ) (held : σ → SavedState) : Prop :=
  ∀ x, held (turn.before x) = held x

namespace Session

variable {σ : Type}

/-- What a session shows after a tick with a report. -/
def outcome (session : Session) (r : Report) : TickOutcome :=
  ⟨session.checklist, session.state, { r with unsaved := false }⟩

/-- Where the tracking of a session stands. -/
def standing (session : Session) : Standing :=
  ⟨session.checklist, session.state⟩

/-- Without the mark of an unsaved state, the store holds the state of the session. -/
def IsHeld (held : σ → SavedState) (p : Session × σ) : Prop :=
  p.1.unsaved = false → held p.2 = p.1.state

section Run

variable (store : Store σ)

/-- The tick of a turn. -/
def takeTurn (p : Session × σ) (turn : Turn σ) : (Session × Report) × σ :=
  p.1.tick store turn.sources turn.now (turn.before p.2)

/-- The session in its surroundings after a turn. -/
def afterTurn (p : Session × σ) (turn : Turn σ) : Session × σ :=
  ((takeTurn store p turn).1.1, (takeTurn store p turn).2)

/-- When the tick of a turn is made, and with which sources. -/
def seenIn (p : Session × σ) (turn : Turn σ) : Instant × Sources :=
  (turn.now, turn.sources (p.1.refresh store (turn.before p.2)).2)

/-- A session and the surroundings after some turns. -/
def afterTurns (p : Session × σ) (turns : List (Turn σ)) : Session × σ :=
  turns.foldl (afterTurn store) p

/-- The outcomes of the ticks of a session, turn by turn. -/
def outcomes : Session × σ → List (Turn σ) → List TickOutcome
  | _, [] => []
  | p, turn :: rest =>
    (takeTurn store p turn).1.1.outcome (takeTurn store p turn).1.2 ::
      outcomes (afterTurn store p turn) rest

/-- What the ticks of a session find, turn by turn. -/
def seen : Session × σ → List (Turn σ) → List (Instant × Sources)
  | _, [] => []
  | p, turn :: rest => seenIn store p turn :: seen (afterTurn store p turn) rest

end Run

section Step

variable (store : Store σ) (session : Session) (x : σ)

/-- Whether the state is saved concerns the mark and the report on it alone. -/
theorem outcome_settle (t : Tick) :
    (session.settle store t x).1.1.outcome (session.settle store t x).1.2 = t.outcome := by
  cases h : t.dirty with
  | false =>
    rw [settle_of_clean store session x h]
    rfl
  | true =>
    rw [settle_of_dirty store session x h]
    split <;> rfl

/-- Settling a tick keeps the version. -/
theorem settle_version (t : Tick) : (session.settle store t x).1.1.version = session.version := by
  cases h : t.dirty with
  | false => rw [settle_of_clean store session x h]
  | true =>
    rw [settle_of_dirty store session x h]
    split <;> rfl

variable {store session x} {held : σ → SavedState} (hstore : store.Keeps held)

include hstore

/-- A load that succeeds finds the state of the session where the store holds it. -/
theorem load_of_held (hheld : held x = session.state) :
    (match store.load x with
      | (.ok state, y) => ({ session with state := state, unsaved := false }, y)
      | (.error _, y) => ({ session with unsaved := false }, y)) =
      ({ session with unsaved := false }, (store.load x).2) := by
  rcases hload : store.load x with ⟨_ | state, y⟩
  · rfl
  · have hstate : state = session.state :=
      (hstore.loaded x state (by rw [hload])).trans hheld
    rw [hstate]

/-- The first part of a tick changes at most the mark. -/
theorem refresh_of_isHeld (h : IsHeld held (session, x)) :
    ∃ waiting y, session.refresh store x = ({ session with unsaved := waiting }, y) ∧
      IsHeld held ({ session with unsaved := waiting }, y) := by
  cases hunsaved : session.unsaved with
  | false =>
    have hheld : held x = session.state := h hunsaved
    refine ⟨false, (store.load x).2, ?_, fun _ => (hstore.held_load x).trans hheld⟩
    unfold refresh
    rw [hunsaved]
    exact load_of_held hstore hheld
  | true =>
    cases hsave : store.accepts session.state x with
    | false =>
      refine ⟨true, (store.save session.state x).2, ?_, nofun⟩
      rw [refresh_of_rejected store session x hunsaved hsave, ← hunsaved]
    | true =>
      have hheld := hstore.accepted _ _ hsave
      refine ⟨false, _, ?_, fun _ => (hstore.held_load _).trans hheld⟩
      unfold refresh
      rw [hunsaved]
      simp only [Store.accepts] at hsave
      rcases hresult : store.save session.state x with ⟨_ | _, y⟩
      · rw [hresult] at hsave
        cases hsave
      · rw [hresult] at hheld
        exact load_of_held hstore hheld

/-- A turn leaves what the tick alone leaves of checklist and state, and whether the store holds that state
is known from the mark. -/
theorem afterTurn_of_isHeld {p : Session × σ} (h : IsHeld held p) {turn : Turn σ}
    (hturn : turn.Keeps held) :
    let s := seenIn store p turn
    let t := Milestone.tick p.1.version s.1 s.2 p.1.checklist p.1.state
    let after := afterTurn store p turn
    (takeTurn store p turn).1.1.outcome (takeTurn store p turn).1.2 = t.outcome ∧
      after.1.version = p.1.version ∧ after.1.standing = ⟨t.checklist, t.state⟩ ∧
      IsHeld held after := by
  intro s t after
  have hbefore : IsHeld held (p.1, turn.before p.2) := fun hsaved => (hturn p.2).trans (h hsaved)
  obtain ⟨waiting, y, hrefresh, hheld⟩ := refresh_of_isHeld hstore hbefore
  have hs : s = (turn.now, turn.sources y) := by simp only [s, seenIn, hrefresh]
  have htake : takeTurn store p turn = settle store { p.1 with unsaved := waiting } t y := by
    simp only [takeTurn, tick_eq, nextTick, hrefresh, t, hs]
  have houtcome : (takeTurn store p turn).1.1.outcome (takeTurn store p turn).1.2 = t.outcome := by
    rw [htake]
    exact outcome_settle ..
  refine ⟨houtcome, ?_, ?_, ?_⟩
  · simp only [after, afterTurn, htake]
    exact settle_version ..
  · have hchecklist : after.1.checklist = t.checklist := congrArg (·.checklist) houtcome
    have hstate : after.1.state = t.state := congrArg (·.state) houtcome
    rw [standing, hchecklist, hstate]
  · intro hsaved
    simp only [after, afterTurn, htake] at hsaved ⊢
    rw [settle_state]
    exact held_settle_of_saved _ _ hstore hheld (tick_state_of_clean _ _ _ _ _) hsaved

/-- Along a run the store holds the state of the session whenever the mark is clear. -/
theorem isHeld_afterTurns {p : Session × σ} (h : IsHeld held p) {turns : List (Turn σ)}
    (hturns : ∀ turn ∈ turns, turn.Keeps held) : IsHeld held (afterTurns store p turns) := by
  induction turns generalizing p with
  | nil => exact h
  | cons turn rest ih =>
    obtain ⟨hturn, hrest⟩ := List.forall_mem_cons.mp hturns
    obtain ⟨-, -, -, hafter⟩ := afterTurn_of_isHeld hstore h hturn
    exact ih hafter hrest

/-- The outcomes of a run on a store are those of the ticks alone. -/
theorem outcomes_of_isHeld {p : Session × σ} (h : IsHeld held p) {turns : List (Turn σ)}
    (hturns : ∀ turn ∈ turns, turn.Keeps held) :
    outcomes store p turns = p.1.standing.outcomes p.1.version (seen store p turns) := by
  induction turns generalizing p with
  | nil => rfl
  | cons turn rest ih =>
    obtain ⟨hturn, hrest⟩ := List.forall_mem_cons.mp hturns
    obtain ⟨houtcome, hversion, hstanding, hafter⟩ := afterTurn_of_isHeld hstore h hturn
    have hlater := ih hafter hrest
    rw [hversion, hstanding] at hlater
    rw [outcomes, houtcome, hlater]
    rfl

/-- A tick that changes the state hands the new one to the store, once and last. -/
theorem tick_recorded_of_changed (h : IsHeld held (session, x)) (sources : σ → Sources) (now : Instant)
    (hchanged : (session.tick store sources now x).1.1.state ≠ session.state) :
    ∃ earlier,
      (session.tick store.recorded (fun y => sources y.1) now (x, [])).2.2 =
        (session.tick store sources now x).1.1.state :: earlier ∧
      (session.tick store sources now x).1.1.state ∉ earlier := by
  obtain ⟨waiting, y, hrefresh, -⟩ := refresh_of_isHeld hstore h
  rw [tick_recorded]
  rw [tick_session_state] at hchanged ⊢
  cases hdirty : (session.nextTick store x sources now).dirty with
  | true =>
    refine ⟨if session.unsaved then [session.state] else [], by simp, ?_⟩
    split
    · simpa using hchanged
    · exact List.not_mem_nil
  | false =>
    have hkept : (session.nextTick store x sources now).state =
        (session.refresh store x).1.state := tick_state_of_clean _ _ _ _ _ hdirty
    rw [hrefresh] at hkept
    exact absurd hkept hchanged

/-- A session that was opened on a store has its state, and the checklist of the template. -/
theorem openOn_of_keeps {files : σ → FileTree} {settings : Settings} {y : σ}
    (hopen : openOn store files settings x = (.ok session, y)) :
    session = start settings (held x)
        (Template.loadOrEmpty (files y) settings.template settings.names) ∧
      held y = held x := by
  unfold openOn at hopen
  have hheld := hstore.held_load x
  rcases hload : store.load x with ⟨_ | state, z⟩
  · rw [hload] at hopen
    cases hopen
  · rw [hload] at hopen hheld
    cases hopen
    rw [hstore.loaded x state (by rw [hload])]
    exact ⟨rfl, hheld⟩

end Step

/-- **A store that fails does not change the tracking.** Let sessions be opened with the same settings and
files on two stores that hold the same state, and let ticks follow at the same times with the same sources.
Each store may reject any save and fail any load after that, as long as it holds the state of the last save
that it accepted, and nobody else changes what it holds. Then:

* both runs show the same checklists, the same states and the same reports, apart from whether the state
  was saved;
* whenever the mark of an unsaved state is clear, the store holds the state of the session;
* a tick that changes the state hands the new one to the store, once and after any other.
-/
theorem outcomes_store_independent {σ τ : Type} {store : Store σ} {other : Store τ}
    {held : σ → SavedState} {kept : τ → SavedState} (hstore : store.Keeps held)
    (hother : other.Keeps kept) (settings : Settings) {files : σ → FileTree} {trees : τ → FileTree}
    {x y : σ} {v w : τ} {first second : Session}
    (hfirst : openOn store files settings x = (.ok first, y))
    (hsecond : openOn other trees settings v = (.ok second, w))
    (hsame : held x = kept v) (hfiles : files y = trees w)
    {turns : List (Turn σ)} {others : List (Turn τ)} (hturns : ∀ turn ∈ turns, turn.Keeps held)
    (hothers : ∀ turn ∈ others, turn.Keeps kept)
    (hseen : seen store (first, y) turns = seen other (second, w) others) :
    let p := afterTurns store (first, y) turns
    outcomes store (first, y) turns = outcomes other (second, w) others ∧
    (p.1.unsaved = false → held p.2 = p.1.state) ∧
    ∀ turn : Turn σ, turn.Keeps held →
      let next := takeTurn store p turn
      next.1.1.state ≠ p.1.state →
        ∃ earlier,
          (p.1.tick store.recorded (fun z => turn.sources z.1) turn.now (turn.before p.2, [])).2.2 =
            next.1.1.state :: earlier ∧ next.1.1.state ∉ earlier := by
  intro p
  obtain ⟨rfl, hy⟩ := openOn_of_keeps hstore hfirst
  obtain ⟨rfl, hw⟩ := openOn_of_keeps hother hsecond
  rw [← hsame, ← hfiles] at hseen hsecond ⊢
  have hstart : IsHeld held (start settings (held x)
      (Template.loadOrEmpty (files y) settings.template settings.names), y) := fun _ => hy
  have hstart' : IsHeld kept (start settings (held x)
      (Template.loadOrEmpty (files y) settings.template settings.names), w) :=
    fun _ => hw.trans hsame.symm
  have hp : IsHeld held p := isHeld_afterTurns hstore hstart hturns
  refine ⟨?_, hp, fun turn hturn hchanged => ?_⟩
  · rw [outcomes_of_isHeld hstore hstart hturns, outcomes_of_isHeld hother hstart' hothers, hseen]
  · have hbefore : IsHeld held (p.1, turn.before p.2) := fun hsaved => (hturn p.2).trans (hp hsaved)
    exact tick_recorded_of_changed hstore hbefore turn.sources turn.now hchanged

end Session

/-- The store in memory, except that it cannot be loaded either while it rejects saves. -/
def MemoryStore.flaky : Store MemoryStore where
  load m := if 0 < m.rejections then (.error .rejected, m) else load m
  save := save

/-- It keeps what it accepts all the same. -/
theorem MemoryStore.flaky_keeps : flaky.Keeps MemoryStore.state where
  loaded m s h := by
    simp only [flaky, load] at h
    split at h
    · cases h
    · cases h
      rfl
  held_load m := by
    simp only [flaky, load]
    split <;> rfl
  accepted := holds.accepted
  rejected := holds.rejected

/-- The store fails while a baseline is captured and in the tick after that, and what came since the baseline
shows all the same. -/
theorem Session.outcomes_store_independent_of_flaky :
    let settings : Settings := ⟨⟨"1.6.4"⟩, "template.json", none, "saves", "state.json", 100, 5⟩
    let files : MemoryStore → FileTree := fun _ => ⟨[], [], 0⟩
    let now : Instant := ⟨⟨2013, 7, 1, by decide⟩, 0, 0, by decide⟩
    let counters (played : Int) : Sources :=
      ⟨some "A", none, some (.object [("1100", .number (.whole played))]), none⟩
    let turn (before : MemoryStore → MemoryStore) (played : Int) : Turn MemoryStore :=
      ⟨before, now, fun _ => counters played⟩
    let turns := [turn (fun m => { m with rejections := 2 }) 5, turn id 8, turn id 12]
    let others := [turn id 5, turn id 8, turn id 12]
    let session := Session.start settings .empty .empty
    let x : MemoryStore := ⟨.empty, 0, 0⟩
    let shown := Session.outcomes MemoryStore.flaky (session, x) turns
    openOn MemoryStore.flaky files settings x = (.ok session, x) ∧
      (Session.afterTurns MemoryStore.flaky (session, x) (turns.take 2)).1.unsaved = true ∧
      (Session.afterTurns MemoryStore.flaky (session, x) turns).1.unsaved = false ∧
      shown = Session.outcomes MemoryStore.store (session, x) others ∧
      shown.map (·.checklist.playTime.value) = [0, 3, 7] ∧
      shown.map (·.report.baselineCaptured) = [true, false, false] := by
  intro settings files now counters turn turns others session x shown
  have htemplate : Template.loadOrEmpty (files x) settings.template settings.names = .empty := by decide
  have hopen : openOn MemoryStore.flaky files settings x = (.ok session, x) := by
    have hload : MemoryStore.flaky.load x = (.ok .empty, x) := rfl
    simp only [openOn, hload, htemplate, session]
  have hopen' : openOn MemoryStore.store files settings x = (.ok session, x) := by
    have hload : MemoryStore.store.load x = (.ok .empty, x) := rfl
    simp only [openOn, hload, htemplate, session]
  have hturns : ∀ turn ∈ turns, turn.Keeps MemoryStore.state := by
    simp [turns, turn, Turn.Keeps]
  have hothers : ∀ turn ∈ others, turn.Keeps MemoryStore.state := by
    simp [others, turn, Turn.Keeps]
  have hseen : seen MemoryStore.flaky (session, x) turns = seen MemoryStore.store (session, x) others := by
    simp only [seen, seenIn, turns, others, turn]
  obtain ⟨hshown, -, -⟩ := outcomes_store_independent MemoryStore.flaky_keeps
    MemoryStore.holds.keeps settings hopen hopen' rfl rfl hturns hothers hseen
  exact ⟨hopen, by decide, by decide, hshown, by decide, by decide⟩

end Milestone
