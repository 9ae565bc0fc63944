import Milestone.Proofs.Run.Manual
import Milestone.Proofs.Session.Failing
import Milestone.Proofs.Tick.Forget

/-!
# Sessions that are opened again

A tick reads of a session its state, the world that was seen last, and the entries of its checklist. A session
that is opened again has all of these: the state from the store, the world from the state, and the entries from
the template. It lacks the progress that was recorded in the entries. So it goes on as the session before, and
a tick that finds all documents makes up for the progress.
-/

namespace Milestone

/-- What a tick leaves for later sessions, and what it reports on that. -/
def TickOutcome.lasting (o : TickOutcome) : SavedState × Bool × Bool :=
  (o.state, o.report.worldChanged, o.report.baselineCaptured)

namespace Standing

/-- Two trackings that differ at most in the progress of their entries. -/
structure Alike (st other : Standing) : Prop where
  state : st.state = other.state
  world : st.checklist.world = other.checklist.world
  bare : st.checklist.bare = other.checklist.bare

/-- A tracking knows the world of its state, and its entries are those of a template. -/
structure IsOf (template : Checklist) (st : Standing) : Prop where
  world : st.checklist.world = st.state.world
  bare : st.checklist.bare = template.bare

variable {st other : Standing} (version : Version) (now : Instant) (s : Sources)

/-- A tick stays with the checklist of the template. -/
theorem IsOf.afterTick {template : Checklist} (h : st.IsOf template) :
    (st.afterTick version now s).IsOf template where
  world := by
    simp only [Standing.afterTick, tick_world, tick_state_world version now s _ _ h.world]
  bare := (Checklist.bare_tick ..).trans h.bare

/-- A tracking that starts from a template has its checklist. -/
theorem isOf_seed (era : Era) (state : SavedState) (template : Checklist) :
    IsOf template ⟨Session.seed era state template, state⟩ :=
  ⟨rfl, rfl⟩

/-- The state and the template tell all but the progress. -/
theorem IsOf.alike {template : Checklist} (h : st.IsOf template) (hother : other.IsOf template)
    (hstate : st.state = other.state) : st.Alike other where
  state := hstate
  world := by rw [h.world, hother.world, hstate]
  bare := h.bare.trans hother.bare.symm

section Alike

variable (h : st.Alike other)

include h

/-- Ticks of alike trackings leave the same saved state. -/
theorem Alike.tick_state :
    (tick version now s st.checklist st.state).state =
      (tick version now s other.checklist other.state).state := by
  rw [Milestone.tick_state, Milestone.tick_state, h.state, s.clearsProgress_congr h.world,
    s.entersWorld_congr h.world, Baseline.renewed_of_bare_eq h.bare]

/-- Ticks keep trackings alike. -/
theorem Alike.afterTick : (st.afterTick version now s).Alike (other.afterTick version now s) where
  state := h.tick_state version now s
  world := by simp only [Standing.afterTick, tick_world, h.world]
  bare := by simp only [Standing.afterTick, Checklist.bare_tick, h.bare]

/-- Ticks of alike trackings have the same lasting outcome. -/
theorem Alike.lasting :
    (tick version now s st.checklist st.state).outcome.lasting =
      (tick version now s other.checklist other.state).outcome.lasting := by
  simp only [TickOutcome.lasting, Tick.outcome, tick_worldChanged, tick_baselineCaptured,
    s.changesWorld_congr h.world]
  rw [h.tick_state version now s, h.state]

/-- The same ticks of both leave the same states and report the same on them. -/
theorem Alike.map_lasting (seen : List (Instant × Sources)) :
    (st.outcomes version seen).map (·.lasting) = (other.outcomes version seen).map (·.lasting) := by
  induction seen generalizing st other with
  | nil => rfl
  | cons first rest ih =>
    rw [outcomes, outcomes, List.map_cons, List.map_cons, h.lasting version, ih (h.afterTick version _ _)]

/-- A tick of both that finds all documents leaves the same checklist, apart from the counts of the stages
after the one that a goal stands at, which is its first stage that is not complete. -/
theorem Alike.exists_outcomes (hera : version.era.isKnown = true) {seen : List (Instant × Sources)}
    {i : Nat} (hs : seen[i]? = some (now, s)) (hfull : s.IsFull version.era) :
    ∃ o u, (st.outcomes version seen)[i]? = some o ∧ (other.outcomes version seen)[i]? = some u ∧
      o.checklist.withoutLater = u.checklist.withoutLater ∧
      ∀ goal ∈ o.checklist.goals, goal.current =
        StageContext.reach ⟨version.era, o.checklist.advancements, s, o.checklist.baseline⟩
          goal.stages := by
  induction seen generalizing i st other with
  | nil => cases hs
  | cons first rest ih =>
    cases i with
    | zero =>
      obtain rfl : first = (now, s) := Option.some.inj hs
      exact ⟨_, _, rfl, rfl, tick_withoutLater_of_bare_eq h.bare hera hfull h.world
        (h.tick_state version now s), tick_goals_reach hera now hfull _ _⟩
    | succ i => exact ih (h.afterTick version _ _) hs

end Alike

end Standing

namespace Session

variable {σ : Type}

section Run

variable (store : Store σ) (held : σ → SavedState)

/-- All saves that the ticks of a run try are accepted. -/
def AllAccepted : Session × σ → List (Turn σ) → Prop
  | _, [] => True
  | p, turn :: rest =>
    false ∉ p.1.tries store (turn.before p.2) turn.sources turn.now ∧
      AllAccepted (afterTurn store p turn) rest

/-- What the store holds after each turn. -/
def persisted : Session × σ → List (Turn σ) → List SavedState
  | _, [] => []
  | p, turn :: rest => held (afterTurn store p turn).2 :: persisted (afterTurn store p turn) rest

end Run

section Kept

variable {store : Store σ} {held : σ → SavedState} (hstore : store.Keeps held)

/-- A run whose saves are all accepted does not set the mark. -/
theorem unsaved_afterTurns {p : Session × σ} (hclear : p.1.unsaved = false) {turns : List (Turn σ)}
    (haccepted : AllAccepted store p turns) : (afterTurns store p turns).1.unsaved = false := by
  induction turns generalizing p with
  | nil => exact hclear
  | cons turn rest ih =>
    obtain ⟨hturn, hrest⟩ := haccepted
    refine ih ?_ hrest
    rw [← Bool.not_eq_true]
    exact fun hunsaved => hturn ((tick_unsaved ..).mp hunsaved)

include hstore

/-- Then the store holds after each turn what the tick left. -/
theorem persisted_of_isHeld {p : Session × σ} (h : IsHeld held p) {turns : List (Turn σ)}
    (hturns : ∀ turn ∈ turns, turn.Keeps held) (haccepted : AllAccepted store p turns) :
    persisted store held p turns = (outcomes store p turns).map (·.state) := by
  induction turns generalizing p with
  | nil => rfl
  | cons turn rest ih =>
    obtain ⟨hturn, hrest⟩ := List.forall_mem_cons.mp hturns
    obtain ⟨-, -, -, hafter⟩ := afterTurn_of_isHeld hstore h hturn
    have hsaved : (afterTurn store p turn).1.unsaved = false := by
      rw [← Bool.not_eq_true]
      exact fun hunsaved => haccepted.1 ((tick_unsaved ..).mp hunsaved)
    rw [persisted, outcomes, List.map_cons, ih hafter hrest haccepted.2, hafter hsaved]
    rfl

/-- Along a run the version stays, and the session stays one of its template. -/
theorem isOf_afterTurns {p : Session × σ} (h : IsHeld held p) {template : Checklist}
    (hof : p.1.standing.IsOf template) {turns : List (Turn σ)} (hturns : ∀ turn ∈ turns, turn.Keeps held) :
    (afterTurns store p turns).1.version = p.1.version ∧
      (afterTurns store p turns).1.standing.IsOf template := by
  induction turns generalizing p with
  | nil => exact ⟨rfl, hof⟩
  | cons turn rest ih =>
    obtain ⟨hturn, hrest⟩ := List.forall_mem_cons.mp hturns
    obtain ⟨-, hversion, hstanding, hafter⟩ := afterTurn_of_isHeld hstore h hturn
    have hnext : (afterTurn store p turn).1.standing.IsOf template := by
      rw [hstanding]
      exact hof.afterTick _ _ _
    obtain ⟨hlater, hkept⟩ := ih hafter hnext hrest
    exact ⟨hlater.trans hversion, hkept⟩

/-- **A restart is invisible.** Let a session be opened on a store and let ticks follow whose saves are all
accepted, while nobody else changes what the store holds. Let a session be opened with the same settings after
them, where the store can be loaded and still holds the same, and where the files of the template and of the
names have the same texts. Let the same ticks follow on both. Then:

* if all saves are accepted, the store holds the same after each tick;
* each tick leaves the same state, and reports the same of a change of world and of a captured baseline;
* in a known era, a tick that finds all documents leaves the same checklist, apart from the counts shown for
  the stages of a goal after the one that it stands at, which is its first stage that is not complete.
-/
theorem restart_invisible (settings : Settings) {files : σ → FileTree} {x y : σ} {session : Session}
    (hopen : openOn store files settings x = (.ok session, y)) {turns : List (Turn σ)}
    (hturns : ∀ turn ∈ turns, turn.Keeps held) (haccepted : AllAccepted store (session, y) turns)
    {z w : σ} {state : SavedState} (hload : store.load z = (.ok state, w))
    (hheld : held z = held (afterTurns store (session, y) turns).2)
    (htemplate : (files w).readText settings.template = (files y).readText settings.template)
    (hnames : ∀ file, settings.names = some file → (files w).readText file = (files y).readText file) :
    let p := afterTurns store (session, y) turns
    ∃ reopened, openOn store files settings z = (.ok reopened, w) ∧
      ∀ later others : List (Turn σ), (∀ turn ∈ later, turn.Keeps held) →
        (∀ turn ∈ others, turn.Keeps held) → seen store p later = seen store (reopened, w) others →
        (AllAccepted store p later → AllAccepted store (reopened, w) others →
          persisted store held p later = persisted store held (reopened, w) others) ∧
        (outcomes store p later).map (·.lasting) =
          (outcomes store (reopened, w) others).map (·.lasting) ∧
        (settings.version.era.isKnown = true → ∀ (i : Nat) (now : Instant) (s : Sources),
          (seen store p later)[i]? = some (now, s) → s.IsFull settings.version.era →
          ∃ o u, (outcomes store p later)[i]? = some o ∧
            (outcomes store (reopened, w) others)[i]? = some u ∧
            o.checklist.withoutLater = u.checklist.withoutLater ∧
            ∀ goal ∈ o.checklist.goals, goal.current =
              StageContext.reach ⟨settings.version.era, o.checklist.advancements, s,
                o.checklist.baseline⟩ goal.stages) := by
  intro p
  obtain ⟨rfl, hy⟩ := openOn_of_keeps hstore hopen
  have hstart : IsHeld held (start settings (held x)
      (Template.loadOrEmpty (files y) settings.template settings.names), y) := fun _ => hy
  have hp : IsHeld held p := isHeld_afterTurns hstore hstart hturns
  have hsaved : held p.2 = p.1.state := hp (unsaved_afterTurns rfl haccepted)
  obtain ⟨hversion, hof⟩ := isOf_afterTurns hstore hstart (Standing.isOf_seed _ _ _) hturns
  let reopened : Session := start settings state
    (Template.loadOrEmpty (files w) settings.template settings.names)
  have hreopen : openOn store files settings z = (.ok reopened, w) := by
    simp only [openOn, hload, reopened]
  have hstate : state = p.1.state :=
    (hstore.loaded z state (by rw [hload])).trans (hheld.trans hsaved)
  have hw : held w = state := by
    have hkept := hstore.held_load z
    rw [hload] at hkept
    exact hkept.trans (hheld.trans (hsaved.trans hstate.symm))
  have hq : IsHeld held (reopened, w) := fun _ => hw
  have halike : p.1.standing.Alike reopened.standing := by
    refine hof.alike ?_ hstate.symm
    simp only [reopened, start, standing, Template.loadOrEmpty_congr htemplate hnames]
    exact Standing.isOf_seed _ _ _
  refine ⟨reopened, hreopen, fun later others hlater hothers hseen => ?_⟩
  have hfirst : outcomes store p later =
      p.1.standing.outcomes settings.version (seen store p later) := by
    rw [outcomes_of_isHeld hstore hp hlater, hversion]
    rfl
  have hsecond : outcomes store (reopened, w) others =
      reopened.standing.outcomes settings.version (seen store p later) := by
    rw [outcomes_of_isHeld hstore hq hothers, hseen]
    rfl
  have hlasting : (outcomes store p later).map (·.lasting) =
      (outcomes store (reopened, w) others).map (·.lasting) := by
    rw [hfirst, hsecond, halike.map_lasting]
  refine ⟨fun hall hall' => ?_, hlasting, fun hera i now s hs hfull => ?_⟩
  · have hstates := congrArg (List.map (·.1)) hlasting
    rw [persisted_of_isHeld hstore hp hlater hall, persisted_of_isHeld hstore hq hothers hall']
    simpa only [List.map_map, Function.comp_def, TickOutcome.lasting] using hstates
  · rw [hfirst, hsecond]
    exact halike.exists_outcomes settings.version now s hera hs hfull

end Kept

/-- A baseline is captured before the restart, and another world entered after it. -/
theorem restart_invisible_after_capture :
    let settings : Settings := ⟨⟨"1.6.4"⟩, "template.json", none, "saves", "state.json", 100, 5⟩
    let files : MemoryStore → FileTree := fun _ => ⟨[], [], 0⟩
    let now : Instant := ⟨⟨2013, 7, 1, by decide⟩, 0, 0, by decide⟩
    let found (world : String) (played : Int) : Sources :=
      ⟨some world, none, some (.object [("1100", .number (.whole played))]), some (.object [])⟩
    let turn (world : String) (played : Int) : Turn MemoryStore := ⟨id, now, fun _ => found world played⟩
    let later := [turn "A" 12, turn "B" 20]
    let p := afterTurns MemoryStore.store (start settings .empty .empty, ⟨.empty, 0, 0⟩)
      [turn "A" 5, turn "A" 8]
    ∃ reopened, openOn MemoryStore.store files settings p.2 = (.ok reopened, p.2) ∧
      p.1.checklist.playTime.value = 3 ∧ reopened.checklist.playTime.value = 0 ∧
      (outcomes MemoryStore.store (reopened, p.2) later).map (·.lasting.2) =
        [(false, false), (true, true)] ∧
      ∃ o u, (outcomes MemoryStore.store p later)[0]? = some o ∧
        (outcomes MemoryStore.store (reopened, p.2) later)[0]? = some u ∧
        o.checklist.withoutLater = u.checklist.withoutLater := by
  intro settings files now found turn later p
  have htemplate (m : MemoryStore) :
      Template.loadOrEmpty (files m) settings.template settings.names = .empty := by decide
  have hopenOn (m : MemoryStore) : openOn MemoryStore.store files settings m =
      (.ok (start settings m.state .empty), m) := by
    have hload : MemoryStore.store.load m = (.ok m.state, m) := rfl
    simp only [openOn, hload, htemplate]
  have hkeeps (world : String) (played : Int) : (turn world played).Keeps MemoryStore.state :=
    fun _ => rfl
  have hturns : ∀ t ∈ [turn "A" 5, turn "A" 8], t.Keeps MemoryStore.state :=
    List.forall_mem_cons.mpr ⟨hkeeps _ _, List.forall_mem_singleton.mpr (hkeeps _ _)⟩
  have hlater : ∀ t ∈ later, t.Keeps MemoryStore.state :=
    List.forall_mem_cons.mpr ⟨hkeeps _ _, List.forall_mem_singleton.mpr (hkeeps _ _)⟩
  have hload : MemoryStore.store.load p.2 = (.ok p.2.state, p.2) := rfl
  have haccepted : AllAccepted MemoryStore.store (start settings .empty .empty, ⟨.empty, 0, 0⟩)
      [turn "A" 5, turn "A" 8] := ⟨by decide, by decide, trivial⟩
  have hopen : openOn MemoryStore.store files settings ⟨.empty, 0, 0⟩ =
      (.ok (start settings .empty .empty), ⟨.empty, 0, 0⟩) := hopenOn _
  obtain ⟨reopened, hreopen, hsame⟩ := restart_invisible MemoryStore.holds.keeps settings hopen hturns
    haccepted hload rfl rfl fun file hname => absurd hname.symm (Option.some_ne_none file)
  have hseen : seen MemoryStore.store p later = seen MemoryStore.store (reopened, p.2) later := by
    simp only [seen, seenIn, later, turn]
  obtain ⟨-, hlasting, hfull⟩ := hsame later later hlater hlater hseen
  obtain ⟨o, u, ho, hu, hchecklist, -⟩ :=
    hfull (by decide) 0 now (found "A" 12) rfl ⟨by decide, rfl, rfl⟩
  have hreopened : reopened = start settings p.2.state .empty := by
    rw [hopenOn] at hreopen
    cases hreopen
    rfl
  refine ⟨reopened, hreopen, by decide, ?_, ?_, o, u, ho, hu, hchecklist⟩
  · rw [hreopened]
    rfl
  · have hreports := congrArg (List.map (·.2)) hlasting
    rw [List.map_map, List.map_map] at hreports
    exact hreports.symm.trans (by decide)

end Session

end Milestone
