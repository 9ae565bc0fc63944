import Milestone.Command.Run
import Milestone.Proofs.Session.Failing

/-!
# Switching the template

A session that switches its template takes over what its state in memory knows, while one that is opened with
that template takes it from the store, which others may have edited since. Before a tick reads either, it loads
the state. What it still reads of the checklist besides the entries is the world that was seen last, and that no
edit changes. So both ticks are the same.
-/

namespace Milestone

/-- What others make of a saved state: they edit the manual progress, or reset it, alone or with the
baseline. -/
inductive SavedState.Edited (s : SavedState) : SavedState → Prop where
  | refl : Edited s s
  | edit {t : SavedState} (h : Edited s t) (e : SavedState.Edit) : Edited s (t.edit e)
  | resetProgress {t : SavedState} (h : Edited s t) : Edited s t.resetProgress
  | reset {t : SavedState} (h : Edited s t) : Edited s (Command.editReset t).1

/-- None of this concerns the world. -/
theorem SavedState.Edited.world_eq {s t : SavedState} (h : s.Edited t) : t.world = s.world := by
  induction h with
  | refl => rfl
  | edit _ e ih => rw [edit_world, ih]
  | resetProgress _ ih => exact ih
  | reset _ ih => exact ih

/-- A tick counts from the baseline of the state, whatever the checklist says. -/
theorem tick_with_baseline (version : Version) (now : Instant) (s : Sources) (c : Checklist)
    (b : Baseline) (state : SavedState) :
    tick version now s { c with baseline := b } state = tick version now s c state := by
  simp only [tick, Tracked.detect_start]
  rfl

/-- So it makes no difference from which state a checklist took over its world. -/
theorem tick_seed_congr {a b : SavedState} (hworld : a.world = b.world) (version : Version) (now : Instant)
    (s : Sources) (era : Era) (c : Checklist) (state : SavedState) :
    tick version now s (Session.seed era a c) state = tick version now s (Session.seed era b c) state := by
  have hseed : Session.seed era a c = { Session.seed era b c with baseline := a.baseline } := by
    simp only [Session.seed, hworld]
    rfl
  rw [hseed, tick_with_baseline]

namespace Session

variable {σ : Type}

/-- The session after a switch was tried. -/
def trySwitch (session : Session) (files : FileTree) (path : String) : Session :=
  match session.switchTemplate files path with
  | .ok next => next
  | .error _ => session

/-- What each turn leaves and reports. -/
def ticks (store : Store σ) : Session × σ → List (Turn σ) → List ((Session × Report) × σ)
  | _, [] => []
  | p, turn :: rest => takeTurn store p turn :: ticks store (afterTurn store p turn) rest

/-- The histories of a session: it was opened, and after that it ticked, tried to switch its template, and
others changed its surroundings, but of what the store holds no more than by edits. -/
inductive History (store : Store σ) (held : σ → SavedState) (settings : Settings) : Session × σ → Prop where
  | opened {files : σ → FileTree} {x y : σ} {session : Session}
      (hopen : openOn store files settings x = (.ok session, y)) : History store held settings (session, y)
  | tick {session : Session} {x : σ} (h : History store held settings (session, x))
      (sources : σ → Sources) (now : Instant) :
      History store held settings
        ((session.tick store sources now x).1.1, (session.tick store sources now x).2)
  | switch {session : Session} {x : σ} (h : History store held settings (session, x)) (files : FileTree)
      (path : String) : History store held settings (session.trySwitch files path, x)
  | between {session : Session} {x y : σ} (h : History store held settings (session, x))
      (hedited : (held x).Edited (held y)) : History store held settings (session, y)

/-- A session of some settings, which knows the world of what the store holds unless it is marked. -/
structure IsCurrent (held : σ → SavedState) (settings : Settings) (p : Session × σ) : Prop where
  version_eq : p.1.version = settings.version
  saves_eq : p.1.saves = settings.saves
  names_eq : p.1.names = settings.names
  world_eq : p.1.unsaved = false → p.1.state.world = (held p.2).world

/-- A switch that is made replaces the checklist by the template of a file, seeded with the state in memory. -/
theorem switchTemplate_eq_ok_iff {session next : Session} {files : FileTree} {path : String} :
    session.switchTemplate files path = .ok next ↔
      ∃ template, Template.load files path session.names = .ok template ∧
        next = { session with
          checklist := seed session.version.era session.state template
          template := path } := by
  unfold switchTemplate
  cases Template.load files path session.names with
  | error cause => simp
  | ok template => simp [eq_comm]

/-- A switch fails just if the template cannot be read, and the session stays as it is. -/
theorem switchTemplate_eq_error_iff {session : Session} {files : FileTree} {path : String}
    {e : SessionError} :
    session.switchTemplate files path = .error e ↔
      ∃ cause, Template.load files path session.names = .error cause ∧ e = .template cause := by
  unfold switchTemplate
  cases Template.load files path session.names with
  | error cause => simp [eq_comm]
  | ok template => simp

theorem trySwitch_of_error {session : Session} {files : FileTree} {path : String} {e : SessionError}
    (h : session.switchTemplate files path = .error e) : session.trySwitch files path = session := by
  rw [trySwitch, h]

section Fields

variable (store : Store σ) (session : Session) (x : σ)

/-- What a session was opened with stays through the first part of a tick, -/
theorem refresh_settings :
    (session.refresh store x).1.version = session.version ∧
      (session.refresh store x).1.saves = session.saves ∧
      (session.refresh store x).1.names = session.names := by
  unfold refresh
  split
  split
  · exact ⟨rfl, rfl, rfl⟩
  · split <;> exact ⟨rfl, rfl, rfl⟩

/-- through the last part, -/
theorem settle_settings (t : Tick) :
    (session.settle store t x).1.1.version = session.version ∧
      (session.settle store t x).1.1.saves = session.saves ∧
      (session.settle store t x).1.1.names = session.names := by
  cases h : t.dirty with
  | false =>
    rw [settle_of_clean store session x h]
    exact ⟨rfl, rfl, rfl⟩
  | true =>
    rw [settle_of_dirty store session x h]
    split <;> exact ⟨rfl, rfl, rfl⟩

/-- and so through all of it. -/
theorem tick_settings (sources : σ → Sources) (now : Instant) :
    (session.tick store sources now x).1.1.version = session.version ∧
      (session.tick store sources now x).1.1.saves = session.saves ∧
      (session.tick store sources now x).1.1.names = session.names := by
  obtain ⟨hversion, hsaves, hnames⟩ := refresh_settings store session x
  rw [tick_eq, ← hversion, ← hsaves, ← hnames]
  exact settle_settings ..

end Fields

section Held

variable {store : Store σ} {held : σ → SavedState} (hstore : store.Holds held) {settings : Settings}

include hstore

/-- Throughout its history a session is current. -/
theorem History.isCurrent {p : Session × σ} (h : History store held settings p) :
    IsCurrent held settings p := by
  induction h with
  | opened hopen =>
    obtain ⟨rfl, hy⟩ := openOn_of_keeps hstore.keeps hopen
    exact ⟨rfl, rfl, rfl, fun _ => by rw [hy]; rfl⟩
  | @tick session x h sources now ih =>
    obtain ⟨hversion, hsaves, hnames⟩ := tick_settings store session x sources now
    refine ⟨hversion.trans ih.version_eq, hsaves.trans ih.saves_eq, hnames.trans ih.names_eq, fun hsaved => ?_⟩
    rw [held_tick_of_saved hstore session x sources now hsaved]
  | @switch session x h files path ih =>
    cases hswitch : session.switchTemplate files path with
    | error e => rwa [trySwitch_of_error hswitch]
    | ok next =>
      obtain ⟨template, -, rfl⟩ := switchTemplate_eq_ok_iff.mp hswitch
      rw [trySwitch, hswitch]
      exact ⟨ih.version_eq, ih.saves_eq, ih.names_eq, ih.world_eq⟩
  | between h hedited ih =>
    refine ⟨ih.version_eq, ih.saves_eq, ih.names_eq, fun hsaved => ?_⟩
    rw [ih.world_eq hsaved, hedited.world_eq]

/-- The first tick of a session does not depend on the state that it was started with, apart from the world. -/
theorem tick_start_congr {a b : SavedState} (hworld : a.world = b.world) (template : Checklist)
    (sources : σ → Sources) (now : Instant) (z : σ) :
    (start settings a template).tick store sources now z =
      (start settings b template).tick store sources now z := by
  have hrefresh (c : SavedState) : (start settings c template).refresh store z =
      ({ start settings c template with state := held z }, (store.load z).2) :=
    refresh_of_saved _ _ hstore rfl
  have hnext : (start settings a template).nextTick store z sources now =
      (start settings b template).nextTick store z sources now := by
    rw [nextTick, nextTick, hrefresh, hrefresh]
    exact tick_seed_congr hworld ..
  rw [tick_eq, tick_eq, hnext, hrefresh, hrefresh]
  rfl

/-- So ticks that follow on it are the same from the first one on. -/
theorem ticks_start_congr {a b : SavedState} (hworld : a.world = b.world) (template : Checklist) (z : σ)
    (turns : List (Turn σ)) :
    ticks store (start settings a template, z) turns =
      ticks store (start settings b template, z) turns := by
  cases turns with
  | nil => rfl
  | cons turn rest =>
    have htake : takeTurn store (start settings a template, z) turn =
        takeTurn store (start settings b template, z) turn := tick_start_congr hstore hworld ..
    rw [ticks, ticks, afterTurn, afterTurn, htake]

/-- **Switching the template is opening again with it.** Let a session have any history of ticks, of switches of
the template, and of edits and resets by others, on a store that can always be loaded but may reject any save.

* If it has no unsaved state and switches to a template, then it is as if just started with that template and
  the state in memory. A session can be opened on the store with that template, where the texts of its files
  are the same after the load. In any surroundings the same ticks follow on both, whatever happens in between:
  each leaves the same session in the same surroundings, and reports the same.
* If it fails to switch, because the template cannot be read, then the session stays as it is: all ticks leave
  and report the same as if no switch had been tried, and the summaries are the same.
-/
theorem switchTemplate_eq_reopen {session : Session} {x : σ} (h : History store held settings (session, x))
    (files : σ → FileTree) (path : String) :
    let tried := session.trySwitch (files x) path
    (∀ next y, session.unsaved = false → session.switchTemplate (files x) path = .ok next →
      y = (store.load x).2 → (files y).readText path = (files x).readText path →
      (∀ file, settings.names = some file → (files y).readText file = (files x).readText file) →
      tried = next ∧ ∃ template reopened, Template.load (files x) path settings.names = .ok template ∧
        next = start { settings with template := path } session.state template ∧
        openOn store files { settings with template := path } x = (.ok reopened, y) ∧
        ∀ z turns, ticks store (next, z) turns = ticks store (reopened, z) turns) ∧
    ∀ e, session.switchTemplate (files x) path = .error e →
      (∃ cause, Template.load (files x) path settings.names = .error cause ∧ e = .template cause) ∧
        tried.summary = session.summary ∧
        ∀ z turns, ticks store (tried, z) turns = ticks store (session, z) turns := by
  intro tried
  have hcurrent := h.isCurrent hstore
  have hnames : session.names = settings.names := hcurrent.names_eq
  refine ⟨?_, fun e hfails => ?_⟩
  · rintro next y hsaved hswitch rfl hpath hfile
    have htried : tried = next := by simp only [tried, trySwitch, hswitch]
    obtain ⟨template, htemplate, hnext⟩ := switchTemplate_eq_ok_iff.mp hswitch
    rw [hnames] at htemplate
    have hstart : next = start { settings with template := path } session.state template := by
      rw [hnext, start, ← hcurrent.version_eq, ← hcurrent.saves_eq, ← hnames, ← hsaved]
    have hreopen : openOn store files { settings with template := path } x =
        (.ok (start { settings with template := path } (held x) template), (store.load x).2) := by
      have hload : store.load x = (.ok (held x), (store.load x).2) := by rw [← hstore.load x]
      have hsame : Template.loadOrEmpty (files (store.load x).2) path settings.names = template := by
        rw [Template.loadOrEmpty_congr hpath hfile, Template.loadOrEmpty, htemplate]
      rw [openOn, hload]
      simp only [hsame]
    refine ⟨htried, template, _, htemplate, hstart, hreopen, fun z turns => ?_⟩
    rw [hstart]
    exact ticks_start_congr hstore (hcurrent.world_eq hsaved) template z turns
  · have htried : tried = session := trySwitch_of_error hfails
    obtain ⟨cause, hcause, he⟩ := switchTemplate_eq_error_iff.mp hfails
    rw [hnames] at hcause
    rw [htried]
    exact ⟨⟨cause, hcause, he⟩, rfl, fun _ _ => rfl⟩

end Held

/-- Others reset the state between the last tick and the switch. -/
theorem switchTemplate_eq_reopen_after_reset :
    let settings : Settings := ⟨⟨"1.6.4"⟩, "a.json", none, "saves", "state.json", 100, 5⟩
    let text := "\x7b\"custom\": [\x7b\"root_name\": \"blocks\", \"target\": 3\x7d]\x7d"
    let files : MemoryStore → FileTree := fun _ =>
      (FileTree.ofWorking "w").put ["w", "b.json"] (.file (some text) 0)
    let now : Instant := ⟨⟨2013, 7, 1, by decide⟩, 0, 0, by decide⟩
    let turn (played : Int) : Turn MemoryStore :=
      ⟨id, now, fun _ => ⟨some "A", none, some (.object [("1100", .number (.whole played))]), none⟩⟩
    let p := afterTurn MemoryStore.store (start settings .empty .empty, ⟨.empty, 0, 0⟩) (turn 5)
    let x := { p.2 with state := (Command.editReset p.2.state).1 }
    let tried := p.1.trySwitch (files x) "b.json"
    ∃ reopened,
      openOn MemoryStore.store files { settings with template := "b.json" } x = (.ok reopened, x) ∧
      tried.state.baseline.world = some "A" ∧ reopened.state.baseline.world = none ∧
      ticks MemoryStore.store (tried, x) [turn 8, turn 9] =
        ticks MemoryStore.store (reopened, x) [turn 8, turn 9] ∧
      (p.1.trySwitch (files x) "c.json").summary = p.1.summary := by
  intro settings text files now turn p x tried
  let template : Checklist :=
    { Checklist.empty with custom := [{ Item.new "blocks" "blocks" with target := 3 }] }
  have hload (m : MemoryStore) : MemoryStore.store.load m = (.ok m.state, m) := rfl
  have hopen : openOn MemoryStore.store files settings ⟨.empty, 0, 0⟩ =
      (.ok (start settings .empty .empty), ⟨.empty, 0, 0⟩) := by
    have hnone : Template.loadOrEmpty (files ⟨.empty, 0, 0⟩) settings.template settings.names = .empty := by
      decide +kernel
    simp only [openOn, hload, hnone]
  have hhistory : History MemoryStore.store MemoryStore.state settings (p.1, x) :=
    .between (.tick (.opened hopen) _ _) (.reset .refl)
  have htemplate : Template.load (files x) "b.json" none = .ok template := by
    have hsome : (Template.load (files x) "b.json" none).toOption = some template := by decide +kernel
    cases h : Template.load (files x) "b.json" none with
    | error cause =>
      rw [h] at hsome
      cases hsome
    | ok c =>
      rw [h] at hsome
      exact congrArg Except.ok (Option.some.inj hsome)
  have hnames : p.1.names = none := by decide
  have hswitch : p.1.switchTemplate (files x) "b.json" = .ok { p.1 with
      checklist := seed p.1.version.era p.1.state template
      template := "b.json" } :=
    switchTemplate_eq_ok_iff.mpr ⟨template, hnames ▸ htemplate, rfl⟩
  have hfails : p.1.switchTemplate (files x) "c.json" =
      .error (.template (.unreadable "c.json" .notFound)) :=
    switchTemplate_eq_error_iff.mpr ⟨.unreadable "c.json" .notFound, rfl, rfl⟩
  obtain ⟨hreopen, -⟩ := switchTemplate_eq_reopen MemoryStore.holds hhistory files "b.json"
  obtain ⟨-, hkept⟩ := switchTemplate_eq_reopen MemoryStore.holds hhistory files "c.json"
  obtain ⟨htried, _, reopened, -, -, hopened, hticks⟩ := hreopen _ x (by decide) hswitch rfl rfl nofun
  obtain ⟨-, hsummary, -⟩ := hkept _ hfails
  have hnext : tried = _ := htried
  rw [hnext]
  refine ⟨reopened, hopened, by decide, ?_, hticks _ _, hsummary⟩
  rw [openOn, hload] at hopened
  cases hopened
  rfl

end Session

end Milestone
