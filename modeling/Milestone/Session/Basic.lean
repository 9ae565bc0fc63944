import Milestone.Reconcile
import Milestone.Session.Error
import Milestone.Template.Load

/-!
# Tracking sessions

A session keeps a checklist, the saved state that belongs to it, and whether that state still waits to
be saved. Before each tick the state is loaded again, so that edits from outside show; while a save is
outstanding it is tried again instead, so that nothing found in between is lost.
-/

namespace Milestone

/-- A tracking session. -/
structure Session where
  version : Version
  /-- The directory of worlds. -/
  saves : String
  template : String
  /-- The file of names to show. -/
  names : Option String
  checklist : Checklist
  state : SavedState
  /-- Whether the state holds changes that could not be saved. -/
  unsaved : Bool
  deriving DecidableEq

namespace Session

/-- A new checklist takes over what the saved state knows. -/
def seed (era : Era) (state : SavedState) (c : Checklist) : Checklist :=
  { c with baseline := state.baseline, world := state.world }.recompute era

/-- A session with a loaded state and a new checklist. -/
def start (settings : Settings) (state : SavedState) (checklist : Checklist) : Session where
  version := settings.version
  saves := settings.saves
  template := settings.template
  names := settings.names
  checklist := seed settings.version.era state checklist
  state := state
  unsaved := false

variable {σ : Type}

/-- Opens a session on a store. A template that cannot be used is replaced by the empty one. -/
def openOn (store : Store σ) (files : σ → FileTree) (settings : Settings) (s : σ) :
    Except SessionError Session × σ :=
  match store.load s with
  | (.error e, s) => (.error (.state e), s)
  | (.ok state, s) =>
    (.ok (start settings state (Template.loadOrEmpty (files s) settings.template settings.names)), s)

/-- Tries an outstanding save again; else, or when that succeeds, loads the state. -/
def refresh (store : Store σ) (session : Session) (s : σ) : Session × σ :=
  let (waiting, s) :=
    if session.unsaved then
      match store.save session.state s with
      | (.ok _, s) => (false, s)
      | (.error _, s) => (true, s)
    else (false, s)
  if waiting then ({ session with unsaved := true }, s)
  else
    match store.load s with
    | (.ok state, s) => ({ session with state := state, unsaved := false }, s)
    | (.error _, s) => ({ session with unsaved := false }, s)

/-- Saves the state after a tick that changed it. -/
def settle (store : Store σ) (session : Session) (t : Tick) (s : σ) : (Session × Report) × σ :=
  let next := { session with checklist := t.checklist, state := t.state }
  if t.dirty then
    match store.save t.state s with
    | (.ok _, s) => ((next, t.report), s)
    | (.error _, s) => (({ next with unsaved := true }, { t.report with unsaved := true }), s)
  else ((next, t.report), s)

/-- One tick with the sources that the surroundings show. -/
def tick (store : Store σ) (sources : σ → Sources) (now : Instant) (session : Session) (s : σ) :
    (Session × Report) × σ :=
  let (session, s) := session.refresh store s
  session.settle store (Milestone.tick session.version now (sources s) session.checklist
    session.state) s

/-- Replaces the checklist by that of another template; on a failure everything stays. -/
def switchTemplate (files : FileTree) (path : String) (session : Session) :
    Except SessionError Session :=
  match Template.load files path session.names with
  | .error e => .error (.template e)
  | .ok checklist => .ok { session with
      checklist := seed session.version.era session.state checklist
      template := path }

/-- The directories whose changes call for a tick. -/
def watchDirectories (files : FileTree) (session : Session) : List String :=
  let lifetime := FileTree.lifetimeDirectory session.saves
  if session.version.era = .legacy ∧ files.isDirectory lifetime then [session.saves, lifetime]
  else [session.saves]

/-- The world that the next tick reads, with its path. -/
def activeWorld (files : FileTree) (session : Session) :
    Except SessionError (Option (String × String)) :=
  match files.activeWorld session.saves with
  | .ok world => .ok world
  | .error e => .error (.snapshot e)

/-- The sources that files show to a session. -/
def sourcesIn (session : Session) (files : FileTree) : Sources :=
  files.sources session.version.era session.saves

/-- One tick on files, with the state in a state file. -/
def tickOn (stateFile : String) (now : Instant) (session : Session) (files : FileTree) :
    (Session × Report) × FileTree :=
  session.tick (StateFile.store stateFile) session.sourcesIn now files

end Session

end Milestone
