import Milestone.Command.Arguments
import Milestone.Command.Failure
import Milestone.Command.Usage
import Milestone.Debounce
import Milestone.Session.Summary
import Milestone.Watch

/-!
# Running commands

What each command does to the files and what it prints. An edit loads the saved state, changes it and
saves it again; if anything fails, nothing is printed.
-/

namespace Milestone.Command

/-- The end of a command: what it prints, and why it failed, if it did. -/
structure Outcome where
  output : String
  failure : Option Failure
  deriving DecidableEq

namespace Outcome

def success (output : String) : Outcome := ⟨output, none⟩

def fail (failure : Failure) : Outcome := ⟨"", some failure⟩

/-- The exit code. -/
def exitCode (o : Outcome) : Nat :=
  if o.failure.isSome then 1 else 0

end Outcome

/-- Changes the saved state and prints the message of the change. -/
def editState (env : Environment) (edit : SavedState → SavedState × String)
    (files : FileTree) : Outcome × FileTree :=
  match Settings.stateFileOf env with
  | .error cause => (.fail (.resolveState cause), files)
  | .ok path =>
    match StateFile.load path files with
    | .error cause => (.fail (.loadState path cause), files)
    | .ok state =>
      let (state, message) := edit state
      match StateFile.save path state files with
      | (.error cause, files) => (.fail (.saveState path cause), files)
      | (.ok _, files) => (.success (message ++ "\n"), files)

/-- Sets or clears an override. -/
def editOverride (key : String) (clear : Bool) (state : SavedState) : SavedState × String :=
  if !clear then (state.setOverride key true, "Marked " ++ key ++ " complete")
  else if state.hasOverride key then (state.clearOverride key, "Cleared override for " ++ key)
  else (state, "No override set for " ++ key)

/-- Records the value of a custom goal. -/
def editCustom (key : String) (value : CustomValue) (state : SavedState) : SavedState × String :=
  (state.setCustom key value, "Set " ++ key ++ " = " ++ value.text)

/-- Clears the manual progress and the baseline. -/
def editReset (state : SavedState) : SavedState × String :=
  ({ state.resetProgress with baseline := .empty },
    "Cleared manual progress and legacy baseline")

/-- Opens a session with the settings of the environment. -/
def openSession (env : Environment) (files : FileTree) :
    Except Failure (Settings × Session) :=
  match Settings.read env with
  | .error cause => .error (.openSession (.settings cause))
  | .ok settings =>
    match (Session.openOn (StateFile.store settings.stateFile) id settings files).1 with
    | .error cause => .error (.openSession cause)
    | .ok session => .ok (settings, session)

/-- A session, with another template if one is given. -/
def withTemplate (files : FileTree) (template : Option String) (session : Session) :
    Except Failure Session :=
  match template with
  | none => .ok session
  | some path =>
    match session.switchTemplate files path with
    | .ok session => .ok session
    | .error cause => .error (.loadTemplate path cause)

/-- One tick and its summary. -/
def status (env : Environment) (template : Option String) (now : Instant) (files : FileTree) :
    Outcome × FileTree :=
  match openSession env files with
  | .error failure => (.fail failure, files)
  | .ok (settings, session) =>
    match withTemplate files template session with
    | .error failure => (.fail failure, files)
    | .ok session =>
      let ((session, _), files) := session.tickOn settings.stateFile now files
      (.success session.summary, files)

/-- A session that ticks by itself: after changes that have settled, and from time to time. Times are
in milliseconds. -/
structure Monitor where
  settings : Settings
  session : Session
  debouncer : Debouncer Unit Unit
  /-- When the next tick without a change is due. -/
  nextTick : Nat

namespace Monitor

/-- Starts at the time 0 with a tick due at once. -/
def start (env : Environment) (files : FileTree) : Except Failure Monitor :=
  (openSession env files).map fun (settings, session) =>
    ⟨settings, session, .new settings.debounce, 0⟩

/-- One tick, and the time of the next one without a change. -/
def tickNow (m : Monitor) (now : Instant) (files : FileTree) : Monitor × FileTree :=
  let ((session, _), files) := m.session.tickOn m.settings.stateFile now files
  ({ m with session, nextTick := m.debouncer.now + m.settings.tickSeconds * 1000 }, files)

/-- Moves on to a time at which the files have or have not changed; tells whether a tick is due. -/
def advance (m : Monitor) (time : Nat) (changed : Bool) : Bool × Monitor :=
  let (released, debouncer) := m.debouncer.moveTo time
  let debouncer := if changed then debouncer.accept () () else debouncer
  (!released.isEmpty || m.nextTick ≤ time, { m with debouncer })

end Monitor

/-- Carries out what a command line asks for. A run is only started: whoever calls moves it on. -/
def execute (env : Environment) (request : Request) (now : Instant) (files : FileTree) :
    Outcome × FileTree :=
  match request with
  | .status template => status env template now files
  | .run =>
    match Monitor.start env files with
    | .ok m => (.success "", (m.tickNow now files).2)
    | .error failure => (.fail failure, files)
  | .override key clear => editState env (editOverride key clear) files
  | .custom key value =>
    match CustomValue.ofText? value with
    | none => (.fail (.invalidValue key value), files)
    | some v => editState env (editCustom key v) files
  | .reset => editState env editReset files

end Milestone.Command
