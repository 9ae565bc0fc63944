import Milestone.Files.Path
import Milestone.Version

/-!
# Settings

The settings of a run, from environment variables. The version and the template must be given, the
numbers must lie between bounds; everything else has a default. Main fact: a run and an edit of the
saved state use the same state file.
-/

namespace Milestone

/-- Why the settings cannot be used. -/
inductive SettingsError where
  | missing (name : String)
  | emptyVersion
  /-- A text that is no number. -/
  | notNumber (name value : String)
  | tooSmall (name : String) (least value : Nat)
  | outOfBounds (name : String) (least greatest value : Nat)
  | noHome
  deriving DecidableEq

namespace SettingsError

/-- The text of an error. -/
def message : SettingsError → String
  | missing name => "missing required environment variable: " ++ name
  | emptyVersion => "invalid value for WAYPOST_VERSION: version cannot be empty"
  | notNumber name value =>
    "invalid value for " ++ name ++ ": expected positive integer, got '" ++ value ++ "'"
  | tooSmall name least value =>
    "invalid value for " ++ name ++ ": must be at least " ++ toString least ++ ", got " ++
      toString value
  | outOfBounds name least greatest value =>
    "invalid value for " ++ name ++ ": must be between " ++ toString least ++ " and " ++
      toString greatest ++ ", got " ++ toString value
  | noHome => "failed to determine home directory"

end SettingsError

/-- The environment variables of a process. -/
abbrev Environment := String → Option String

/-- The settings of a run. -/
structure Settings where
  version : Version
  template : String
  /-- The file of names to show. -/
  names : Option String
  /-- The directory of worlds. -/
  saves : String
  stateFile : String
  /-- The quiet time in milliseconds after which a change counts. -/
  debounce : Nat
  /-- The seconds between two ticks without a change. -/
  tickSeconds : Nat
  deriving DecidableEq

namespace Settings

/-- The greatest number in an unsigned word of 64 bits. -/
def wordLimit : Nat := 18446744073709551615

/-- The home directory that the environment names. A system may know one of the user where the environment names none;
it is not looked up here, and then no home directory is known. -/
def home? (env : Environment) : Option String :=
  (env "HOME").filter (!·.isEmpty)

/-- The home directory, which must be known. -/
def known (home? : Option String) : Except SettingsError String :=
  match home? with
  | some home => .ok home
  | none => .error .noHome

def required (env : Environment) (name : String) : Except SettingsError String :=
  match env name with
  | some value => .ok value
  | none => .error (.missing name)

/-- The version, which must not be blank. -/
def readVersion (env : Environment) : Except SettingsError Version := do
  let value ← required env "WAYPOST_VERSION"
  if Text.isBlankText value then throw .emptyVersion
  return .ofText value

/-- A number between two bounds, or the default where the variable is not set. -/
def number (env : Environment) (name : String) (default least greatest : Nat) :
    Except SettingsError Nat :=
  match env name with
  | none => .ok default
  | some value =>
    match Text.unsigned? wordLimit (Text.trimmed value.toList) with
    | none => .error (.notNumber name value)
    | some n =>
      if least ≤ n ∧ n ≤ greatest then .ok n
      else if greatest = wordLimit then .error (.tooSmall name least n)
      else .error (.outOfBounds name least greatest n)

/-- The state file that is used where the variable names none. -/
def defaultStateFile (home : String) : String :=
  Path.join (Path.join home ".waypost") "state.json"

/-- The directory of worlds that is used where the variable names none. -/
def defaultSaves (home : String) : String :=
  Path.join (Path.join home ".minecraft") "saves"

/-- The settings of an environment, with a home directory if one is known. -/
def readAt (home? : Option String) (env : Environment) : Except SettingsError Settings := do
  let home ← known home?
  let version ← readVersion env
  let template ← required env "WAYPOST_TEMPLATE"
  let debounce ← number env "WAYPOST_DEBOUNCE_MS" 250 1 wordLimit
  let tickSeconds ← number env "WAYPOST_TICK_SECS" 5 1 3600
  return {
    version
    template
    names := (env "WAYPOST_LANG").filter (!Text.isBlankText ·)
    saves := (env "WAYPOST_SAVES_DIR").getD (defaultSaves home)
    stateFile := (env "WAYPOST_STATE_PATH").getD (defaultStateFile home)
    debounce
    tickSeconds }

/-- The settings of an environment, with the home directory that it names. -/
def read (env : Environment) : Except SettingsError Settings :=
  readAt (home? env) env

/-- The state file alone, for edits that track no version, with a home directory if one is known. -/
def stateFileAt (home? : Option String) (env : Environment) : Except SettingsError String :=
  match env "WAYPOST_STATE_PATH" with
  | some path => .ok path
  | none => (known home?).map defaultStateFile

/-- The state file alone, with the home directory that the environment names. -/
def stateFileOf (env : Environment) : Except SettingsError String :=
  stateFileAt (home? env) env

/-- A run and an edit of the saved state use the same state file. -/
theorem stateFileAt_eq_of_readAt {home? : Option String} {env : Environment} {s : Settings}
    (h : readAt home? env = .ok s) : stateFileAt home? env = .ok s.stateFile := by
  cases hhome : known home? with
  | error e => simp [readAt, hhome, bind, Except.bind] at h
  | ok dir =>
    have hstate : s.stateFile = (env "WAYPOST_STATE_PATH").getD (defaultStateFile dir) := by
      unfold readAt at h
      simp only [hhome, bind, Except.bind, pure, Except.pure] at h
      cases hversion : readVersion env with
      | error e => simp [hversion] at h
      | ok version =>
        cases htemplate : required env "WAYPOST_TEMPLATE" with
        | error e => simp [hversion, htemplate] at h
        | ok template =>
          cases hdebounce : number env "WAYPOST_DEBOUNCE_MS" 250 1 wordLimit with
          | error e => simp [hversion, htemplate, hdebounce] at h
          | ok debounce =>
            cases htick : number env "WAYPOST_TICK_SECS" 5 1 3600 with
            | error e => simp [hversion, htemplate, hdebounce, htick] at h
            | ok tickSeconds =>
              simp only [hversion, htemplate, hdebounce, htick, Except.ok.injEq] at h
              rw [← h]
    rw [hstate, stateFileAt, hhome]
    cases env "WAYPOST_STATE_PATH" with
    | none => rfl
    | some path => rfl

end Settings

end Milestone
