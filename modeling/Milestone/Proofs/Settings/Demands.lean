import Mathlib.Tactic.MkIffOfInductiveProp
import Mathlib.Tactic.SplitIfs
import Milestone.Proofs.Text.Blank
import Milestone.Proofs.Text.Numeral
import Milestone.Settings

/-!
# What the settings demand of the environment

A run demands something of four variables: the version, the template and two numbers. This file says what each of
them must be, and which error tells that it is not. Main fact: the settings are read exactly if all demands are met,
and otherwise the first one that is not met is reported, in a fixed order; and a run and an edit of the saved state
use the same state file.
-/

namespace Milestone

open Text

namespace Settings

/-- A text is a number of at most `limit` between blanks. -/
def ShowsNumber (limit : Nat) (value : String) (n : Nat) : Prop :=
  ∃ core, IsCore value.toList core ∧ IsUnsigned limit core n

/-- A variable is not set, or is a number between two bounds. -/
def IsNumberIn (env : Environment) (name : String) (least greatest : Nat) : Prop :=
  ∀ value ∈ env name, ∃ n, ShowsNumber greatest value n ∧ least ≤ n

/-- What is wrong with a variable that is no number between two bounds. What a word does not hold is no number, so
that where the upper bound is the greatest one in a word only the lower bound can be missed. -/
inductive NumberFault (env : Environment) (name : String) (least greatest : Nat) : SettingsError → Prop where
  | notNumber {value : String} (hvalue : env name = some value) (h : ∀ n, ¬ShowsNumber wordLimit value n) :
      NumberFault env name least greatest (.notNumber name value)
  | tooSmall {value : String} {n : Nat} (hvalue : env name = some value) (hn : ShowsNumber wordLimit value n)
      (hlow : n < least) (hopen : greatest = wordLimit) :
      NumberFault env name least greatest (.tooSmall name least n)
  | outOfBounds {value : String} {n : Nat} (hvalue : env name = some value) (hn : ShowsNumber wordLimit value n)
      (hout : n < least ∨ greatest < n) (hbounded : greatest ≠ wordLimit) :
      NumberFault env name least greatest (.outOfBounds name least greatest n)

/-- The variables of which a run demands something. -/
inductive Demand where
  | version
  | template
  | debounce
  | tickSeconds
  deriving DecidableEq

namespace Demand

/-- The variable of which something is demanded. -/
def variableName : Demand → String
  | version => "WAYPOST_VERSION"
  | template => "WAYPOST_TEMPLATE"
  | debounce => "WAYPOST_DEBOUNCE_MS"
  | tickSeconds => "WAYPOST_TICK_SECS"

/-- The demands in the order in which they are looked at. -/
def order : List Demand := [version, template, debounce, tickSeconds]

/-- Every demand has a place in the order. -/
theorem mem_order (d : Demand) : d ∈ order := by
  cases d <;> decide

/-- The version is given and not blank, the template is given, and either number is between its bounds where it is
given. -/
def IsMet (env : Environment) : Demand → Prop
  | version => ∃ value ∈ env "WAYPOST_VERSION", ∃ c ∈ value.toList, isBlank c = false
  | template => ∃ value, value ∈ env "WAYPOST_TEMPLATE"
  | debounce => IsNumberIn env "WAYPOST_DEBOUNCE_MS" 1 wordLimit
  | tickSeconds => IsNumberIn env "WAYPOST_TICK_SECS" 1 3600

/-- How a demand is not met, and the error that says so. -/
@[mk_iff]
inductive Fault (env : Environment) : Demand → SettingsError → Prop where
  | versionMissing (h : env "WAYPOST_VERSION" = none) : Fault env version (.missing "WAYPOST_VERSION")
  | versionBlank {value : String} (hvalue : env "WAYPOST_VERSION" = some value)
      (h : ∀ c ∈ value.toList, isBlank c = true) : Fault env version .emptyVersion
  | templateMissing (h : env "WAYPOST_TEMPLATE" = none) : Fault env template (.missing "WAYPOST_TEMPLATE")
  | debounce {e : SettingsError} (h : NumberFault env "WAYPOST_DEBOUNCE_MS" 1 wordLimit e) : Fault env debounce e
  | tickSeconds {e : SettingsError} (h : NumberFault env "WAYPOST_TICK_SECS" 1 3600 e) : Fault env tickSeconds e

/-- The text of an error holds a name. -/
def Mentions (e : SettingsError) (name : String) : Prop :=
  ∃ before after, e.message = before ++ name ++ after

/-- The first of some demands that is not met has a fault that an error reports. -/
def FirstFault (env : Environment) (ds : List Demand) (e : SettingsError) : Prop :=
  ∃ before d after, ds = before ++ d :: after ∧ (∀ earlier ∈ before, earlier.IsMet env) ∧ Fault env d e

end Demand

open Demand

variable {env : Environment}

/-! ## Numbers -/

section Numbers

variable {name value : String} {default least greatest limit m n : Nat}

/-- What is read between the blanks of a text is the number that the text shows. -/
theorem unsigned?_trimmed_eq_some_iff :
    unsigned? limit (trimmed value.toList) = some n ↔ ShowsNumber limit value n := by
  rw [unsigned?_eq_some_iff, ShowsNumber, exists_isCore_iff]

/-- A number that a text shows is within the limit. -/
theorem ShowsNumber.le (h : ShowsNumber limit value n) : n ≤ limit := by
  obtain ⟨core, -, hcore⟩ := h
  exact hcore.le

/-- A text shows no two numbers. -/
theorem ShowsNumber.unique (hm : ShowsNumber limit value m) (hn : ShowsNumber limit value n) : m = n := by
  rw [← unsigned?_trimmed_eq_some_iff] at hm hn
  exact Option.some.inj (hm.symm.trans hn)

/-- A smaller limit makes no other difference than to leave the numbers above it out. -/
theorem showsNumber_iff_of_le (h : greatest ≤ wordLimit) :
    ShowsNumber greatest value n ↔ ShowsNumber wordLimit value n ∧ n ≤ greatest := by
  simp only [ShowsNumber, isUnsigned_iff_of_le h, ← and_assoc, exists_and_right]

/-- Without a value the number is the default, which is not checked. -/
theorem number_of_none (h : env name = none) : number env name default least greatest = .ok default := by
  rw [number, h]

/-- A value that shows no number in a word is reported as it is. -/
theorem number_of_not_shows (hvalue : env name = some value) (h : ∀ n, ¬ShowsNumber wordLimit value n) :
    number env name default least greatest = .error (.notNumber name value) := by
  have hnone : unsigned? wordLimit (trimmed value.toList) = none :=
    Option.eq_none_iff_forall_ne_some.mpr fun n hn => h n (unsigned?_trimmed_eq_some_iff.mp hn)
  simp only [number, hvalue, hnone]

/-- A value that shows a number is judged by the bounds. -/
theorem number_of_shows (hvalue : env name = some value) (hn : ShowsNumber wordLimit value n) :
    number env name default least greatest =
      if least ≤ n ∧ n ≤ greatest then .ok n
      else if greatest = wordLimit then .error (.tooSmall name least n)
      else .error (.outOfBounds name least greatest n) := by
  simp only [number, hvalue, unsigned?_trimmed_eq_some_iff.mpr hn]

/-- A number is read exactly if the variable is not set or in its bounds. -/
theorem number_ok_iff (h : greatest ≤ wordLimit) :
    (∃ n, number env name default least greatest = .ok n) ↔ IsNumberIn env name least greatest := by
  cases hvalue : env name with
  | none =>
    refine iff_of_true ⟨default, number_of_none hvalue⟩ fun value hsome => ?_
    rw [hvalue] at hsome
    cases hsome
  | some value =>
    by_cases hshows : ∃ n, ShowsNumber wordLimit value n
    · obtain ⟨n, hn⟩ := hshows
      rw [number_of_shows hvalue hn, IsNumberIn, hvalue]
      simp only [Option.mem_some_iff, forall_eq', showsNumber_iff_of_le h]
      constructor
      · intro hok
        split_ifs at hok with hin
        · exact ⟨n, ⟨hn, hin.2⟩, hin.1⟩
        all_goals simp at hok
      · rintro ⟨m, ⟨hm, hgreatest⟩, hleast⟩
        rw [hm.unique hn] at hgreatest hleast
        exact ⟨n, if_pos ⟨hleast, hgreatest⟩⟩
    · rw [number_of_not_shows hvalue (not_exists.mp hshows)]
      refine iff_of_false nofun fun hin => ?_
      obtain ⟨n, hn, -⟩ := hin value hvalue
      exact hshows ⟨n, ((showsNumber_iff_of_le h).mp hn).1⟩

/-- A number is refused exactly for its fault. -/
theorem number_error_iff (e : SettingsError) :
    number env name default least greatest = .error e ↔ NumberFault env name least greatest e := by
  constructor
  · intro h
    cases hvalue : env name with
    | none =>
      rw [number_of_none hvalue] at h
      cases h
    | some value =>
      by_cases hshows : ∃ n, ShowsNumber wordLimit value n
      · obtain ⟨n, hn⟩ := hshows
        have hle := hn.le
        rw [number_of_shows hvalue hn] at h
        split_ifs at h with hin hopen
        · cases h
          exact .tooSmall hvalue hn (by omega) hopen
        · cases h
          exact .outOfBounds hvalue hn (by omega) hopen
      · rw [number_of_not_shows hvalue (not_exists.mp hshows)] at h
        cases h
        exact .notNumber hvalue (not_exists.mp hshows)
  · rintro (⟨hvalue, h⟩ | ⟨hvalue, hn, hlow, hopen⟩ | ⟨hvalue, hn, hout, hbounded⟩)
    · exact number_of_not_shows hvalue h
    · rw [number_of_shows hvalue hn, if_neg (by omega), if_pos hopen]
    · rw [number_of_shows hvalue hn, if_neg (by omega), if_neg hbounded]

/-- The error of a number names its variable. -/
theorem NumberFault.mentions {e : SettingsError} (h : NumberFault env name least greatest e) :
    Mentions e name := by
  refine ⟨"invalid value for ", ?_⟩
  cases h with
  | @notNumber value _ _ =>
    refine ⟨": expected positive integer, got '" ++ value ++ "'", ?_⟩
    change _ ++ _ ++ _ ++ _ ++ _ = _
    simp only [String.append_assoc]
  | @tooSmall _ n _ _ _ _ =>
    refine ⟨": must be at least " ++ toString least ++ ", got " ++ toString n, ?_⟩
    change _ ++ _ ++ _ ++ _ ++ _ ++ _ = _
    simp only [String.append_assoc]
  | @outOfBounds _ n _ _ _ _ =>
    refine ⟨": must be between " ++ toString least ++ " and " ++ toString greatest ++ ", got " ++ toString n, ?_⟩
    change _ ++ _ ++ _ ++ _ ++ _ ++ _ ++ _ ++ _ = _
    simp only [String.append_assoc]

end Numbers

/-! ## One demand -/

/-- The error that reports a fault names the variable. -/
theorem Demand.Fault.mentions {d : Demand} {e : SettingsError} (h : Fault env d e) :
    Mentions e d.variableName := by
  cases h with
  | versionMissing _ | templateMissing _ => exact ⟨_, "", String.append_empty.symm⟩
  | versionBlank _ _ => exact ⟨"invalid value for ", ": version cannot be empty", rfl⟩
  | debounce h => exact h.mentions
  | tickSeconds h => exact h.mentions

/-- A check succeeds exactly if a demand is met, and fails exactly for its faults. -/
structure Checks {α : Type} (env : Environment) (x : Except SettingsError α) (d : Demand) : Prop where
  ok_iff : (∃ a, x = .ok a) ↔ d.IsMet env
  error_iff : ∀ e, x = .error e ↔ Fault env d e

section Checks

variable {α : Type} {x : Except SettingsError α} {d : Demand}

/-- A check that succeeds is one of a demand that is met and has no fault. -/
theorem checks_of_ok {a : α} (h : x = .ok a) (hmet : d.IsMet env) (hnone : ∀ e, ¬Fault env d e) :
    Checks env x d := by
  rw [h]
  exact ⟨iff_of_true ⟨a, rfl⟩ hmet, fun e => iff_of_false nofun (hnone e)⟩

/-- A check that fails is one of a demand that is not met and has that fault alone. -/
theorem checks_of_error {e : SettingsError} (h : x = .error e) (hmet : ¬d.IsMet env)
    (hfault : ∀ e', Fault env d e' ↔ e' = e) : Checks env x d := by
  rw [h]
  refine ⟨iff_of_false nofun hmet, fun e' => ?_⟩
  rw [hfault, Except.error.injEq, eq_comm]

end Checks

/-- The version is checked for its demand: first that it is given, then that it is not blank. -/
theorem checks_version (env : Environment) : Checks env (readVersion env) .version := by
  cases hvalue : env "WAYPOST_VERSION" with
  | none =>
    have hread : readVersion env = .error (.missing "WAYPOST_VERSION") := by
      rw [readVersion, required, hvalue]
      rfl
    exact checks_of_error hread (by simp [IsMet, hvalue]) (by simp [fault_iff, hvalue])
  | some value =>
    by_cases hblank : ∀ c ∈ value.toList, isBlank c = true
    · have hread : readVersion env = .error .emptyVersion := by
        rw [readVersion, required, hvalue]
        exact if_pos (List.all_eq_true.mpr hblank)
      exact checks_of_error hread (by simpa [IsMet, hvalue] using hblank)
        (by simpa [fault_iff, hvalue] using hblank)
    · have hread : readVersion env = .ok (.ofText value) := by
        rw [readVersion, required, hvalue]
        exact if_neg fun hall => hblank (List.all_eq_true.mp hall)
      exact checks_of_ok hread (by simpa [IsMet, hvalue] using hblank) (by simp [fault_iff, hvalue, hblank])

/-- The template is checked for its demand. -/
theorem checks_template (env : Environment) : Checks env (required env "WAYPOST_TEMPLATE") .template := by
  cases hvalue : env "WAYPOST_TEMPLATE" with
  | none =>
    have hread : required env "WAYPOST_TEMPLATE" = .error (.missing "WAYPOST_TEMPLATE") := by
      rw [required, hvalue]
    exact checks_of_error hread (by simp [IsMet, hvalue]) (by simp [fault_iff, hvalue])
  | some value =>
    have hread : required env "WAYPOST_TEMPLATE" = .ok value := by rw [required, hvalue]
    exact checks_of_ok hread ⟨value, hvalue⟩ (by simp [fault_iff, hvalue])

/-- The quiet time is checked for its demand, which bounds it from below only. -/
theorem checks_debounce (env : Environment) :
    Checks env (number env "WAYPOST_DEBOUNCE_MS" 250 1 wordLimit) .debounce where
  ok_iff := number_ok_iff (Nat.le_refl _)
  error_iff e := by simp [number_error_iff, fault_iff]

/-- The seconds between ticks are checked for their demand. -/
theorem checks_tickSeconds (env : Environment) :
    Checks env (number env "WAYPOST_TICK_SECS" 5 1 3600) .tickSeconds where
  ok_iff := number_ok_iff (by decide)
  error_iff e := by simp [number_error_iff, fault_iff]

/-! ## All demands -/

/-- A chain of checks succeeds exactly if all demands are met, and reports the first one that is not. -/
structure ChecksAll {α : Type} (env : Environment) (x : Except SettingsError α) (ds : List Demand) : Prop where
  ok_iff : (∃ a, x = .ok a) ↔ ∀ d ∈ ds, d.IsMet env
  error_iff : ∀ e, x = .error e ↔ FirstFault env ds e

/-- Where nothing is demanded, nothing is at fault. -/
theorem not_firstFault_nil (env : Environment) (e : SettingsError) : ¬FirstFault env [] e := by
  rintro ⟨before, d, after, hsplit, -⟩
  cases before <;> cases hsplit

/-- The first fault is that of the first demand, or else, if that one is met, of a later one. -/
theorem firstFault_cons_iff {d : Demand} {ds : List Demand} {e : SettingsError} :
    FirstFault env (d :: ds) e ↔ Fault env d e ∨ d.IsMet env ∧ FirstFault env ds e := by
  constructor
  · rintro ⟨before, d', after, hsplit, hbefore, hfault⟩
    cases before with
    | nil =>
      cases hsplit
      exact .inl hfault
    | cons first before =>
      obtain ⟨rfl, hds⟩ := List.cons.inj hsplit
      obtain ⟨hfirst, hrest⟩ := List.forall_mem_cons.mp hbefore
      exact .inr ⟨hfirst, before, d', after, hds, hrest, hfault⟩
  · rintro (hfault | ⟨hmet, before, d', after, rfl, hbefore, hfault⟩)
    · exact ⟨[], d, ds, rfl, nofun, hfault⟩
    · exact ⟨d :: before, d', after, rfl, List.forall_mem_cons.mpr ⟨hmet, hbefore⟩, hfault⟩

section Chains

variable {α β : Type} {x : Except SettingsError α} {f : α → Except SettingsError β} {d : Demand}
  {ds : List Demand}

/-- A chain of no checks succeeds. -/
theorem checksAll_pure (env : Environment) (a : α) : ChecksAll env (pure a) [] where
  ok_iff := iff_of_true ⟨a, rfl⟩ nofun
  error_iff e := iff_of_false nofun (not_firstFault_nil env e)

/-- A check and then the later ones come to the demands in that order. -/
theorem Checks.bind (hx : Checks env x d) (hf : ∀ a, ChecksAll env (f a) ds) :
    ChecksAll env (x >>= f) (d :: ds) := by
  cases x with
  | error e =>
    have hmet : ¬d.IsMet env := fun hmet => by
      obtain ⟨a, ha⟩ := hx.ok_iff.mpr hmet
      cases ha
    refine ⟨iff_of_false nofun fun hall => hmet (hall d List.mem_cons_self), fun e' => ?_⟩
    rw [firstFault_cons_iff, or_iff_left fun h => hmet h.1]
    change Except.error e = .error e' ↔ _
    rw [← hx.error_iff e', Except.error.injEq, Except.error.injEq]
  | ok a =>
    have hmet : d.IsMet env := hx.ok_iff.mp ⟨a, rfl⟩
    have hnone (e : SettingsError) : ¬Fault env d e := fun hfault => by
      have herror := (hx.error_iff e).mpr hfault
      cases herror
    refine ⟨?_, fun e => ?_⟩
    · rw [List.forall_mem_cons, and_iff_right hmet]
      exact (hf a).ok_iff
    · rw [firstFault_cons_iff, or_iff_right (hnone e), and_iff_right hmet]
      exact (hf a).error_iff e

end Chains

/-- With a home directory, reading the settings checks the demands in their order. -/
theorem checksAll_readAt (env : Environment) (dir : String) : ChecksAll env (readAt (some dir) env) order := by
  rw [readAt, known]
  exact (checks_version env).bind fun _ => (checks_template env).bind fun _ =>
    (checks_debounce env).bind fun _ => (checks_tickSeconds env).bind fun _ => checksAll_pure env _

/-- **The settings are read exactly if all demands are met.** Let the home directory be known. The settings of an
environment are read exactly if the version is given and not blank, the template is given, and either number is
between its bounds where it is given. Otherwise the error is that of the first demand that is not met. Whenever the
settings are read, their state file is the one of edits of the saved state in that environment. And all this holds of
the home directory that the environment names, if it does. -/
theorem read_reports_first_demand (env : Environment) (dir : String) :
    ((∃ s, readAt (some dir) env = .ok s) ↔ ∀ d : Demand, d.IsMet env) ∧
    (∀ e, readAt (some dir) env = .error e ↔ FirstFault env order e) ∧
    (∀ s, readAt (some dir) env = .ok s → stateFileAt (some dir) env = .ok s.stateFile) ∧
    (home? env = some dir →
      read env = readAt (some dir) env ∧ stateFileOf env = stateFileAt (some dir) env) := by
  have hread := checksAll_readAt env dir
  refine ⟨hread.ok_iff.trans ⟨fun hall d => hall d d.mem_order, fun hall d _ => hall d⟩, hread.error_iff,
    fun _ => stateFileAt_eq_of_readAt, fun hhome => ?_⟩
  rw [read, stateFileOf, hhome]
  exact ⟨rfl, rfl⟩

/-- Numbers with signs, zeros and blanks are read, at the ends of their bounds and with an empty text for a template.
Of two numbers out of their bounds the first one is reported. -/
theorem read_reports_first_demand_at_bounds :
    let given (debounce tickSeconds : String) : Environment := fun name =>
      [("HOME", "/home/player"), ("WAYPOST_VERSION", " 1.20.4"), ("WAYPOST_TEMPLATE", ""),
        ("WAYPOST_DEBOUNCE_MS", debounce), ("WAYPOST_TICK_SECS", tickSeconds)].lookup name
    let env := given "\t+018446744073709551615 " "3600"
    let faulty := given "0" "3601"
    (∃ s, read env = .ok s ∧ stateFileOf env = .ok s.stateFile) ∧
      read faulty = .error (.tooSmall "WAYPOST_DEBOUNCE_MS" 1 0) := by
  intro given env faulty
  have hdebounce : ShowsNumber wordLimit "\t+018446744073709551615 " 18446744073709551615 :=
    ⟨_, isCore_trimmed _, .plus (by decide : "018446744073709551615".toList ≠ [])
      (List.all_eq_true.mp (by decide)) (by decide)⟩
  have htick : ShowsNumber 3600 "3600" 3600 :=
    ⟨_, isCore_trimmed _, .bare (by decide : "3600".toList ≠ []) (List.all_eq_true.mp (by decide)) (by decide)⟩
  have hzero : ShowsNumber wordLimit "0" 0 :=
    ⟨_, isCore_trimmed _, .bare (by decide : "0".toList ≠ []) (List.all_eq_true.mp (by decide)) (by decide)⟩
  have hversion (debounce tickSeconds : String) : Demand.version.IsMet (given debounce tickSeconds) :=
    ⟨" 1.20.4", rfl, '1', by decide, by decide⟩
  have hmet (d : Demand) : d.IsMet env := by
    cases d with
    | version => exact hversion _ _
    | template => exact ⟨"", rfl⟩
    | debounce =>
      rintro value ⟨⟩
      exact ⟨_, hdebounce, by decide⟩
    | tickSeconds =>
      rintro value ⟨⟩
      exact ⟨_, htick, by decide⟩
  have hfault : FirstFault faulty order (.tooSmall "WAYPOST_DEBOUNCE_MS" 1 0) := by
    have hvalue : faulty "WAYPOST_DEBOUNCE_MS" = some "0" := rfl
    refine ⟨[.version, .template], .debounce, [.tickSeconds], rfl, ?_,
      .debounce (.tooSmall hvalue hzero (by decide) rfl)⟩
    exact List.forall_mem_cons.mpr ⟨hversion _ _, List.forall_mem_singleton.mpr ⟨"", rfl⟩⟩
  obtain ⟨hok, -, hstate, hnamed⟩ := read_reports_first_demand env "/home/player"
  obtain ⟨-, herror, -, hnamed'⟩ := read_reports_first_demand faulty "/home/player"
  obtain ⟨s, hs⟩ := hok.mpr hmet
  obtain ⟨hread, hfile⟩ := hnamed rfl
  refine ⟨⟨s, hread.trans hs, hfile.trans (hstate s hs)⟩, (hnamed' rfl).1.trans ?_⟩
  exact (herror _).mpr hfault

end Settings

end Milestone
