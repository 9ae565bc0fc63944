import Milestone.Command.Run
import Milestone.Proofs.Saved.Edits
import Milestone.Proofs.Saved.StateFile

/-!
# Edits from the command line

A command that sets or clears an override or records the value of a custom goal loads the saved state, edits it
and saves it again. A sequence of them leaves the state that their edits make of the first one, so commands about
different keys can change places.
-/

namespace Milestone.Command

open StateFile

/-- What a command edits. -/
def Request.target? : Request → Option Target
  | override key _ => some (.override key)
  | custom key _ => some (.custom key)
  | status _ | run | reset => none

/-- What a command leaves recorded about what it edits. -/
def Request.left? : Request → Option CustomValue
  | override _ clear => if clear then none else some (.flag true)
  | custom _ value => CustomValue.ofText? value
  | status _ | run | reset => none

/-- The edit that a command makes. -/
def Request.edit? : Request → Option SavedState.Edit
  | override key clear => some (if clear then .clearOverride key else .setOverride key true)
  | custom key value => (CustomValue.ofText? value).map (.setCustom key)
  | status _ | run | reset => none

theorem Request.of_edit? {r : Request} {e : SavedState.Edit} (h : r.edit? = some e) :
    r.target? = some e.target ∧ r.left? = e.left := by
  cases r with
  | override key clear =>
    cases clear <;> cases h <;> exact ⟨rfl, rfl⟩
  | custom key value =>
    obtain ⟨v, hvalue, rfl⟩ := Option.map_eq_some_iff.mp h
    exact ⟨rfl, hvalue⟩
  | status template => cases h
  | run => cases h
  | reset => cases h

/-- Carries out commands one after another, each at its time. -/
def executeAll (env : Environment) : List (Instant × Request) → FileTree → List Outcome × FileTree
  | [], files => ([], files)
  | turn :: rest, files =>
    let first := execute env turn.2 turn.1 files
    let others := executeAll env rest first.2
    (first.1 :: others.1, others.2)

/-- The commands without their times. -/
def requestsOf (turns : List (Instant × Request)) : List Request :=
  turns.map (·.2)

/-- The state after the edits of some commands. -/
def edited (s : SavedState) (requests : List Request) : SavedState :=
  s.editAll (requests.filterMap Request.edit?)

theorem edited_cons {r : Request} {e : SavedState.Edit} (h : r.edit? = some e) (s : SavedState)
    (rest : List Request) : edited s (r :: rest) = edited (s.edit e) rest := by
  rw [edited, List.filterMap_cons_some h]
  rfl

variable {env : Environment} {path : String} {files : FileTree} {s : SavedState}

/-! ## One command -/

/-- An edit saves the state that it makes of the loaded one, and succeeds exactly if the save does. -/
theorem editState_eq (hpath : Settings.stateFileOf env = .ok path) (hload : load path files = .ok s)
    (edit : SavedState → SavedState × String) :
    (editState env edit files).2 = (save path (edit s).1 files).2 ∧
      ((editState env edit files).1.failure = none ↔ (save path (edit s).1 files).1 = .ok ()) := by
  simp only [editState, hpath, hload]
  cases hsave : save path (edit s).1 files with
  | mk result after =>
    cases result with
    | error cause => simp [Outcome.fail]
    | ok u => simp [Outcome.success]

theorem editOverride_clear (key : String) (s : SavedState) :
    (editOverride key true s).1 = s.clearOverride key := by
  rw [editOverride, if_neg (by decide)]
  split
  · rfl
  · rename_i hnone
    rw [SavedState.hasOverride, Bool.not_eq_true, Option.isSome_eq_false_iff, Option.isNone_iff_eq_none]
      at hnone
    rw [SavedState.clearOverride, Keyed.erase_of_get?_eq_none hnone]

/-- A command saves the state with its edit, and succeeds exactly if the save does. -/
theorem execute_of_edit? (hpath : Settings.stateFileOf env = .ok path) (hload : load path files = .ok s)
    {r : Request} {e : SavedState.Edit} (hedit : r.edit? = some e) (now : Instant) :
    (execute env r now files).2 = (save path (s.edit e) files).2 ∧
      ((execute env r now files).1.failure = none ↔ (save path (s.edit e) files).1 = .ok ()) := by
  cases r with
  | override key clear =>
    have hstate : (editOverride key clear s).1 = s.edit e := by
      cases clear with
      | false => cases hedit; rfl
      | true => cases hedit; exact editOverride_clear key s
    rw [← hstate]
    exact editState_eq hpath hload (editOverride key clear)
  | custom key value =>
    obtain ⟨v, hvalue, rfl⟩ := Option.map_eq_some_iff.mp hedit
    simp only [execute, hvalue]
    exact editState_eq hpath hload (editCustom key v)
  | status template => cases hedit
  | run => cases hedit
  | reset => cases hedit

/-- A command about some key that succeeds makes an edit. -/
theorem exists_edit?_of_success {r : Request} (htarget : r.target? ≠ none) {now : Instant}
    (hok : (execute env r now files).1.failure = none) : ∃ e, r.edit? = some e := by
  cases r with
  | override key clear => exact ⟨_, rfl⟩
  | custom key value =>
    cases hvalue : CustomValue.ofText? value with
    | none => simp [execute, hvalue, Outcome.fail] at hok
    | some v => exact ⟨.setCustom key v, by rw [Request.edit?, hvalue]; rfl⟩
  | status template => exact absurd rfl htarget
  | run => exact absurd rfl htarget
  | reset => exact absurd rfl htarget

/-- A command that finds a state to edit succeeds where a save comes to a tree that is ready for it. It leaves
the text of the edited state in a tree that is ready again. -/
theorem execute_of_ready {made : FileTree} {place other : Location} (hready : Ready path made place other)
    (hpath : Settings.stateFileOf env = .ok path) (hload : load path files = .ok s) {r : Request}
    {e : SavedState.Edit} (hedit : r.edit? = some e) (hsame : ∀ t, save path t files = save path t made)
    (now : Instant) :
    (execute env r now files).1.failure = none ∧
      Ready path (execute env r now files).2 place other ∧
      (execute env r now files).2.readText path = .ok (s.edit e).text := by
  obtain ⟨hfiles, hsuccess⟩ := execute_of_edit? hpath hload hedit now
  obtain ⟨hsaved, hshows, hagain⟩ := hready.saved (s.edit e)
  rw [hsame] at hfiles hsuccess
  rw [hfiles]
  exact ⟨hsuccess.mpr hsaved, hagain, hshows⟩

/-! ## Sequences of commands -/

/-- Commands that find a saved state in a tree that is ready for saves all succeed, and leave the text of the
state with all their edits. -/
theorem executeAll_of_ready {place other : Location} (hpath : Settings.stateFileOf env = .ok path)
    {turns : List (Instant × Request)} (hedits : ∀ turn ∈ turns, ∃ e, turn.2.edit? = some e)
    (hready : Ready path files place other) (hread : files.readText path = .ok s.text) :
    (∀ o ∈ (executeAll env turns files).1, o.failure = none) ∧
      (executeAll env turns files).2.readText path = .ok (edited s (requestsOf turns)).text := by
  induction turns generalizing files s with
  | nil => exact ⟨fun o ho => absurd ho List.not_mem_nil, hread⟩
  | cons turn rest ih =>
    obtain ⟨e, hedit⟩ := hedits turn List.mem_cons_self
    obtain ⟨hfirst, hagain, hshows⟩ :=
      execute_of_ready hready hpath (load_of_readText hread) hedit (fun _ => rfl) turn.1
    obtain ⟨hall, htext⟩ := ih (fun t ht => hedits t (List.mem_cons_of_mem _ ht)) hagain hshows
    refine ⟨List.forall_mem_cons.mpr ⟨hfirst, hall⟩, ?_⟩
    rw [requestsOf, List.map_cons, edited_cons hedit]
    exact htext

/-- Where some save succeeds, commands that find a state to edit all succeed. -/
theorem executeAll_of_save (hsound : files.IsSound) (hpath : Settings.stateFileOf env = .ok path)
    (hload : load path files = .ok s) {tried : SavedState} (hsave : (save path tried files).1 = .ok ())
    {turns : List (Instant × Request)} (hne : turns ≠ [])
    (hedits : ∀ turn ∈ turns, ∃ e, turn.2.edit? = some e) :
    (∀ o ∈ (executeAll env turns files).1, o.failure = none) ∧
      (executeAll env turns files).2.readText path = .ok (edited s (requestsOf turns)).text := by
  cases turns with
  | nil => exact absurd rfl hne
  | cons turn rest =>
    obtain ⟨e, hedit⟩ := hedits turn List.mem_cons_self
    obtain ⟨made, place, other, hready, hsame⟩ := exists_ready_of_save hsound hsave
    obtain ⟨hfirst, hagain, hshows⟩ := execute_of_ready hready hpath hload hedit hsame turn.1
    obtain ⟨hall, htext⟩ := executeAll_of_ready hpath
      (fun t ht => hedits t (List.mem_cons_of_mem _ ht)) hagain hshows
    refine ⟨List.forall_mem_cons.mpr ⟨hfirst, hall⟩, ?_⟩
    rw [requestsOf, List.map_cons, edited_cons hedit]
    exact htext

/-- Commands about some keys that all succeed make edits. -/
theorem exists_edit?_of_executeAll {turns : List (Instant × Request)}
    (htargets : ∀ turn ∈ turns, turn.2.target? ≠ none)
    (hok : ∀ o ∈ (executeAll env turns files).1, o.failure = none) :
    ∀ turn ∈ turns, ∃ e, turn.2.edit? = some e := by
  induction turns generalizing files with
  | nil => exact fun turn hturn => absurd hturn List.not_mem_nil
  | cons first rest ih =>
    intro turn hturn
    rcases List.mem_cons.mp hturn with rfl | hturn
    · exact exists_edit?_of_success (htargets _ List.mem_cons_self) (hok _ List.mem_cons_self)
    · exact ih (fun t ht => htargets t (List.mem_cons_of_mem _ ht))
        (fun o ho => hok o (List.mem_cons_of_mem _ ho)) turn hturn

/-- If the first of some edits succeeds, some save does. -/
theorem exists_save_of_executeAll (hpath : Settings.stateFileOf env = .ok path)
    (hload : load path files = .ok s) {turns : List (Instant × Request)} (hne : turns ≠ [])
    (hedits : ∀ turn ∈ turns, ∃ e, turn.2.edit? = some e)
    (hok : ∀ o ∈ (executeAll env turns files).1, o.failure = none) :
    ∃ t, (save path t files).1 = .ok () := by
  cases turns with
  | nil => exact absurd rfl hne
  | cons turn rest =>
    obtain ⟨e, hedit⟩ := hedits turn List.mem_cons_self
    exact ⟨s.edit e, (execute_of_edit? hpath hload hedit turn.1).2.mp (hok _ List.mem_cons_self)⟩

/-! ## Edits about one target -/

/-- The edits about a target are those of the commands about it. -/
theorem filter_edits (requests : List Request) (target : Target) :
    (requests.filterMap Request.edit?).filter (·.target = target) =
      (requests.filter (·.target? = some target)).filterMap Request.edit? := by
  induction requests with
  | nil => rfl
  | cons r rest ih =>
    cases hedit : r.edit? with
    | none =>
      rw [List.filterMap_cons_none hedit, ih, List.filter_cons]
      split
      · rw [List.filterMap_cons_none hedit]
      · rfl
    | some e =>
      have htarget : (r.target? = some target) = (e.target = target) := by
        rw [(Request.of_edit? hedit).1, Option.some.injEq]
      rw [List.filterMap_cons_some hedit, List.filter_cons, List.filter_cons]
      simp only [htarget]
      split
      · rw [List.filterMap_cons_some hedit, ih]
      · exact ih

/-- Commands lead to the same state if they have the same order about each target. -/
theorem edited_congr {requests requests' : List Request}
    (h : ∀ target, requests'.filter (·.target? = some target) = requests.filter (·.target? = some target)) :
    edited s requests' = edited s requests := by
  refine SavedState.editAll_congr fun target => ?_
  rw [filter_edits, filter_edits, h]

/-- A command about some target is among all commands that have the same ones about each target. -/
theorem mem_of_filter_eq {requests requests' : List Request}
    (h : ∀ target, requests'.filter (·.target? = some target) = requests.filter (·.target? = some target))
    {r : Request} (htarget : r.target? ≠ none) (hr : r ∈ requests') : r ∈ requests := by
  obtain ⟨target, htarget⟩ := Option.ne_none_iff_exists'.mp htarget
  have hmem : r ∈ requests'.filter (·.target? = some target) :=
    List.mem_filter.mpr ⟨hr, by simpa using htarget⟩
  rw [h] at hmem
  exact (List.mem_filter.mp hmem).1

/-- What no command is about stays as it was. -/
theorem recorded_edited_of_not_mem {requests : List Request} {target : Target}
    (h : ∀ r ∈ requests, r.target? ≠ some target) : (edited s requests).recorded target = s.recorded target := by
  refine SavedState.recorded_editAll_of_not_mem fun e he heq => ?_
  obtain ⟨r, hr, hedit⟩ := List.mem_filterMap.mp he
  exact h r hr ((Request.of_edit? hedit).1.trans (congrArg some heq))

/-- The last command about a target decides what is recorded about it. -/
theorem recorded_edited_of_last {before after : List Request} {r : Request} {e : SavedState.Edit}
    (hedit : r.edit? = some e) {target : Target} (htarget : r.target? = some target)
    (hafter : ∀ later ∈ after, later.target? ≠ some target) :
    (edited s (before ++ r :: after)).recorded target = r.left? := by
  obtain ⟨hsame, hleft⟩ := Request.of_edit? hedit
  have hsplit : edited s (before ++ r :: after) = edited ((edited s before).edit e) after := by
    rw [edited, List.filterMap_append, SavedState.editAll_append]
    exact edited_cons hedit _ after
  rw [htarget, Option.some.injEq] at hsame
  rw [hsplit, recorded_edited_of_not_mem hafter, SavedState.recorded_edit, if_pos hsame, hleft]

/-- Commands of the command line that set or clear overrides or record values of custom goals, and that all
succeed, keep the baseline, the world and whatever none of them is about. About each key the last command decides.
And whenever other such commands are the same ones in the same order about each key, they all succeed as well and
leave the same text in the state file. -/
theorem edits_are_local (env : Environment) (path : String) (files : FileTree) (s : SavedState)
    (turns : List (Instant × Request)) (hsound : files.IsSound)
    (hpath : Settings.stateFileOf env = .ok path) (hload : load path files = .ok s)
    (htargets : ∀ turn ∈ turns, turn.2.target? ≠ none)
    (hok : ∀ o ∈ (executeAll env turns files).1, o.failure = none) :
    ∃ final, load path (executeAll env turns files).2 = .ok final ∧
      final.baseline = s.baseline ∧ final.world = s.world ∧
      (∀ target, (∀ r ∈ requestsOf turns, r.target? ≠ some target) →
        final.recorded target = s.recorded target) ∧
      (∀ target before r after, requestsOf turns = before ++ r :: after → r.target? = some target →
        (∀ later ∈ after, later.target? ≠ some target) → final.recorded target = r.left?) ∧
      ∀ turns', (∀ turn ∈ turns', turn.2.target? ≠ none) →
        (∀ target, (requestsOf turns').filter (·.target? = some target) =
          (requestsOf turns).filter (·.target? = some target)) →
        (∀ o ∈ (executeAll env turns' files).1, o.failure = none) ∧
          (executeAll env turns' files).2.readText path = (executeAll env turns files).2.readText path := by
  have hedits := exists_edit?_of_executeAll htargets hok
  refine ⟨edited s (requestsOf turns), ?_, SavedState.baseline_editAll .., SavedState.world_editAll ..,
    fun target => recorded_edited_of_not_mem, fun target before r after hsplit htarget hafter => ?_,
    fun turns' htargets' hsame => ?_⟩
  · by_cases hne : turns = []
    · rw [hne]
      exact hload
    · obtain ⟨t, hsave⟩ := exists_save_of_executeAll hpath hload hne hedits hok
      exact load_of_readText (executeAll_of_save hsound hpath hload hsave hne hedits).2
  · have hr : r ∈ requestsOf turns := by simp [hsplit]
    obtain ⟨turn, hturn, rfl⟩ := List.mem_map.mp hr
    obtain ⟨e, hedit⟩ := hedits turn hturn
    rw [hsplit]
    exact recorded_edited_of_last hedit htarget hafter
  · have hmem {turn : Instant × Request} (hturn : turn ∈ turns') : turn.2 ∈ requestsOf turns :=
      mem_of_filter_eq hsame (htargets' turn hturn) (List.mem_map_of_mem hturn)
    have hmem' {turn : Instant × Request} (hturn : turn ∈ turns) : turn.2 ∈ requestsOf turns' :=
      mem_of_filter_eq (fun target => (hsame target).symm) (htargets turn hturn) (List.mem_map_of_mem hturn)
    by_cases hne : turns = []
    · have hnone : turns' = [] := List.eq_nil_iff_forall_not_mem.mpr fun turn hturn => by
        simpa [hne, requestsOf] using hmem hturn
      rw [hne, hnone]
      exact ⟨fun o ho => absurd ho List.not_mem_nil, rfl⟩
    · have hne' : turns' ≠ [] := by
        obtain ⟨turn, hturn⟩ := List.exists_mem_of_ne_nil turns hne
        rintro rfl
        exact absurd (hmem' hturn) List.not_mem_nil
      have hedits' : ∀ turn ∈ turns', ∃ e, turn.2.edit? = some e := fun turn hturn => by
        obtain ⟨turn', hturn', heq⟩ := List.mem_map.mp (hmem hturn)
        exact heq ▸ hedits turn' hturn'
      obtain ⟨t, hsave⟩ := exists_save_of_executeAll hpath hload hne hedits hok
      obtain ⟨hall, htext⟩ := executeAll_of_save hsound hpath hload hsave hne' hedits'
      obtain ⟨-, htext'⟩ := executeAll_of_save hsound hpath hload hsave hne hedits
      exact ⟨hall, by rw [htext, htext', edited_congr hsame]⟩

/-- Two edits of one override with one of a custom goal between them leave what the second of the two leaves, and
the command about the goal can as well come first. -/
theorem edits_are_local_of_three :
    let now : Instant := ⟨⟨2013, 7, 1, by decide⟩, 0, 0, by decide⟩
    let env : Environment := fun name => if name = "WAYPOST_STATE_PATH" then some "state.json" else none
    let files := FileTree.ofWorking "w"
    let turns : List (Instant × Request) :=
      [(now, .override "jumps" false), (now, .custom "eggs" " +3 "), (now, .override "jumps" true)]
    let turns' : List (Instant × Request) :=
      [(now, .custom "eggs" " +3 "), (now, .override "jumps" false), (now, .override "jumps" true)]
    (∃ final, load "state.json" (executeAll env turns files).2 = .ok final ∧
      final.recorded (.override "jumps") = none ∧ final.recorded (.custom "eggs") = some (.count 3)) ∧
      (executeAll env turns' files).2.readText "state.json" =
        (executeAll env turns files).2.readText "state.json" := by
  intro now env files turns turns'
  have hsound : files.IsSound := FileTree.isSound_ofWorking "w"
  have hload : load "state.json" files = .ok .empty := by decide +kernel
  have hsave : (save "state.json" .empty files).1 = .ok () := by decide +kernel
  have hedits : ∀ turn ∈ turns, ∃ e, turn.2.edit? = some e := by
    simp only [turns, List.forall_mem_cons, List.not_mem_nil, false_imp_iff, implies_true, and_true]
    have hvalue : CustomValue.ofText? " +3 " = some (.count 3) := by decide
    exact ⟨⟨_, rfl⟩, ⟨_, congrArg (Option.map _) hvalue⟩, ⟨_, rfl⟩⟩
  have hok : ∀ o ∈ (executeAll env turns files).1, o.failure = none :=
    (executeAll_of_save hsound rfl hload hsave (List.cons_ne_nil _ _) hedits).1
  obtain ⟨final, hfinal, -, -, -, hlast, hothers⟩ :=
    edits_are_local env "state.json" files .empty turns hsound rfl hload (by decide) hok
  refine ⟨⟨final, hfinal, ?_, ?_⟩, (hothers turns' (by decide) fun target => ?_).2⟩
  · exact hlast (.override "jumps") (requestsOf (turns.take 2)) (.override "jumps" true) [] rfl rfl (by simp)
  · exact (hlast (.custom "eggs") [.override "jumps" false] (.custom "eggs" " +3 ")
      [.override "jumps" true] rfl rfl (by decide)).trans (by decide)
  · cases target <;> simp [requestsOf, turns, turns', Request.target?, List.filter_cons]

end Milestone.Command
