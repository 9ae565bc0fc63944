import Milestone.Proofs.Saved.Replace
import Milestone.Proofs.Saved.Written

/-!
# The state file

What a save leaves in the files, whether it succeeds, fails or is broken off. A save that succeeds is read
back as the state that was saved, and saving that again writes the same text. Any other leaves all files
but the temporary one, and a read of the state file shows what it did before, unless the making of missing
directories opened another way to it: through a double point, or up to a name that is too long.
-/

namespace Milestone

open FileTree

namespace StateFile

variable {path : String} {files after : FileTree}

/-- What a save leaves that does not come to its end, for whatever reason: some of the directories are
made, or all of them and any part of the text. -/
inductive BrokenOff (path : String) (files : FileTree) : FileTree → Prop where
  | preparing (count : Nat) : BrokenOff path files (prepareSome path count files)
  | writing {made after : FileTree} (part : Option String)
      (hprepare : prepare path files = (.ok (), made))
      (hwrite : made.writeFile (temporary path) part = .ok after) : BrokenOff path files after

/-- A save that fails is one that is broken off. -/
theorem brokenOff_of_error {s : SavedState} {cause : StateError}
    (h : (save path s files).1 = .error cause) : BrokenOff path files (save path s files).2 := by
  obtain ⟨count, hcount⟩ := exists_prepareSome path files
  cases hprepare : prepare path files with
  | mk result made =>
    rw [hprepare] at hcount
    obtain rfl : made = prepareSome path count files := hcount
    cases result with
    | error fault =>
      simp only [save, hprepare]
      exact .preparing count
    | ok =>
      cases hwrite : (prepareSome path count files).writeFile (temporary path) (some s.text) with
      | error fault =>
        simp only [save, hprepare, hwrite]
        exact .preparing count
      | ok written =>
        cases hrename : written.rename (temporary path) path with
        | error fault =>
          simp only [save, hprepare, hwrite, hrename]
          exact .writing _ hprepare hwrite
        | ok renamed => simp [save, hprepare, hwrite, hrename] at h

/-- A save that is broken off has made directories, and may have come to the temporary file. -/
theorem BrokenOff.exists_prepareSome (h : BrokenOff path files after) :
    ∃ count, after = prepareSome path count files ∨
      ∃ part, (prepareSome path count files).writeFile (temporary path) part = .ok after := by
  cases h with
  | preparing count => exact ⟨count, .inl rfl⟩
  | @writing made _ part hprepare hwrite =>
    obtain ⟨count, hcount⟩ := StateFile.exists_prepareSome path files
    rw [hprepare] at hcount
    obtain rfl : made = prepareSome path count files := hcount
    exact ⟨count, .inr ⟨part, hwrite⟩⟩

/-! ## What stays -/

/-- Every directory is still there after a save that is broken off, and every file with some text. -/
theorem BrokenOff.extends (h : BrokenOff path files after) :
    files.Extends after ∧ after.working = files.working := by
  obtain ⟨count, rfl | ⟨part, hwrite⟩⟩ := h.exists_prepareSome
  · exact ⟨extends_prepareSome path count files, working_prepareSome path count files⟩
  · obtain ⟨hextends, hworking⟩ := extends_writeFile hwrite
    exact ⟨(extends_prepareSome path count files).trans hextends,
      hworking.trans (working_prepareSome path count files)⟩

/-- A save that is broken off leaves every file but the temporary one. -/
theorem BrokenOff.shown?_file (h : BrokenOff path files after) {place : Location}
    {text : Option String} (hfile : files.shown? place = some (.file text 0))
    (hother : after.locate (temporary path) ≠ .ok place) :
    after.shown? place = some (.file text 0) := by
  obtain ⟨count, rfl | ⟨part, hwrite⟩⟩ := h.exists_prepareSome
  · rw [shown?_prepareSome path count files (by simp [hfile]), hfile]
  · obtain ⟨other, hlocate, -, hworking, hshown⟩ := shown?_writeFile hwrite
    have hsame := (extends_writeFile hwrite).1.directory.locate hworking hlocate
    have hne : place ≠ other := fun heq => hother (heq ▸ hsame)
    rw [hshown, if_neg hne, shown?_prepareSome path count files (by simp [hfile]), hfile]

/-- A save that is broken off keeps the files sound. -/
theorem BrokenOff.isSound (h : BrokenOff path files after) (hsound : files.IsSound) : after.IsSound := by
  obtain ⟨count, hsome⟩ := h.exists_prepareSome
  have hmade := isSound_prepareSome hsound path count
  obtain rfl | ⟨part, hwrite⟩ := hsome
  · exact hmade
  · obtain ⟨other, hother, hfree, hworking, hshown⟩ := shown?_writeFile hwrite
    obtain ⟨directory, name, hdirectory, rfl, -⟩ := locate_temporary hother
    exact hmade.of_shown? hdirectory hfree hworking hshown

/-- A save keeps the files sound, whether it succeeds or fails. -/
theorem isSound_save (hsound : files.IsSound) (path : String) (s : SavedState) :
    (save path s files).2.IsSound := by
  cases hsave : (save path s files).1 with
  | error cause => exact (brokenOff_of_error hsave).isSound hsound
  | ok u =>
    obtain ⟨-, place, other, hready⟩ := saved_of_ok hsound hsave
    exact hready.sound

/-! ## What a read shows -/

/-- Where the directory of the file is there, a read shows what it did. -/
theorem BrokenOff.readText_of_locate (h : BrokenOff path files after) {place : Location}
    (hlocate : files.locate path = .ok place) : after.readText path = files.readText path := by
  obtain ⟨count, hsome⟩ := h.exists_prepareSome
  rw [prepareSome_of_locate hlocate] at hsome
  obtain rfl | ⟨part, hwrite⟩ := hsome
  · rfl
  · obtain ⟨other, hother, -, -, hshown⟩ := shown?_writeFile hwrite
    obtain ⟨-, -, -, -, hne⟩ := locate_temporary hother
    obtain ⟨hextends, hworking⟩ := extends_writeFile hwrite
    refine readText_congr (hextends.locate_eq hworking (by simp [hlocate])) fun l hl => ?_
    rw [hshown, if_neg (hne l hl)]

/-- Where a path leads nowhere for another reason than that something is missing, it still leads nowhere. -/
theorem BrokenOff.readText_of_error (h : BrokenOff path files after) {cause : FileError}
    (hlocate : files.locate path = .error cause) (hcause : cause ≠ .notFound) :
    after.readText path = files.readText path := by
  obtain ⟨hextends, hworking⟩ := h.extends
  have hfound : files.locate path ≠ .error .notFound := by simpa [hlocate] using hcause
  exact readText_congr (hextends.locate_eq hworking hfound) fun l hl => by simp [hlocate] at hl

/-- A save to a plain path that is broken off lets nothing come to stand on the way of the path but
directories before its end. -/
theorem BrokenOff.added (h : BrokenOff path files after) {name : String}
    (hplain : ∀ name ∈ (steps path).1, IsPlain name) (hname : Path.fileName? path = some name)
    {rest : List String} (hrest : rest <+: trail (steps path).1) :
    after.shown? (files.start path ++ rest) = files.shown? (files.start path ++ rest) ∨
      files.shown? (files.start path ++ rest) = none ∧
        after.shown? (files.start path ++ rest) = some (.directory 0) ∧
        rest ≠ trail (steps path).1 := by
  obtain ⟨parent, hparent⟩ := Path.exists_parent hname
  obtain ⟨count, rfl | ⟨part, hwrite⟩⟩ := h.exists_prepareSome
  · exact added_prepareSome hplain hname hparent count files rest
  · obtain ⟨other, hother, -, -, hshown⟩ := shown?_writeFile hwrite
    have hlocate := locate_temporary_of_plain hplain hname hparent hother
    rw [start_prepareSome] at hlocate
    -- On the way stands nothing but the names up to the last one, and that is another one.
    have hne : files.start path ++ rest ≠ other := fun heq => by
      rw [hlocate] at heq
      have hall := List.append_cancel_left heq
      rw [trail_steps hname hparent, hall] at hrest
      have hlast := List.append_cancel_left (hrest.eq_of_length (by simp))
      exact (temporaryName_ne name).2.2 (List.cons.inj hlast).1
    rw [hshown, if_neg hne]
    exact added_prepareSome hplain hname hparent count files rest

/-- What a plain path names is still missing after a save that is broken off. -/
theorem BrokenOff.readText_of_missing (h : BrokenOff path files after) (hsound : files.IsSound)
    (hplain : ∀ name ∈ (steps path).1, IsPlain name) (hlocate : files.locate path = .error .notFound) :
    after.readText path = .error .notFound := by
  rcases locate_cases path with ⟨cause, herror⟩ | hwalk
  · rw [readText_eq, herror, ← herror files, hlocate]
    rfl
  · rw [hwalk] at hlocate
    cases hname : Path.fileName? path with
    | none =>
      obtain ⟨count, hsome⟩ := h.exists_prepareSome
      rw [prepareSome_of_none hplain hname] at hsome
      obtain rfl | ⟨part, hwrite⟩ := hsome
      · rw [readText_eq, hwalk, hlocate]
        rfl
      · obtain ⟨other, hother, -⟩ := shown?_writeFile hwrite
        obtain ⟨hsteps, habsolute⟩ := steps_temporary_of_none hname
        rw [locate_eq_walk hother, start_eq habsolute, hsteps] at hother
        obtain ⟨directory, hdirectory, -⟩ := walk_of_append hother
        rw [hdirectory] at hlocate
        cases hlocate
    | some name =>
      have hstart : after.start path = files.start path := by rw [start, start, h.extends.2]
      have hafter := walk_of_added hsound hplain (fun rest hrest => h.added hplain hname hrest) hlocate
      rw [readText_eq, hwalk, hstart]
      rcases hafter with hnone | ⟨hend, hnone⟩
      · rw [hnone]
        rfl
      · rw [hend]
        simp only [Except.bind, hnone]

/-- After a save that is broken off a read of the state file shows what it did before, if no name of the
path leads up or is too long or if the directory of the file was there. -/
theorem BrokenOff.readText (h : BrokenOff path files after) (hsound : files.IsSound)
    (hpath : (∀ name ∈ (steps path).1, IsPlain name) ∨ ∃ place, files.locate path = .ok place) :
    after.readText path = files.readText path := by
  cases hlocate : files.locate path with
  | ok place => exact h.readText_of_locate hlocate
  | error cause =>
    by_cases hcause : cause = .notFound
    · rw [hcause] at hlocate
      have hplain := hpath.resolve_right fun ⟨place, hplace⟩ => by simp [hlocate] at hplace
      rw [h.readText_of_missing hsound hplain hlocate, readText_eq, hlocate]
      rfl
    · exact h.readText_of_error hlocate hcause

theorem load_eq_of_readText (h : after.readText path = files.readText path) :
    load path after = load path files := by
  rw [load, load, h]

theorem load_of_readText {s : SavedState} (h : files.readText path = .ok s.text) :
    load path files = .ok s := by
  rw [load, h]
  exact s.decode_text path

/-- The state file is faithful, and no save that fails changes it. A save that succeeds is loaded as
exactly the state that was saved, and saving what is loaded succeeds and writes the same text again. A
save that fails, at whichever step and for whatever reason, leaves every file but the temporary one; and
it leaves what the state file shows and what a load gives, if no name of the path leads up or is too long
or if the directory of the file was there. -/
theorem load_of_save_or_brokenOff (path : String) (s : SavedState) {files : FileTree}
    (hsound : files.IsSound) :
    ((save path s files).1 = .ok () →
      load path (save path s files).2 = .ok s ∧
      (save path s files).2.readText path = .ok s.text ∧
      ∀ loaded, load path (save path s files).2 = .ok loaded →
        (save path loaded (save path s files).2).1 = .ok () ∧
        (save path loaded (save path s files).2).2.readText path = .ok s.text) ∧
    ((save path s files).1 ≠ .ok () → BrokenOff path files (save path s files).2) ∧
    ∀ after, BrokenOff path files after →
      (∀ place text, files.shown? place = some (.file text 0) →
        after.locate (temporary path) ≠ .ok place → after.shown? place = some (.file text 0)) ∧
      (((∀ name ∈ (steps path).1, IsPlain name) ∨ ∃ place, files.locate path = .ok place) →
        after.readText path = files.readText path ∧ load path after = load path files) := by
  refine ⟨fun hsave => ?_, fun hsave => ?_, fun after h => ⟨fun place text hfile hother =>
    h.shown?_file hfile hother, fun hpath => ?_⟩⟩
  · obtain ⟨hread, place, other, hready⟩ := saved_of_ok hsound hsave
    refine ⟨load_of_readText hread, hread, fun loaded hloaded => ?_⟩
    rw [load_of_readText hread, Except.ok.injEq] at hloaded
    subst hloaded
    obtain ⟨hagain, hreadAgain, -⟩ := hready.saved s
    exact ⟨hagain, hreadAgain⟩
  · cases hresult : (save path s files).1 with
    | ok u => exact absurd hresult hsave
    | error cause => exact brokenOff_of_error hresult
  · have hread := h.readText hsound hpath
    exact ⟨hread, load_eq_of_readText hread⟩

/-- A state whose world has a name of a quote, a backslash and a control character is saved and loaded
again, and a save of it that is broken off while the directory is made leaves nothing to load, as before. -/
theorem load_of_save_or_brokenOff_escaped :
    let path := "data/state.json"
    let s := { SavedState.empty with world := some "\"\\\x01" }
    let files := FileTree.ofWorking "w"
    files.IsSound ∧ (save path s files).1 = .ok () ∧ load path (save path s files).2 = .ok s ∧
      BrokenOff path files (prepareSome path 1 files) ∧ prepareSome path 1 files ≠ files ∧
      load path (prepareSome path 1 files) = .ok .empty := by
  intro path s files
  have hsound : files.IsSound := isSound_ofWorking "w"
  have hsave : (save path s files).1 = .ok () := by decide +kernel
  have hbroken : BrokenOff path files (prepareSome path 1 files) := .preparing 1
  obtain ⟨hsaved, -, hother⟩ := load_of_save_or_brokenOff path s hsound
  have hplain : ∀ name ∈ (steps path).1, IsPlain name := by decide
  obtain ⟨-, hload⟩ := (hother _ hbroken).2 (.inl hplain)
  exact ⟨hsound, hsave, (hsaved hsave).1, hbroken, by decide, hload.trans (by decide +kernel)⟩

/-- A state in which the jumps count as done. -/
def jumpsDone : SavedState :=
  SavedState.empty.setOverride "jumps" true

/-- The files of that state, with a directory under the temporary name. -/
def filesWithBusyName : FileTree :=
  ((FileTree.ofWorking "w").put ["w", "state.json"] (.file (some jumpsDone.text) 0)).put
    ["w", "state.json.tmp"] (.directory 0)

theorem isSound_filesWithBusyName : filesWithBusyName.IsSound := by
  have hfile := (isSound_ofWorking "w").put ["w"] "state.json" (.file (some jumpsDone.text) 0)
    (by decide) (by decide)
  exact hfile.put ["w"] "state.json.tmp" (.directory 0) (by decide) (by decide)

/-- A save that fails may change what is loaded where it makes a directory that the path leads out of
again: the file that was out of reach before is found afterwards. -/
theorem load_changed_by_missing_directory :
    filesWithBusyName.IsSound ∧ load "new/../state.json" filesWithBusyName = .ok .empty ∧
      (save "new/../state.json" .empty filesWithBusyName).1 =
        .error (.inaccessible "new/../state.json" .isDirectory) ∧
      load "new/../state.json" (save "new/../state.json" .empty filesWithBusyName).2 = .ok jumpsDone ∧
      jumpsDone ≠ .empty :=
  ⟨isSound_filesWithBusyName, by rfl, by rfl, load_of_readText (by rfl), by decide⟩

end StateFile

end Milestone
