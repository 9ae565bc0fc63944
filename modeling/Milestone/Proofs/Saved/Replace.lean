import Milestone.Proofs.Saved.Directory

/-!
# Replacing the state file

Where the directory is there and neither name is that of a directory, a save puts the text at the location of
the state file, takes the temporary file away and leaves the rest, times aside; and afterwards the same holds
again. Every save that succeeds is one like that once its directories are made.
-/

namespace Milestone

open FileTree

namespace StateFile

variable {path : String} {t : FileTree}

/-- A tree in which a save to a path succeeds at once. -/
structure Ready (path : String) (t : FileTree) (place other : Location) : Prop where
  sound : t.IsSound
  prepared : prepare path t = (.ok (), t)
  locate : t.locate path = .ok place
  locate_temporary : t.locate (temporary path) = .ok other
  free : t.shown? place ≠ some (.directory 0)
  free_temporary : t.shown? other ≠ some (.directory 0)
  named : ¬((steps path).1.getLast?.all fun name => name = "." ∨ name = "..") = true
  ends_bare : (steps path).2 = false

variable {place other : Location}

/-- What a save puts at the location of the state file, and what it takes away. -/
def shownAfter (t : FileTree) (place other : Location) (text : String) (l : Location) : Option Node :=
  if l = place then some (.file (some text) 0) else if l = other then none else t.shown? l

namespace Ready

theorem place_ne (h : Ready path t place other) : place ≠ other := by
  obtain ⟨-, -, -, -, hne⟩ := StateFile.locate_temporary h.locate_temporary
  exact hne place h.locate

/-- A save to a tree that is ready for it succeeds and replaces the state file. -/
theorem save (h : Ready path t place other) (s : SavedState) :
    ∃ after, StateFile.save path s t = (.ok (), after) ∧ after.working = t.working ∧
      ∀ l, after.shown? l = shownAfter t place other s.text l := by
  obtain ⟨written, hwrite⟩ := writeFile_of_locate h.locate_temporary h.free_temporary (some s.text)
  obtain ⟨other', hother', -, hworking, hshown⟩ := shown?_writeFile hwrite
  obtain rfl : other' = other := Except.ok.inj (hother'.symm.trans h.locate_temporary)
  obtain ⟨directory, name, hdirectory, rfl, -⟩ := StateFile.locate_temporary h.locate_temporary
  have hsound : written.IsSound := h.sound.of_shown? hdirectory h.free_temporary hworking hshown
  have hkeeps := (extends_writeFile hwrite).1.directory
  have hsource : written.shown? (directory ++ [name]) = some (.file (some s.text) 0) := by
    rw [hshown, if_pos rfl]
  have htarget : written.shown? place ≠ some (.directory 0) := by
    rw [hshown, if_neg h.place_ne]
    exact h.free
  obtain ⟨time, hnode⟩ := shown?_eq_file.mp hsource
  have hfind := find_of_locate (hkeeps.locate hworking h.locate_temporary) hnode (ends_temporary path)
  have hrename := (rename_eq_ok_iff hfind).mpr
    ⟨place, hkeeps.locate hworking h.locate, h.named, h.ends_bare, .inr ⟨h.place_ne, htarget, rfl⟩⟩
  refine ⟨written.move (directory ++ [name]) place, ?_, ?_, fun l => ?_⟩
  · simp only [StateFile.save, h.prepared, hwrite, hrename]
  · rw [working_move, hworking]
  · rw [shown?_move hsound hsource htarget h.place_ne, shownAfter, hshown]
    split_ifs <;> rfl

/-- The state file stands in a directory. -/
theorem exists_directory (h : Ready path t place other) :
    ∃ directory name, t.shown? directory = some (.directory 0) ∧ place = directory ++ [name] := by
  have hwalk := h.locate
  rw [locate_eq_walk h.locate t] at hwalk
  have hnamed := h.named
  cases hlast : (steps path).1.getLast? with
  | none => simp [hlast] at hnamed
  | some name =>
    simp only [hlast, Option.all_some, decide_eq_true_eq, not_or] at hnamed
    obtain ⟨names, hsteps⟩ := List.getLast?_eq_some_iff.mp hlast
    rw [hsteps] at hwalk
    obtain ⟨directory, -, hshown, hplace⟩ := walk_concat hnamed.1 hnamed.2 hwalk
    exact ⟨directory, name, hshown, hplace⟩

/-- After a save the tree is ready for the next one. -/
theorem of_shown? (h : Ready path t place other) {after : FileTree} {text : String}
    (hworking : after.working = t.working)
    (hshown : ∀ l, after.shown? l = shownAfter t place other text l) : Ready path after place other := by
  have hkeeps : t.KeepsDirectories after := fun l hl => by
    have hplace : l ≠ place := fun heq => h.free (heq ▸ hl)
    have hother : l ≠ other := fun heq => h.free_temporary (heq ▸ hl)
    rw [hshown, shownAfter, if_neg hplace, if_neg hother, hl]
  have hlocate := hkeeps.locate hworking h.locate
  refine ⟨⟨fun {l name} hl => ?_, ?_⟩, ?_, hlocate, hkeeps.locate hworking h.locate_temporary,
    ?_, ?_, h.named, h.ends_bare⟩
  · rw [hshown, shownAfter] at hl
    split_ifs at hl with hplace hother
    · obtain ⟨directory, last, hdirectory, hlast⟩ := h.exists_directory
      obtain ⟨rfl, -⟩ := List.append_inj' (hplace.trans hlast) rfl
      exact hkeeps _ hdirectory
    · exact absurd rfl hl
    · exact hkeeps _ (h.sound.parent hl)
  · rw [hworking]
    exact hkeeps _ h.sound.working
  · exact prepare_of_locate (by rw [h.prepared]) hlocate
  · rw [hshown, shownAfter, if_pos rfl]
    simp
  · rw [hshown, shownAfter, if_neg h.place_ne.symm, if_pos rfl]
    simp

/-- After a save the file shows the text of the state. -/
theorem readText (h : Ready path t place other) {after : FileTree} {text : String}
    (hworking : after.working = t.working)
    (hshown : ∀ l, after.shown? l = shownAfter t place other text l) :
    after.readText path = .ok text := by
  have hlocate := (h.of_shown? hworking hshown).locate
  rw [readText_eq, hlocate]
  simp only [Except.bind, hshown, shownAfter, if_true, h.ends_bare, Bool.false_eq_true, if_false]

end Ready

/-- A save that succeeds prepares the directory, writes the text under the temporary name and renames it. -/
theorem exists_steps_of_save {s : SavedState} (h : (save path s t).1 = .ok ()) :
    ∃ made written, prepare path t = (.ok (), made) ∧
      made.writeFile (temporary path) (some s.text) = .ok written ∧
      ∃ after, written.rename (temporary path) path = .ok after := by
  rw [save] at h
  split at h
  · cases h
  · rename_i made hprepare
    split at h
    · cases h
    · rename_i written hwrite
      split at h
      · cases h
      · rename_i after hrename
        exact ⟨made, written, hprepare, hwrite, after, hrename⟩

/-- A save that succeeds makes the directories, and is then one to a tree that is ready for it; and so is a save
of any other state. -/
theorem exists_ready_of_save (hsound : t.IsSound) {s : SavedState} (h : (save path s t).1 = .ok ()) :
    ∃ made place other, Ready path made place other ∧ ∀ s', save path s' t = save path s' made := by
  obtain ⟨made, written, hprepare, hwrite, after, hrename⟩ := exists_steps_of_save h
  obtain ⟨count, hcount⟩ := exists_prepareSome path t
  have hmade : made.IsSound := by
    have hsome := isSound_prepareSome hsound path count
    rwa [← hcount, hprepare] at hsome
  obtain ⟨other, hother, hfree, hworking, hshown⟩ := shown?_writeFile hwrite
  have hlocate := (extends_writeFile hwrite).1.directory.locate hworking hother
  obtain ⟨time, hnode⟩ := shown?_eq_file.mp ((hshown other).trans (if_pos rfl))
  have hfind := find_of_locate hlocate hnode (ends_temporary path)
  obtain ⟨place, hplace, hnamed, hbare, hcases⟩ := (rename_eq_ok_iff hfind).mp hrename
  obtain ⟨-, -, -, -, hne⟩ := locate_temporary hlocate
  have hplaceFree : made.shown? place ≠ some (.directory 0) := by
    obtain ⟨heq, -⟩ | ⟨-, hplaceFree, -⟩ := hcases
    · exact absurd heq (hne place hplace)
    · rwa [hshown, if_neg (hne place hplace)] at hplaceFree
  -- The temporary file is no directory, so the path led to the same location before it was written.
  have hback : written.KeepsDirectories made := fun l hl => by
    rw [hshown] at hl
    split_ifs at hl
    · cases hl
    · exact hl
  have hlocatePath := hback.locate hworking.symm hplace
  have hprepared := prepare_of_locate (by rw [hprepare]) hlocatePath
  refine ⟨made, place, other, ⟨hmade, hprepared, hlocatePath, hother, hplaceFree, hfree, hnamed, hbare⟩,
    fun s' => ?_⟩
  simp only [save, hprepare, hprepared]

/-- After a save to a tree that is ready for it the file shows the state, and the tree is ready again. -/
theorem Ready.saved (h : Ready path t place other) (s : SavedState) :
    (StateFile.save path s t).1 = .ok () ∧
      (StateFile.save path s t).2.readText path = .ok s.text ∧
      Ready path (StateFile.save path s t).2 place other := by
  obtain ⟨after, hsave, hworking, hshown⟩ := h.save s
  rw [hsave]
  exact ⟨rfl, h.readText hworking hshown, h.of_shown? hworking hshown⟩

/-- After a save that succeeds the file shows the state, and the tree is ready for further ones. -/
theorem saved_of_ok (hsound : t.IsSound) {s : SavedState} (h : (save path s t).1 = .ok ()) :
    (save path s t).2.readText path = .ok s.text ∧
      ∃ place other, Ready path (save path s t).2 place other := by
  obtain ⟨made, place, other, hready, hsame⟩ := exists_ready_of_save hsound h
  obtain ⟨-, hread, hafter⟩ := hready.saved s
  rw [hsame]
  exact ⟨hread, place, other, hafter⟩

end StateFile

end Milestone
