import Milestone.Proofs.Files.Sound
import Mathlib.Data.List.Find

/-!
# Written and renamed files

Writing a file puts its text at one location, and renaming it takes it from one location to another. Nothing
else in a sound tree is changed, times aside.
-/

namespace Milestone

namespace FileTree

variable {t u : FileTree}

/-! ## Writing -/

/-- Writing a file puts its text at one location, in the stead of no directory. -/
theorem shown?_writeFile {path : String} {text : Option String} (h : t.writeFile path text = .ok u) :
    ∃ place, t.locate path = .ok place ∧ t.shown? place ≠ some (.directory 0) ∧
      u.working = t.working ∧
      ∀ other, u.shown? other = if other = place then some (.file text 0) else t.shown? other := by
  rw [writeFile] at h
  cases hlocate : t.locate path with
  | error cause => rw [hlocate] at h; cases h
  | ok place =>
    simp only [hlocate, bind, Except.bind] at h
    have hroot : t.shown? place ≠ some (.directory 0) → place ≠ [] := fun hfree hplace =>
      hfree (hplace ▸ t.shown?_root)
    refine ⟨place, rfl, ?_⟩
    split at h
    · cases h
    · rename_i old time hnode
      have hfree : t.shown? place ≠ some (.directory 0) := by
        rw [shown?_eq_file.mpr ⟨time, hnode⟩]
        simp
      cases h
      exact ⟨hfree, rfl, shown?_put t _ (hroot hfree)⟩
    · rename_i hnode
      have hfree : t.shown? place ≠ some (.directory 0) := by
        rw [shown?_eq_none.mpr hnode]
        simp
      cases h
      refine ⟨hfree, by simp, fun other => ?_⟩
      rw [shown?_put _ _ (hroot hfree), shown?_stamp]
      rfl

/-- A file can be written wherever a path leads, unless a directory is there. -/
theorem writeFile_of_locate {path : String} {place : Location} (hlocate : t.locate path = .ok place)
    (hfree : t.shown? place ≠ some (.directory 0)) (text : Option String) :
    ∃ u, t.writeFile path text = .ok u := by
  simp only [writeFile, hlocate, bind, Except.bind]
  rcases t.shown?_cases place with hnone | ⟨old, hfile⟩ | hdirectory
  · rw [shown?_eq_none.mp hnone]
    exact ⟨_, rfl⟩
  · obtain ⟨time, hnode⟩ := shown?_eq_file.mp hfile
    rw [hnode]
    exact ⟨_, rfl⟩
  · exact absurd hdirectory hfree

/-- Writing a file leaves every directory, and every file with some text. -/
theorem extends_writeFile {path : String} {text : Option String} (h : t.writeFile path text = .ok u) :
    t.Extends u ∧ u.working = t.working := by
  obtain ⟨place, -, hfree, hworking, hshown⟩ := shown?_writeFile h
  refine ⟨⟨fun other hother => ?_, fun other old hother => ?_⟩, hworking⟩
  · have hne : other ≠ place := fun heq => hfree (heq ▸ hother)
    rw [hshown, if_neg hne, hother]
  · rw [hshown]
    split_ifs
    · exact ⟨text, rfl⟩
    · exact ⟨old, hother⟩

/-! ## Moves -/

/-- Something is shown at the location of every entry. -/
theorem shown?_of_mem {e : Entry} (he : e ∈ t.entries) : t.shown? e.place ≠ none := by
  rw [Ne, shown?_eq_none, node?]
  split_ifs
  · simp
  · rw [Option.map_eq_none_iff, entryAt?, List.find?_eq_none]
    exact fun h => h e he ((Entry.isAt_iff e e.place).mpr rfl)

/-- In a sound tree nothing but a file itself stands at and below its location. -/
theorem IsSound.isWithin_iff (h : t.IsSound) {place : Location}
    (hplace : t.shown? place ≠ some (.directory 0)) {e : Entry} (he : e ∈ t.entries) :
    e.isWithin place = true ↔ e.place = place := by
  rw [Entry.isWithin, List.isPrefixOf_iff_prefix]
  constructor
  · rintro ⟨rest, hrest⟩
    by_cases hnil : rest = []
    · rw [← hrest, hnil, List.append_nil]
    · have hbelow := h.below hplace hnil
      rw [hrest] at hbelow
      exact absurd hbelow (shown?_of_mem he)
  · rintro rfl
    exact List.prefix_rfl

/-- An entry after a move. -/
def relocate (source target : Location) (e : Entry) : Entry :=
  if e.isWithin source then .ofNode (target ++ e.place.drop source.length) e.node else e

/-- The tree after a move, the times of the directories aside. -/
def relocated (t : FileTree) (source target : Location) : FileTree :=
  { t with entries := (t.cut target).entries.map (relocate source target) }

/-- A move takes entries from one location to another and then marks both directories. -/
theorem move_eq (t : FileTree) (source target : Location) :
    t.move source target = ((t.relocated source target).stamp source.dropLast).stamp target.dropLast :=
  rfl

/-- What is moved stays what it is. -/
theorem relocate_node (source target : Location) (e : Entry) :
    (relocate source target e).node = e.node := by
  rw [relocate]
  split <;> rfl

/-- An entry is at a location if that is its place. -/
theorem isAt_eq_decide (e : Entry) (place : Location) :
    e.isAt place.length place = decide (e.place = place) :=
  Bool.eq_iff_iff.mpr (by simpa using e.isAt_iff place)

/-- What stands at a location after a move is the node of the first entry that comes to it. -/
theorem node?_relocated (t : FileTree) (source target : Location) {place : Location} (h : place ≠ []) :
    (t.relocated source target).node? place =
      (t.entries.find? fun e =>
        !e.isWithin target && decide ((relocate source target e).place = place)).map (·.node) := by
  rw [node?, if_neg (by simpa using h), entryAt?, relocated, cut, List.find?_map, List.find?_filter,
    Option.map_map]
  congr 1
  · funext e
    exact relocate_node source target e
  · congr 1
    funext e
    simp [isAt_eq_decide]

/-- What stands at a location is the first entry of that place. -/
theorem node?_eq_find? (t : FileTree) {place : Location} (h : place ≠ []) :
    t.node? place = (t.entries.find? fun e => decide (e.place = place)).map (·.node) := by
  rw [node?, if_neg (by simpa using h), entryAt?]
  simp only [isAt_eq_decide]

/-- Where the entries of a sound tree come to when a file is moved: the file to its new location, what stood
there nowhere, and all others stay. -/
theorem IsSound.comes_iff (h : t.IsSound) {source target : Location}
    (hsource : t.shown? source ≠ some (.directory 0))
    (htarget : t.shown? target ≠ some (.directory 0)) (hne : target ≠ source) {e : Entry}
    (he : e ∈ t.entries) (place : Location) :
    (!e.isWithin target && decide ((relocate source target e).place = place)) =
      if place = target then decide (e.place = source)
      else decide (place ≠ source ∧ e.place = place) := by
  have hcut : e.isWithin target = decide (e.place = target) :=
    Bool.eq_iff_iff.mpr (by simpa using h.isWithin_iff htarget he)
  have hplace : (relocate source target e).place = if e.place = source then target else e.place := by
    rw [relocate]
    simp only [h.isWithin_iff hsource he]
    split_ifs with hsame
    · rw [hsame, List.drop_length, List.append_nil]
      rfl
    · rfl
  rw [hcut, hplace]
  grind

/-- Moving a file takes it from one location to the other. -/
theorem shown?_move (h : t.IsSound) {source target : Location} {text : Option String}
    (hsource : t.shown? source = some (.file text 0))
    (htarget : t.shown? target ≠ some (.directory 0)) (hne : target ≠ source) (place : Location) :
    (t.move source target).shown? place =
      if place = target then some (.file text 0) else if place = source then none
      else t.shown? place := by
  have hfile : t.shown? source ≠ some (.directory 0) := by simp [hsource]
  have hinner {other : Location} (hother : t.shown? other ≠ some (.directory 0)) : other ≠ [] :=
    fun hroot => hother (hroot ▸ t.shown?_root)
  rw [move_eq, shown?_stamp, shown?_stamp]
  by_cases hroot : place = []
  · rw [hroot, shown?_root, shown?_root, if_neg (hinner htarget).symm, if_neg (hinner hfile).symm]
  rw [shown?, node?_relocated t _ _ hroot,
    List.find?_congr fun e he => h.comes_iff hfile htarget hne he place]
  split_ifs with htgt hsrc
  · rw [← hsource, shown?, node?_eq_find? t (hinner hfile)]
  · simp [hsrc]
  · simp only [hsrc, ne_eq, not_false_eq_true, true_and, shown?, node?_eq_find? t hroot]

/-- A move leaves the working directory where it is. -/
theorem working_move (t : FileTree) (source target : Location) :
    (t.move source target).working = t.working := by
  rw [move_eq, working_stamp, working_stamp]
  rfl

/-- A file is renamed where the new path leads to no directory, ends in a name and demands none. -/
theorem rename_eq_ok_iff {path target : String} {source : Location} {text : Option String} {time : Int}
    (hfind : t.find path = .ok (source, .file text time)) :
    t.rename path target = .ok u ↔ ∃ place, t.locate target = .ok place ∧
      ¬((steps target).1.getLast?.all fun name => name = "." ∨ name = "..") = true ∧
      (steps target).2 = false ∧
      (place = source ∧ u = t ∨
        place ≠ source ∧ t.shown? place ≠ some (.directory 0) ∧ u = t.move source place) := by
  simp only [rename, hfind, bind, Except.bind, Node.isDirectory, Bool.not_false, Bool.and_true]
  cases t.locate target with
  | error cause => simp
  | ok place =>
    simp only [Except.ok.injEq, exists_eq_left', throw, throwThe, MonadExceptOf.throw, pure,
      Except.pure]
    generalize ((steps target).1.getLast?.all fun name => name = "." ∨ name = "..") = busy
    generalize (steps target).2 = directory
    cases busy with
    | true => simp
    | false =>
      cases directory with
      | true => simp
      | false =>
        simp only [Bool.false_eq_true, if_false, not_false_eq_true, true_and]
        by_cases hsame : place = source
        · simp only [hsame, if_true, true_and, ne_eq, not_true_eq_false, false_and, or_false,
            Except.ok.injEq]
          exact eq_comm
        · rcases t.shown?_cases place with hnone | ⟨old, hfile⟩ | hdirectory
          · simp only [hsame, hnone, shown?_eq_none.mp hnone, if_false, false_and, false_or, ne_eq,
              not_false_eq_true, reduceCtorEq, true_and, Except.ok.injEq]
            exact eq_comm
          · obtain ⟨other, hnode⟩ := shown?_eq_file.mp hfile
            simp only [hsame, hfile, hnode, if_false, false_and, false_or, ne_eq,
              not_false_eq_true, Option.some.injEq, reduceCtorEq, true_and, Except.ok.injEq]
            exact eq_comm
          · obtain ⟨other, hnode⟩ := shown?_eq_directory.mp hdirectory
            simp [hsame, hdirectory, hnode]

end FileTree

end Milestone
