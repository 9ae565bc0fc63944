import Milestone.Files.Tree
import Milestone.Saved.Store

/-!
# The names of a path

A path, its parent and the name under which a file is first written are compared by the names that lead
through a tree of files: the last name of a path follows those of its parent, with nothing but single points
around it, and the temporary name stands in the same directory.
-/

namespace Milestone

namespace Path

/-! ## Pieces -/

/-- A slash ends the piece before it. -/
theorem pieces_slash (start : Nat) (current cs : List Char) :
    pieces start current ('/' :: cs) = ⟨current.reverse, start⟩ :: pieces (start + 1) [] cs := rfl

/-- Any other character goes on with it. -/
theorem pieces_of_ne {c : Char} (h : c ≠ '/') (start : Nat) (current cs : List Char) :
    pieces start current (c :: cs) = pieces (start + 1) (c :: current) cs := by
  rw [pieces]
  exact h

/-- Nothing stands in front of the first name. -/
theorem modifyHead_nil_append (names : List (List Char)) :
    names.modifyHead ([].reverse ++ ·) = names := by
  cases names <;> rfl

/-- A character may be put in front of the first name before or after the ones read so far. -/
theorem modifyHead_cons_append (c : Char) (current : List Char) (names : List (List Char)) :
    (names.modifyHead (c :: ·)).modifyHead (current.reverse ++ ·) =
      names.modifyHead ((c :: current).reverse ++ ·) := by
  cases names <;> simp

/-- The pieces of a path are what stands between its slashes. -/
theorem map_name_pieces (start : Nat) (current cs : List Char) :
    (pieces start current cs).map Part.name =
      (cs.splitOn '/').modifyHead (current.reverse ++ ·) := by
  induction cs generalizing start current with
  | nil => simp [pieces]
  | cons c cs ih =>
    by_cases hc : c = '/'
    · subst hc
      rw [pieces_slash, List.map_cons, ih, modifyHead_nil_append]
      simp [List.splitOn_cons_eq_if_modifyHead]
    · rw [pieces_of_ne hc, ih, ← modifyHead_cons_append, List.splitOn_cons_eq_if_modifyHead,
        if_neg (by simpa using hc)]

/-- Up to the position behind a piece a path has that piece and those before it. -/
theorem map_name_of_pieces_eq {start : Nat} {current cs : List Char} {before after : List Part}
    {e : Part} (h : pieces start current cs = before ++ e :: after) :
    start ≤ e.stop ∧ (before ++ [e]).map Part.name =
      ((cs.take (e.stop - start)).splitOn '/').modifyHead (current.reverse ++ ·) := by
  induction cs generalizing start current before with
  | nil =>
    cases before with
    | nil =>
      obtain ⟨rfl, -⟩ := List.cons_eq_cons.mp h
      simp
    | cons b before => simp [pieces] at h
  | cons c cs ih =>
    by_cases hc : c = '/'
    · subst hc
      rw [pieces_slash] at h
      cases before with
      | nil =>
        obtain ⟨rfl, -⟩ := List.cons_eq_cons.mp h
        simp
      | cons b before =>
        obtain ⟨rfl, hrest⟩ := List.cons_eq_cons.mp h
        obtain ⟨hstop, hnames⟩ := ih hrest
        have htake : e.stop - start = (e.stop - (start + 1)) + 1 := by omega
        refine ⟨by omega, ?_⟩
        rw [List.cons_append, List.map_cons, hnames, modifyHead_nil_append, htake,
          List.take_succ_cons]
        simp [List.splitOn_cons_eq_if_modifyHead]
    · rw [pieces_of_ne hc] at h
      obtain ⟨hstop, hnames⟩ := ih h
      have htake : e.stop - start = (e.stop - (start + 1)) + 1 := by omega
      refine ⟨by omega, ?_⟩
      rw [hnames, htake, List.take_succ_cons, ← modifyHead_cons_append,
        List.splitOn_cons_eq_if_modifyHead, if_neg (by simpa using hc)]

/-- A piece is no longer than the text up to the position behind it. -/
theorem length_name_le_stop {start : Nat} {current cs : List Char} {e : Part}
    (h : e ∈ pieces start current cs) : start + e.name.length ≤ e.stop + current.length := by
  induction cs generalizing start current with
  | nil =>
    rw [pieces, List.mem_singleton] at h
    simp [h]
  | cons c cs ih =>
    by_cases hc : c = '/'
    · subst hc
      rcases List.mem_cons.mp h with rfl | h
      · simp
      · have hlater := ih h
        rw [List.length_nil] at hlater
        omega
    · rw [pieces_of_ne hc] at h
      have hlater := ih h
      rw [List.length_cons] at hlater
      omega

/-- The first piece fills the text up to the position behind it, and each later one comes after a slash. -/
theorem stop_of_pieces_eq_cons {start : Nat} {current cs : List Char} {first : Part} {rest : List Part}
    (h : pieces start current cs = first :: rest) :
    start + first.name.length = first.stop + current.length ∧
      ∀ e ∈ rest, start + 1 + e.name.length ≤ e.stop := by
  induction cs generalizing start current with
  | nil =>
    obtain ⟨rfl, rfl⟩ := List.cons_eq_cons.mp h
    simp
  | cons c cs ih =>
    by_cases hc : c = '/'
    · subst hc
      obtain ⟨rfl, rfl⟩ := List.cons_eq_cons.mp h
      exact ⟨by simp, fun e he => length_name_le_stop he⟩
    · rw [pieces_of_ne hc] at h
      obtain ⟨hfirst, hrest⟩ := ih h
      rw [List.length_cons] at hfirst
      exact ⟨by omega, fun e he => by have := hrest e he; omega⟩

/-- A piece after another one comes after a slash. -/
theorem stop_of_mem_later {cs : List Char} {before later : List Part} {e p : Part}
    (h : pieces 0 [] cs = before ++ e :: later) (hp : p ∈ later) : 1 + p.name.length ≤ p.stop := by
  cases before with
  | nil =>
    have hlater := (stop_of_pieces_eq_cons h).2 p hp
    omega
  | cons first between =>
    have hlater := (stop_of_pieces_eq_cons h).2 p (by simp [hp])
    omega

/-! ## Parts -/

/-- Whether a piece counts as a part: a single point does so at the very start only. -/
def Part.counts (p : Part) : Bool :=
  !p.name.isEmpty && (p.name != ['.'] || p.stop == 1)

/-- The parts of a path are its pieces that count. -/
theorem parts_eq_filter (path : String) :
    parts path = (pieces 0 [] path.toList).filter Part.counts := by
  cases h : pieces 0 [] path.toList with
  | nil => rw [parts, h, List.filter_nil]
  | cons first rest =>
    obtain ⟨hfirst, hrest⟩ := stop_of_pieces_eq_cons h
    have hhead : first.counts = !first.name.isEmpty := by
      by_cases hdot : first.name = ['.']
      · have hstop : first.stop = 1 := by simpa [hdot] using hfirst.symm
        simp [Part.counts, hdot, hstop]
      · simp [Part.counts, hdot]
    have htail : rest.filter (fun p => !p.name.isEmpty && p.name != ['.']) =
        rest.filter Part.counts := by
      refine List.filter_congr fun e he => ?_
      have hstop : e.name.length < e.stop := by have := hrest e he; omega
      by_cases hdot : e.name = ['.']
      · have hne : e.stop ≠ 1 := by rw [hdot] at hstop; simp at hstop; omega
        simp [Part.counts, hdot, hne]
      · have hname : (e.name != ['.']) = true := bne_iff_ne.mpr hdot
        rw [Part.counts, hname, Bool.true_or]
    simp only [parts, h, List.filter_cons, hhead, htail]
    cases hempty : first.name.isEmpty <;> simp

/-- A piece that counts has a name. -/
theorem name_of_counts {p : Part} (h : p.counts = true) : p.name ≠ [] := by
  intro hname
  simp [Part.counts, hname] at h

/-- A single point counts as a part only where it fills the text up to the position behind it. -/
theorem stop_of_counts {p : Part} (h : p.counts = true) (hname : p.name = ['.']) : p.stop = 1 := by
  simpa [Part.counts, hname] using h

/-- What does not count as a part is empty or a single point. -/
theorem name_of_not_counts {p : Part} (h : ¬p.counts = true) : p.name = [] ∨ p.name = ['.'] := by
  by_cases hname : p.name = []
  · exact .inl hname
  · refine .inr (Decidable.byContradiction fun hdot => h ?_)
    rw [Part.counts, List.isEmpty_eq_false_iff.mpr hname, bne_iff_ne.mpr hdot]
    rfl

/-! ## Names -/

open FileTree

/-- The names of pieces. -/
def namesOf (ps : List Part) : List String :=
  ((ps.map Part.name).filter (!·.isEmpty)).map String.ofList

/-- The names of pieces are those of their parts in order. -/
theorem namesOf_append (ps qs : List Part) : namesOf (ps ++ qs) = namesOf ps ++ namesOf qs := by
  simp [namesOf]

/-- A piece with a name gives that name. -/
theorem namesOf_singleton {p : Part} (h : p.name ≠ []) : namesOf [p] = [String.ofList p.name] := by
  simp [namesOf, h]

/-- The steps of a path are the names of its pieces. -/
theorem steps_eq_namesOf (path : String) :
    (steps path).1 = namesOf (pieces 0 [] path.toList) := by
  rw [namesOf, map_name_pieces, modifyHead_nil_append]
  rfl

/-- Only single points stand between parts. -/
theorem eq_dot_of_mem_namesOf {ps : List Part} (h : ∀ p ∈ ps, ¬p.counts = true) {name : String}
    (hname : name ∈ namesOf ps) : name = "." := by
  simp only [namesOf, List.mem_map, List.mem_filter] at hname
  obtain ⟨cs, ⟨⟨p, hp, rfl⟩, hne⟩, rfl⟩ := hname
  rcases name_of_not_counts (h p hp) with hempty | hdot
  · simp [hempty] at hne
  · rw [hdot]

/-- Whether a path is absolute shows in its first character. -/
theorem isAbsolute_ofList_take {path : String} {n : Nat} (h : 0 < n) :
    isAbsolute (String.ofList (path.toList.take n)) = isAbsolute path := by
  rw [isAbsolute, isAbsolute, String.toList_ofList]
  cases path.toList with
  | nil => rw [List.take_nil]
  | cons c cs =>
    obtain ⟨k, rfl⟩ : ∃ k, n = k + 1 := ⟨n - 1, by omega⟩
    rfl

/-- What the last part of a path has to do with its parent: its name follows the names of the parent, and
nothing but single points stand around it. A single point is the last part only where it is the only one. -/
structure EndsIn (path parent last : String) : Prop where
  isAbsolute_eq : isAbsolute parent = isAbsolute path
  steps_eq : ∃ before after, (∀ name ∈ before ++ after, name = ".") ∧
    (steps path).1 = (steps parent).1 ++ before ++ last :: after
  dot : last = "." → (steps parent).1 = []

/-- Around the last part that counts the steps of a path have only points. -/
theorem steps_of_pieces_eq {path : String} (before : List Part) {between after : List Part} {p : Part}
    (h : pieces 0 [] path.toList = before ++ (between ++ p :: after))
    (hbetween : ∀ q ∈ between, ¬q.counts = true) (hp : p.counts = true)
    (hafter : ∀ q ∈ after, ¬q.counts = true) :
    ∃ dots dots', (∀ name ∈ dots ++ dots', name = ".") ∧
      (steps path).1 = namesOf before ++ dots ++ String.ofList p.name :: dots' := by
  refine ⟨namesOf between, namesOf after, fun name hname => ?_, ?_⟩
  · rcases List.mem_append.mp hname with hname | hname
    · exact eq_dot_of_mem_namesOf hbetween hname
    · exact eq_dot_of_mem_namesOf hafter hname
  · rw [steps_eq_namesOf, h, namesOf_append, namesOf_append, ← List.singleton_append,
      namesOf_append, namesOf_singleton (name_of_counts hp), List.append_assoc,
      List.singleton_append]

/-- The names of a path up to the position behind a piece. -/
theorem steps_take {path : String} {before after : List Part} {p : Part}
    (h : pieces 0 [] path.toList = before ++ p :: after) :
    (steps (String.ofList (path.toList.take p.stop))).1 = namesOf (before ++ [p]) := by
  have hnames := (map_name_of_pieces_eq h).2
  rw [modifyHead_nil_append, Nat.sub_zero] at hnames
  rw [namesOf, hnames, steps, String.toList_ofList]

/-- A path with a single part has no names above it. -/
theorem endsIn_root {path : String} {between after : List Part} {p : Part}
    (h : pieces 0 [] path.toList = between ++ p :: after) (hbetween : ∀ q ∈ between, ¬q.counts = true)
    (hp : p.counts = true) (hafter : ∀ q ∈ after, ¬q.counts = true) :
    EndsIn path (if isAbsolute path then "/" else "") (String.ofList p.name) := by
  obtain ⟨dots, dots', hdots, hsteps⟩ := steps_of_pieces_eq [] h hbetween hp hafter
  have hparent : (steps (if isAbsolute path then "/" else "")).1 = [] := by
    cases isAbsolute path <;> rfl
  refine ⟨?_, ⟨dots, dots', hdots, ?_⟩, fun _ => hparent⟩
  · cases isAbsolute path <;> rfl
  · rw [hsteps, hparent]
    rfl

/-- Where another part comes before the last one, a path up to the position behind it is the parent. -/
theorem endsIn_take {path : String} {before between after : List Part} {q p : Part}
    (h : pieces 0 [] path.toList = before ++ q :: (between ++ p :: after)) (hq : q.counts = true)
    (hbetween : ∀ r ∈ between, ¬r.counts = true) (hp : p.counts = true)
    (hafter : ∀ r ∈ after, ¬r.counts = true) :
    EndsIn path (String.ofList (path.toList.take q.stop)) (String.ofList p.name) := by
  have hstop : 0 < q.stop := by
    have hlength := length_name_le_stop (h ▸ by simp : q ∈ pieces 0 [] path.toList)
    have hne := List.length_pos_iff.mpr (name_of_counts hq)
    rw [List.length_nil] at hlength
    omega
  obtain ⟨dots, dots', hdots, hsteps⟩ :=
    steps_of_pieces_eq (before ++ [q]) (by rw [h]; simp) hbetween hp hafter
  refine ⟨isAbsolute_ofList_take hstop, ⟨dots, dots', hdots, by rw [hsteps, steps_take h]⟩, ?_⟩
  intro hdot
  have hname : p.name = ['.'] := by simpa using congrArg String.toList hdot
  have hfirst := stop_of_counts hp hname
  have hlater := stop_of_mem_later h (show p ∈ between ++ p :: after by simp)
  rw [hname, List.length_singleton] at hlater
  omega

/-- A path with a parent ends in the name of its last part. -/
theorem endsIn_of_parent? {path parent : String} (h : parent? path = some parent) :
    ∃ p, (parts path).getLast? = some p ∧ EndsIn path parent (String.ofList p.name) := by
  have hfilter := parts_eq_filter path
  rw [parent?] at h
  split at h
  case h_1 => cases h
  case h_2 p hreverse =>
    have hparts : parts path = [p] := by simpa using congrArg List.reverse hreverse
    rw [hparts] at hfilter
    obtain ⟨between, after, hpieces, hbetween, hp, hafter⟩ :=
      List.filter_eq_cons_iff.mp hfilter.symm
    cases h
    exact ⟨p, by rw [hparts]; rfl,
      endsIn_root hpieces hbetween hp (List.filter_eq_nil_iff.mp hafter)⟩
  case h_3 p q earlier hreverse =>
    have hparts : parts path = earlier.reverse ++ [q, p] := by
      simpa using congrArg List.reverse hreverse
    rw [hparts] at hfilter
    obtain ⟨before, rest, hpieces, -, hrest⟩ := List.filter_eq_append_iff.mp hfilter.symm
    obtain ⟨dropped, rest', rfl, -, hq, hrest'⟩ := List.filter_eq_cons_iff.mp hrest
    obtain ⟨between, after, rfl, hbetween, hp, hafter⟩ := List.filter_eq_cons_iff.mp hrest'
    rw [← List.append_assoc] at hpieces
    cases h
    exact ⟨p, by rw [hparts]; simp,
      endsIn_take hpieces hq hbetween hp (List.filter_eq_nil_iff.mp hafter)⟩

/-- A name is a part without a slash. -/
theorem slash_not_mem_name {start : Nat} {current cs : List Char} (h : '/' ∉ current) {e : Part}
    (he : e ∈ pieces start current cs) : '/' ∉ e.name := by
  have hreverse : '/' ∉ current.reverse := fun hmem => h (List.mem_reverse.mp hmem)
  induction cs generalizing start current with
  | nil =>
    rw [pieces, List.mem_singleton] at he
    rwa [he]
  | cons c cs ih =>
    by_cases hc : c = '/'
    · subst hc
      rcases List.mem_cons.mp he with rfl | he
      · exact hreverse
      · exact ih List.not_mem_nil he (by simp)
    · rw [pieces_of_ne hc] at he
      have hcurrent : '/' ∉ c :: current := by
        rw [List.mem_cons, not_or]
        exact ⟨fun hslash => hc hslash.symm, h⟩
      exact ih hcurrent he fun hmem => hcurrent (List.mem_reverse.mp hmem)

/-- The last name of a path is that of its last part, and no point. -/
theorem getLast?_parts_of_fileName? {path name : String} (h : fileName? path = some name) :
    ∃ p, (parts path).getLast? = some p ∧ name = String.ofList p.name ∧
      p.name ≠ ['.'] ∧ p.name ≠ ['.', '.'] := by
  rw [fileName?] at h
  split at h
  case h_2 => cases h
  case h_1 p hlast =>
    split at h
    · cases h
    · rename_i hdots
      cases h
      exact ⟨p, hlast, rfl, not_or.mp hdots⟩

/-- A path with a last name has a parent. -/
theorem exists_parent {path name : String} (h : fileName? path = some name) :
    ∃ parent, parent? path = some parent := by
  obtain ⟨p, hlast, -⟩ := getLast?_parts_of_fileName? h
  rw [parent?]
  split
  · rename_i hreverse
    rw [List.reverse_eq_nil_iff.mp hreverse] at hlast
    cases hlast
  · exact ⟨_, rfl⟩
  · exact ⟨_, rfl⟩

/-- A path with a last name ends in that name. -/
theorem endsIn_of_fileName? {path parent name : String} (hname : fileName? path = some name)
    (hparent : parent? path = some parent) : EndsIn path parent name := by
  obtain ⟨p, hlast, rfl, -⟩ := getLast?_parts_of_fileName? hname
  obtain ⟨q, hq, hends⟩ := endsIn_of_parent? hparent
  rw [hlast, Option.some.injEq] at hq
  rwa [hq]

/-- The last name of a path is no point and has no slash. -/
theorem name_of_fileName? {path name : String} (h : fileName? path = some name) :
    name ≠ "." ∧ name ≠ ".." ∧ '/' ∉ name.toList := by
  obtain ⟨p, hlast, rfl, hdot, hdots⟩ := getLast?_parts_of_fileName? h
  have hmem : p ∈ pieces 0 [] path.toList := by
    have hparts := List.mem_of_getLast? hlast
    rw [parts_eq_filter] at hparts
    exact (List.mem_filter.mp hparts).1
  refine ⟨fun heq => hdot ?_, fun heq => hdots ?_, ?_⟩
  · simpa using congrArg String.toList heq
  · simpa using congrArg String.toList heq
  · rw [String.toList_ofList]
    exact slash_not_mem_name List.not_mem_nil hmem

/-! ## Joined paths -/

/-- A path without slashes is relative. -/
theorem isAbsolute_eq_false {name : String} (h : '/' ∉ name.toList) : isAbsolute name = false := by
  rw [isAbsolute]
  cases hname : name.toList with
  | nil => rfl
  | cons c cs =>
    have hc : c ≠ '/' := fun hslash => h (by rw [hname, hslash]; exact List.mem_cons_self)
    simpa using hc

/-- What follows a path does not make it absolute or relative. -/
theorem isAbsolute_append {directory rest : String} (h : directory ≠ "") :
    isAbsolute (directory ++ rest) = isAbsolute directory := by
  rw [isAbsolute, isAbsolute, String.toList_append]
  cases hdirectory : directory.toList with
  | nil => exact absurd (String.toList_eq_nil_iff.mp hdirectory) h
  | cons c cs => rfl

/-- A name in a directory comes after the names of the directory. -/
theorem steps_join (directory : String) {name : String} (hname : '/' ∉ name.toList)
    (hne : name ≠ "") : steps (join directory name) = ((steps directory).1 ++ [name], false) := by
  have hsplit : name.toList.splitOn '/' = [name.toList] := List.splitOn_eq_singleton hname
  have hchars : name.toList ≠ [] := fun h => hne (String.toList_eq_nil_iff.mp h)
  rw [join, isAbsolute_eq_false hname, if_neg Bool.false_ne_true]
  split
  · rename_i hend
    rw [Bool.or_eq_true, String.isEmpty_iff, beq_iff_eq] at hend
    rcases hend with rfl | hslash
    · simp [steps, hsplit, hchars]
    · obtain ⟨before, hdirectory⟩ := List.getLast?_eq_some_iff.mp hslash
      simp [steps, hdirectory, List.splitOn_append_cons_self, hsplit, hchars]
  · have hslash : "/".toList = ['/'] := rfl
    simp [steps, hslash, List.splitOn_append_cons_self, hsplit, hchars]

/-- A name in a directory is absolute if the directory is. -/
theorem isAbsolute_join (directory : String) {name : String} (hname : '/' ∉ name.toList) :
    isAbsolute (join directory name) = isAbsolute directory := by
  rw [join, isAbsolute_eq_false hname, if_neg Bool.false_ne_true]
  by_cases hdirectory : directory = ""
  · subst hdirectory
    simp [isAbsolute_eq_false hname]
    rfl
  · split
    · exact isAbsolute_append hdirectory
    · rw [String.append_assoc]
      exact isAbsolute_append hdirectory

end Path

namespace StateFile

open FileTree

/-- The temporary name of a file with a last name stands in the directory of the file. -/
theorem steps_temporary_of_some {path parent name : String} (hname : Path.fileName? path = some name)
    (hparent : Path.parent? path = some parent) :
    steps (temporary path) = ((steps parent).1 ++ [name ++ ".tmp"], false) ∧
      Path.isAbsolute (temporary path) = Path.isAbsolute parent := by
  have hslash : '/' ∉ (name ++ ".tmp").toList := by
    rw [String.toList_append, List.mem_append, not_or]
    exact ⟨(Path.name_of_fileName? hname).2.2, by decide⟩
  have hne : name ++ ".tmp" ≠ "" := fun h => by
    have hlength := congrArg String.length h
    simp at hlength
  have htemporary : temporary path = Path.join parent (name ++ ".tmp") := by
    simp only [temporary, Path.withFileName, hname, hparent, Option.getD_some]
  rw [htemporary]
  exact ⟨Path.steps_join parent hslash hne, Path.isAbsolute_join parent hslash⟩

/-- Where a path ends in no name, the temporary file stands in what the path names. -/
theorem steps_temporary_of_none {path : String} (hname : Path.fileName? path = none) :
    steps (temporary path) = ((steps path).1 ++ [".tmp"], false) ∧
      Path.isAbsolute (temporary path) = Path.isAbsolute path := by
  have htemporary : temporary path = Path.join path ".tmp" := by
    simp only [temporary, Path.withFileName, hname, Option.getD_none]
    rfl
  have hslash : '/' ∉ ".tmp".toList := by decide
  rw [htemporary]
  exact ⟨Path.steps_join path hslash (by decide), Path.isAbsolute_join path hslash⟩

end StateFile

end Milestone
