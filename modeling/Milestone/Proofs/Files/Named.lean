import Milestone.Proofs.Files.Path
import Milestone.Proofs.Files.Walk
import Mathlib.Data.List.Nodup

/-!
# Names in a directory

In a tree that comes from a system every location is there once and has names that a path can give. Then a
listing of a directory tells exactly what stands in it, and the path of a listed name leads to what was listed.
-/

namespace Milestone

/-- Whether a name can stand in a directory: it is not empty, no point, without slashes and zero characters, and
not too long for the system. -/
structure Path.IsName (name : String) : Prop where
  ne_empty : name ≠ ""
  ne_dot : name ≠ "."
  ne_dots : name ≠ ".."
  no_slash : '/' ∉ name.toList
  no_zero : ∀ c ∈ name.toList, c.toNat ≠ 0
  short : Path.isLongName name = false

namespace Path

/-- What it takes to be a name can be checked. -/
theorem isName_iff {name : String} : IsName name ↔ name ≠ "" ∧ name ≠ "." ∧ name ≠ ".." ∧
    '/' ∉ name.toList ∧ name.toList.all (·.toNat != 0) = true ∧ isLongName name = false := by
  simp only [List.all_eq_true, bne_iff_ne]
  exact ⟨fun h => ⟨h.1, h.2, h.3, h.4, h.5, h.6⟩, fun ⟨h1, h2, h3, h4, h5, h6⟩ => ⟨h1, h2, h3, h4, h5, h6⟩⟩

instance (name : String) : Decidable (IsName name) :=
  decidable_of_iff' _ isName_iff

/-! ## Paths of names -/

/-- A text without slashes is a single piece. -/
theorem pieces_of_no_slash {cs : List Char} (h : '/' ∉ cs) (start : Nat) (current : List Char) :
    pieces start current cs = [⟨current.reverse ++ cs, start + cs.length⟩] := by
  induction cs generalizing start current with
  | nil => simp [pieces]
  | cons c cs ih =>
    have hc : c ≠ '/' := fun heq => h (heq ▸ List.mem_cons_self)
    rw [pieces_of_ne hc, ih fun hmem => h (List.mem_cons_of_mem _ hmem)]
    simp only [List.reverse_cons, List.append_assoc, List.singleton_append, List.length_cons]
    congr 2
    omega

/-- The pieces behind a slash come after those before it. -/
theorem pieces_append_slash (start : Nat) (current cs ds : List Char) :
    pieces start current (cs ++ '/' :: ds) =
      pieces start current cs ++ pieces (start + cs.length + 1) [] ds := by
  induction cs generalizing start current with
  | nil => rfl
  | cons c cs ih =>
    have hstop : start + 1 + cs.length + 1 = start + (c :: cs).length + 1 := by
      rw [List.length_cons]
      omega
    by_cases hc : c = '/'
    · subst hc
      rw [List.cons_append, pieces_slash, pieces_slash, ih, hstop, List.cons_append]
    · rw [List.cons_append, pieces_of_ne hc, pieces_of_ne hc, ih, hstop]

/-- The path of a name in a directory is the path of the directory, with a slash at its end, and the name. -/
theorem exists_toList_join (directory : String) :
    ∃ before, (before = [] ∨ before.getLast? = some '/') ∧
      (∀ c ∈ before, c ∈ directory.toList ∨ c = '/') ∧
      ∀ name : String, '/' ∉ name.toList → (join directory name).toList = before ++ name.toList := by
  by_cases hend : (directory.isEmpty || directory.toList.getLast? == some '/') = true
  · refine ⟨directory.toList, ?_, fun c hc => .inl hc, fun name hname => ?_⟩
    · rw [Bool.or_eq_true, String.isEmpty_iff, beq_iff_eq] at hend
      exact hend.imp_left String.toList_eq_nil_iff.mpr
    · rw [join, isAbsolute_eq_false hname, if_neg Bool.false_ne_true, if_pos hend,
        String.toList_append]
  · refine ⟨directory.toList ++ ['/'], .inr List.getLast?_concat, fun c hc => ?_, fun name hname => ?_⟩
    · rwa [List.mem_append, List.mem_singleton] at hc
    · rw [join, isAbsolute_eq_false hname, if_neg Bool.false_ne_true, if_neg hend,
        String.toList_append, String.toList_append]
      rfl

/-- The last piece of a name in a directory is the name. -/
theorem exists_pieces_join (directory : String) {name : String} (h : '/' ∉ name.toList) :
    ∃ earlier stop, pieces 0 [] (join directory name).toList = earlier ++ [⟨name.toList, stop⟩] := by
  obtain ⟨before, hend, -, hjoin⟩ := exists_toList_join directory
  rw [hjoin name h]
  rcases hend with rfl | hslash
  · exact ⟨[], _, pieces_of_no_slash h 0 []⟩
  · obtain ⟨above, rfl⟩ := List.getLast?_eq_some_iff.mp hslash
    refine ⟨pieces 0 [] above, 0 + above.length + 1 + name.toList.length, ?_⟩
    rw [List.append_assoc, List.singleton_append, pieces_append_slash, pieces_of_no_slash h]
    rfl

/-- The last name of a name in a directory is that name. -/
theorem fileName?_join (directory : String) {name : String} (h : IsName name) :
    fileName? (join directory name) = some name := by
  obtain ⟨earlier, stop, hpieces⟩ := exists_pieces_join directory h.no_slash
  have hne : name.toList ≠ [] := fun hnil => h.ne_empty (String.toList_eq_nil_iff.mp hnil)
  have hdot : name.toList ≠ ['.'] := fun heq => h.ne_dot (String.toList_inj.mp heq)
  have hdots : name.toList ≠ ['.', '.'] := fun heq => h.ne_dots (String.toList_inj.mp heq)
  have hcounts : Part.counts ⟨name.toList, stop⟩ = true := by
    simp [Part.counts, hne, hdot]
  rw [fileName?, parts_eq_filter, hpieces, List.filter_append, List.filter_cons_of_pos hcounts,
    List.filter_nil, List.getLast?_append_of_ne_nil _ (List.cons_ne_nil _ _)]
  simp [hdot, hdots]

/-- In one directory the order of names is that of their paths. -/
theorem join_lt_join_iff (directory : String) {a b : String} (ha : '/' ∉ a.toList)
    (hb : '/' ∉ b.toList) : join directory a < join directory b ↔ a < b := by
  obtain ⟨before, -, -, hjoin⟩ := exists_toList_join directory
  show (join directory a).toList < (join directory b).toList ↔ a.toList < b.toList
  rw [hjoin a ha, hjoin b hb]
  clear hjoin
  induction before with
  | nil => rfl
  | cons c cs ih => rw [List.cons_append, List.cons_append, List.cons_lt_cons_self, ih]

/-- The system takes the path of a name if it takes that of the directory, unless it is too long. -/
theorem pathFault?_join {directory name : String} (h : FileTree.pathFault? directory = none)
    (hname : IsName name) (hshort : isLong (join directory name) = false) :
    FileTree.pathFault? (join directory name) = none := by
  obtain ⟨before, -, hbefore, hjoin⟩ := exists_toList_join directory
  have hdirectory : ∀ c ∈ directory.toList, c.toNat ≠ 0 := by
    intro c hc hzero
    have hany : directory.toList.any (·.toNat == 0) = true :=
      List.any_eq_true.mpr ⟨c, hc, beq_iff_eq.mpr hzero⟩
    rw [FileTree.pathFault?, hany] at h
    cases h
  have hzero : (join directory name).toList.any (·.toNat == 0) = false := by
    rw [List.any_eq_false, hjoin name hname.no_slash]
    intro c hc
    rw [beq_iff_eq]
    rcases List.mem_append.mp hc with hc | hc
    · rcases hbefore c hc with hc | rfl
      · exact hdirectory c hc
      · decide
    · exact hname.no_zero c hc
  rw [FileTree.pathFault?, hzero, hshort]
  rfl

end Path

namespace FileTree

variable {t u : FileTree}

/-- A tree whose locations are there once and have names that can stand in a directory. -/
structure IsNamed (t : FileTree) : Prop where
  nodup : (t.entries.map Entry.place).Nodup
  name : ∀ e ∈ t.entries, ∀ name ∈ e.place, Path.IsName name
  working : ∀ name ∈ t.working, Path.IsName name

/-- What is found at a location is an entry of that place. -/
theorem mem_of_entryAt? {place : Location} {e : Entry} (h : t.entryAt? place = some e) :
    e ∈ t.entries ∧ e.place = place := by
  rw [entryAt?] at h
  have hat := List.find?_some h
  exact ⟨List.mem_of_find?_eq_some h, (e.isAt_iff place).mp hat⟩

/-- What stands at a location other than the root is there by an entry. -/
theorem mem_of_node? {place : Location} (hplace : place ≠ []) {node : Node}
    (h : t.node? place = some node) : ∃ e ∈ t.entries, e.place = place ∧ e.node = node := by
  rw [node?, if_neg (by simpa using hplace), Option.map_eq_some_iff] at h
  obtain ⟨e, hentry, hnode⟩ := h
  obtain ⟨he, hsame⟩ := mem_of_entryAt? hentry
  exact ⟨e, he, hsame, hnode⟩

/-- What an entry tells of its location stands there. -/
theorem IsNamed.node?_of_mem (h : t.IsNamed) {e : Entry} (he : e ∈ t.entries) (hplace : e.place ≠ []) :
    t.node? e.place = some e.node := by
  have hself : e.isAt e.place.length e.place = true := (e.isAt_iff e.place).mpr rfl
  obtain ⟨first, hfirst⟩ : ∃ first, t.entryAt? e.place = some first :=
    Option.isSome_iff_exists.mp (List.find?_isSome.mpr ⟨e, he, hself⟩)
  obtain ⟨hmem, hsame⟩ := mem_of_entryAt? hfirst
  have heq : first = e := List.inj_on_of_nodup_map h.nodup hmem he hsame
  rw [node?, if_neg (by simpa using hplace), hfirst, heq, Option.map_some]

/-- A location at which something stands has names that can stand in a directory. -/
theorem IsNamed.isName (h : t.IsNamed) {place : Location} {node : Node} (hnode : t.node? place = some node)
    {name : String} (hname : name ∈ place) : Path.IsName name := by
  obtain ⟨e, he, rfl, -⟩ := mem_of_node? (List.ne_nil_of_mem hname) hnode
  exact h.name e he name hname

/-- A listing tells exactly what stands in the directory. -/
theorem IsNamed.mem_children_iff (h : t.IsNamed) {place : Location} {name : String} {node : Node} :
    (name, node) ∈ t.children place ↔ t.node? (place ++ [name]) = some node := by
  simp only [children, List.mem_filterMap, Option.ite_none_right_eq_some, Option.map_eq_some_iff,
    Prod.mk.injEq, Entry.isWithin, List.isPrefixOf_iff_prefix]
  constructor
  · rintro ⟨e, he, ⟨hdepth, rest, hrest⟩, last, hlast, rfl, rfl⟩
    rw [e.depth_eq, ← hrest, List.length_append, Nat.add_left_cancel_iff] at hdepth
    obtain ⟨name, rfl⟩ := List.length_eq_one_iff.mp hdepth
    rw [← hrest, List.getLast?_concat, Option.some.injEq] at hlast
    rw [← hlast, hrest]
    exact h.node?_of_mem he (by simp [← hrest])
  · intro hnode
    obtain ⟨e, he, hplace, rfl⟩ := mem_of_node? (by simp) hnode
    refine ⟨e, he, ⟨?_, ?_⟩, name, ?_, rfl, rfl⟩
    · rw [e.depth_eq, hplace, List.length_append, List.length_singleton]
    · rw [hplace]
      exact List.prefix_append _ _
    · rw [hplace, List.getLast?_concat]

/-- A directory can be listed exactly if the path leads to it. -/
theorem list_eq_ok_iff {path : String} {kids : List (String × Node)} :
    t.list path = .ok kids ↔ ∃ place, t.locate path = .ok place ∧
      t.shown? place = some (.directory 0) ∧ kids = t.children place := by
  rw [list, find]
  cases t.locate path with
  | error cause => simp [bind, Except.bind]
  | ok place =>
    simp only [bind, Except.bind, Except.ok.injEq, exists_eq_left', shown?]
    cases t.node? place with
    | none => simp [throw, throwThe, MonadExceptOf.throw]
    | some node =>
      cases node with
      | file text time => cases (steps path).2 <;> simp [Node.isDirectory, Node.touch, throw, throwThe,
          MonadExceptOf.throw, pure, Except.pure]
      | directory time => simp [Node.isDirectory, Node.touch, pure, Except.pure, eq_comm]

/-- A path that leads somewhere is one that the system takes. -/
theorem pathFault?_of_locate {path : String} {place : Location} (h : t.locate path = .ok place) :
    pathFault? path = none := by
  rw [locate] at h
  split at h
  · cases h
  · split at h
    · cases h
    · assumption

/-- The path of a name in a directory leads into the directory, unless it is too long for the system. -/
theorem locate_join {directory name : String} {place : Location} (hlocate : t.locate directory = .ok place)
    (hplace : t.shown? place = some (.directory 0)) (hname : Path.IsName name)
    (hshort : Path.isLong (Path.join directory name) = false) :
    t.locate (Path.join directory name) = .ok (place ++ [name]) := by
  have hfault := Path.pathFault?_join (pathFault?_of_locate hlocate) hname hshort
  have hne : ¬(Path.join directory name).isEmpty = true := by
    intro hempty
    have hsteps := Path.steps_join directory hname.no_slash hname.ne_empty
    rw [String.isEmpty_iff.mp hempty] at hsteps
    simp [steps] at hsteps
  rw [locate_eq_walk hlocate t] at hlocate
  rw [locate, if_neg hne, hfault, Path.isAbsolute_join directory hname.no_slash,
    Path.steps_join directory hname.no_slash hname.ne_empty]
  dsimp only
  rw [walk_append, ← FileTree.start, hlocate]
  simp only [Except.bind]
  rw [walk_of_directory hplace, if_neg hname.ne_dot, if_neg hname.ne_dots, hname.short,
    if_neg Bool.false_ne_true]
  rfl

/-- The path of a listed name leads to what was listed, unless it is too long for the system. -/
theorem IsNamed.readText_join (h : t.IsNamed) {directory name text : String} {node : Node}
    {kids : List (String × Node)} (hlist : t.list directory = .ok kids) (hkid : (name, node) ∈ kids)
    (hshort : Path.isLong (Path.join directory name) = false) :
    t.readText (Path.join directory name) = .ok text ↔ ∃ time, node = .file (some text) time := by
  obtain ⟨place, hlocate, hplace, rfl⟩ := list_eq_ok_iff.mp hlist
  have hnode := h.mem_children_iff.mp hkid
  have hname : Path.IsName name := h.isName hnode (by simp)
  rw [readText_eq, locate_join hlocate hplace hname hshort,
    Path.steps_join directory hname.no_slash hname.ne_empty]
  simp only [Except.bind, shown?, hnode, Option.map_some]
  cases node with
  | directory time => simp [Node.touch]
  | file stored time => cases stored <;> simp [Node.touch]

/-! ## Trees that differ in the files of one directory -/

/-- Whether two trees differ at most in the files that stand directly in a directory. -/
structure SameBut (place : Location) (t u : FileTree) : Prop where
  working : u.working = t.working
  node : ∀ other, u.node? other = t.node? other ∨
    (∃ name, other = place ++ [name]) ∧ t.shown? other ≠ some (.directory 0) ∧
      u.shown? other ≠ some (.directory 0)

namespace SameBut

variable {place : Location}

/-- Such trees differ in no more either way. -/
theorem symm (h : SameBut place t u) : SameBut place u t where
  working := h.working.symm
  node other := (h.node other).imp Eq.symm fun hfile => ⟨hfile.1, hfile.2.2, hfile.2.1⟩

/-- Files aside, one tree has the directories of the other. -/
theorem keepsDirectories (h : SameBut place t u) : t.KeepsDirectories u := by
  intro other hother
  rcases h.node other with hsame | ⟨-, hfile, -⟩
  · rwa [shown?, hsame]
  · exact absurd hother hfile

/-- Directories are told of alike, and elsewhere everything is. -/
theorem node?_iff (h : SameBut place t u) {directory : Location} {name : String} {node : Node}
    (hnode : directory = place → node.isDirectory = true) :
    u.node? (directory ++ [name]) = some node ↔ t.node? (directory ++ [name]) = some node := by
  rcases h.node (directory ++ [name]) with hsame | ⟨⟨other, hother⟩, hfile, hfile'⟩
  · rw [hsame]
  · have hdirectory := hnode (List.append_inj_left' hother rfl)
    cases node with
    | file text time => cases hdirectory
    | directory time =>
      exact iff_of_false (fun hu => hfile' (shown?_eq_directory.mpr ⟨time, hu⟩))
        fun ht => hfile (shown?_eq_directory.mpr ⟨time, ht⟩)

/-- A directory is listed in both trees or in neither, with the same directories in it; and if it is another
directory, with the same files. -/
theorem list (h : SameBut place t u) (ht : t.IsNamed) (hu : u.IsNamed) {path : String}
    {kids : List (String × Node)} (hlist : t.list path = .ok kids) :
    ∃ kids', u.list path = .ok kids' ∧ ∀ name node,
      (t.locate path = .ok place → node.isDirectory = true) →
        ((name, node) ∈ kids' ↔ (name, node) ∈ kids) := by
  obtain ⟨directory, hlocate, hdirectory, rfl⟩ := list_eq_ok_iff.mp hlist
  refine ⟨u.children directory, list_eq_ok_iff.mpr ⟨directory, ?_, ?_, rfl⟩, fun name node hnode => ?_⟩
  · exact h.keepsDirectories.locate h.working hlocate
  · exact h.keepsDirectories _ hdirectory
  · rw [hu.mem_children_iff, ht.mem_children_iff]
    exact h.node?_iff fun hsame => hnode (hsame ▸ hlocate)

end SameBut

/-- Another text for a file, or a file where nothing was, is a difference in its directory. -/
theorem sameBut_put {place : Location} {name : String} (h : t.shown? (place ++ [name]) ≠ some (.directory 0))
    (text : Option String) (time : Int) : SameBut place t (t.put (place ++ [name]) (.file text time)) where
  working := rfl
  node other := by
    by_cases hother : other = place ++ [name]
    · subst hother
      refine .inr ⟨⟨name, rfl⟩, h, ?_⟩
      rw [shown?_put t _ (by simp), if_pos rfl]
      simp [Node.touch]
    · exact .inl (node?_put_of_ne t _ hother)

end FileTree

end Milestone
