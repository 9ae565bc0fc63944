/-!
# Keyed entries in key order

A finite map from texts to values, kept as a list of entries whose keys increase strictly. The
order of texts is that of their characters' code points. Main facts: the entries determine the
map, and `get?` answers for `insert`, `erase` and `ofList` as a map should.
-/

namespace Milestone

/-- A finite map from texts, listed by increasing key. -/
structure Keyed (α : Type) where
  entries : List (String × α)
  sorted : entries.Pairwise fun a b => a.1 < b.1
  deriving DecidableEq

namespace Keyed

variable {α β : Type}

/-- Maps with the same entries are the same. -/
@[ext] theorem ext {a b : Keyed α} (h : a.entries = b.entries) : a = b := by
  cases a; cases b; simp_all

/-- The map without entries. -/
def empty : Keyed α := ⟨[], .nil⟩

instance : EmptyCollection (Keyed α) where
  emptyCollection := empty

instance : Inhabited (Keyed α) where
  default := ∅

/-- The value under a key. -/
def get? (m : Keyed α) (key : String) : Option α :=
  m.entries.lookup key

/-- Places a value among increasing entries, in the stead of one with the same key. -/
def insertInto (key : String) (value : α) : List (String × α) → List (String × α)
  | [] => [(key, value)]
  | (k, v) :: rest =>
    if key < k then (key, value) :: (k, v) :: rest
    else if k < key then (k, v) :: insertInto key value rest
    else (key, value) :: rest

/-- Every key of an insertion is the new one or was there. -/
theorem mem_insertInto {key : String} {value : α} {entries : List (String × α)}
    {e : String × α} (h : e ∈ insertInto key value entries) : e = (key, value) ∨ e ∈ entries := by
  induction entries with
  | nil => simpa [insertInto] using h
  | cons entry rest ih =>
    obtain ⟨k, v⟩ := entry
    rw [insertInto] at h
    split at h
    · simpa using h
    · split at h
      · rcases List.mem_cons.mp h with h | h
        · exact .inr (h ▸ List.mem_cons_self)
        · exact (ih h).imp_right (List.mem_cons_of_mem _)
      · rcases List.mem_cons.mp h with h | h
        · exact .inl h
        · exact .inr (List.mem_cons_of_mem _ h)

/-- Entries stay in the order of their keys. -/
theorem pairwise_insertInto (key : String) (value : α) {entries : List (String × α)}
    (h : entries.Pairwise fun a b => a.1 < b.1) :
    (insertInto key value entries).Pairwise fun a b => a.1 < b.1 := by
  induction entries with
  | nil => simp [insertInto]
  | cons entry rest ih =>
    obtain ⟨k, v⟩ := entry
    have hk := (List.pairwise_cons.mp h).1
    have hr := (List.pairwise_cons.mp h).2
    rw [insertInto]
    split
    · rename_i hlt
      refine List.pairwise_cons.mpr ⟨fun e he => ?_, h⟩
      rcases List.mem_cons.mp he with he | he
      · exact he ▸ hlt
      · exact String.lt_trans hlt (hk e he)
    · split
      · rename_i hnlt hlt
        refine List.pairwise_cons.mpr ⟨fun e he => ?_, ih hr⟩
        rcases mem_insertInto he with he | he
        · exact he ▸ hlt
        · exact hk e he
      · rename_i hnlt hngt
        have heq : key = k := String.le_antisymm (String.not_lt.mp hngt) (String.not_lt.mp hnlt)
        exact List.pairwise_cons.mpr ⟨fun e he => heq ▸ hk e he, hr⟩

/-- The map with a value under a key, in the stead of an earlier one. -/
def insert (m : Keyed α) (key : String) (value : α) : Keyed α :=
  ⟨insertInto key value m.entries, pairwise_insertInto key value m.sorted⟩

/-- The map without a key. -/
def erase (m : Keyed α) (key : String) : Keyed α :=
  ⟨m.entries.filter (·.1 != key), m.sorted.filter _⟩

/-- The map of a list of entries; of two with one key the later counts. -/
def ofList (entries : List (String × α)) : Keyed α :=
  entries.foldl (fun m e => m.insert e.1 e.2) ∅

/-- The empty map has nothing under any key. -/
@[simp] theorem get?_empty (key : String) : (∅ : Keyed α).get? key = none := rfl

/-- A key is looked up in the first entry, and then in the rest. -/
theorem lookup_cons_ite (k key : String) (value : α) (rest : List (String × α)) :
    ((key, value) :: rest).lookup k = if k = key then some value else rest.lookup k := by
  by_cases h : k = key
  · subst h; simp
  · simp [List.lookup_cons, beq_eq_false_iff_ne.mpr h, h]

/-- An inserted value is found under its key, and nothing else changes. -/
theorem lookup_insertInto (key : String) (value : α) (entries : List (String × α)) (k : String) :
    (insertInto key value entries).lookup k =
      if k = key then some value else entries.lookup k := by
  induction entries with
  | nil => rw [insertInto, lookup_cons_ite]
  | cons entry rest ih =>
    obtain ⟨k', v'⟩ := entry
    rw [insertInto]
    split
    · rw [lookup_cons_ite]
    · split
      · rename_i hnlt hlt
        have hne : k' ≠ key := fun h => String.lt_irrefl _ (h ▸ hlt)
        rw [lookup_cons_ite, lookup_cons_ite, ih]
        by_cases h : k = k'
        · simp [h, hne]
        · simp [h]
      · rename_i hnlt hngt
        have heq : key = k' := String.le_antisymm (String.not_lt.mp hngt) (String.not_lt.mp hnlt)
        rw [lookup_cons_ite, lookup_cons_ite, heq]
        by_cases h : k = k' <;> simp [h]

/-- After an insertion its key shows the new value and every other key what it showed. -/
theorem get?_insert (m : Keyed α) (key : String) (value : α) (k : String) :
    (m.insert key value).get? k = if k = key then some value else m.get? k :=
  lookup_insertInto key value m.entries k

/-- Without the entries of a key nothing is found under it, and nothing else changes. -/
theorem lookup_filter_bne (key : String) (entries : List (String × α)) (k : String) :
    (entries.filter (·.1 != key)).lookup k = if k = key then none else entries.lookup k := by
  induction entries with
  | nil => simp
  | cons entry rest ih =>
    obtain ⟨k', v'⟩ := entry
    rw [lookup_cons_ite]
    by_cases h' : k' = key
    · subst h'
      simp only [List.filter_cons, bne_self_eq_false, Bool.false_eq_true, if_false, ih]
      by_cases h : k = k' <;> simp [h]
    · have hb : (k' != key) = true := by simpa using h'
      simp only [List.filter_cons, hb, if_true, lookup_cons_ite, ih]
      by_cases h : k = k'
      · simp [h, h']
      · simp [h]

/-- Erasing a key hides it and no other. -/
theorem get?_erase (m : Keyed α) (key k : String) :
    (m.erase key).get? k = if k = key then none else m.get? k :=
  lookup_filter_bne key m.entries k

/-- Of inserted entries the last one of a key is found, or else what was there before. -/
theorem get?_foldl_insert (entries : List (String × α)) (m : Keyed α) (key : String) :
    (entries.foldl (fun m e => m.insert e.1 e.2) m).get? key =
      (entries.reverse.lookup key).or (m.get? key) := by
  induction entries generalizing m with
  | nil => simp
  | cons e rest ih =>
    rw [List.foldl_cons, ih, List.reverse_cons, List.lookup_append, get?_insert, lookup_cons_ite]
    cases rest.reverse.lookup key <;> by_cases h : key = e.1 <;> simp [h]

/-- A list of entries shows for each key the last of its values. -/
theorem get?_ofList (entries : List (String × α)) (key : String) :
    (ofList entries).get? key = entries.reverse.lookup key := by
  simp [ofList, get?_foldl_insert]

/-- Every key stands once. -/
theorem nodup_keys (m : Keyed α) : (m.entries.map (·.1)).Nodup := by
  refine List.pairwise_map.mpr (m.sorted.imp fun {a b} hlt heq => ?_)
  rw [heq] at hlt
  exact String.lt_irrefl _ hlt

end Keyed

end Milestone
