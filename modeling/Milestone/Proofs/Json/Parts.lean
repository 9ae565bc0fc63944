import Mathlib.Data.List.Forall2
import Mathlib.Data.List.Induction
import Milestone.Json.Record
import Milestone.Proofs.Json.Lookup

/-!
# Where the fields of a record stand in a text

A record is an object or an array of its fields, and some records are read from the tree of a text while others
pass through a value first, in which an object has each key once. This file finds the fields in the tree in either
case: in an object a field is the last member of its name, in an array the item at its place. The keys of an
object that has passed through a value are those of the text in the order in which they first occur, each with
its last value there.
-/

namespace Milestone.Json

/-- The part of a tree that stands for a field of a record. -/
def Tree.part? (names : List String) (name : String) : Tree → Option Tree
  | .object members => members.reverse.lookup name
  | .array items => items[names.idxOf name]?
  | _ => none

section Merge

/-- Setting a member keeps the order in which the keys first occur. -/
theorem map_fst_setMember_eraseDups {α : Type} {members : List (String × α)} {keys : List String}
    (h : members.map (·.1) = keys.eraseDups) (key : String) (v : α) :
    (setMember members key v).map (·.1) = (keys ++ [key]).eraseDups := by
  rw [map_fst_setMember, h, List.eraseDups_append, List.removeAll]
  by_cases hmem : key ∈ keys
  · rw [if_pos (List.mem_eraseDups.mpr hmem)]
    simp [hmem]
  · rw [if_neg fun hkey => hmem (List.mem_eraseDups.mp hkey)]
    simp [hmem, List.eraseDups_cons]

variable {α : Type} (members : List (String × α))

/-- The keys of merged members stand in the order in which they first occur. -/
theorem map_fst_mergeMembers : (mergeMembers members).map (·.1) = (members.map (·.1)).eraseDups := by
  induction members using List.reverseRecOn with
  | nil => rfl
  | append_singleton rest m ih =>
    have hstep : mergeMembers (rest ++ [m]) = setMember (mergeMembers rest) m.1 m.2 := by
      rw [mergeMembers, List.foldl_append]
      rfl
    rw [hstep, List.map_append, List.map_singleton]
    exact map_fst_setMember_eraseDups ih m.1 m.2

/-- Each of them has the last value of its key. -/
theorem lookup_mergeMembers (key : String) :
    (mergeMembers members).lookup key = members.reverse.lookup key := by
  induction members using List.reverseRecOn with
  | nil => rfl
  | append_singleton rest m ih =>
    have hstep : mergeMembers (rest ++ [m]) = setMember (mergeMembers rest) m.1 m.2 := by
      rw [mergeMembers, List.foldl_append]
      rfl
    rw [hstep, lookup_setMember, ih, List.reverse_append, List.reverse_singleton,
      List.singleton_append]
    exact (Keyed.lookup_cons_ite ..).symm

end Merge

/-- A field of a record in the tree of a text is the part that stands for it. -/
theorem lookup_fields?_tree {names : List String} {t : Tree} {fields : List (String × Tree)}
    (h : fields? names t = some fields) {name : String} (hname : name ∈ names) :
    fields.lookup name = t.part? names name := by
  cases t with
  | object members =>
    simp only [fields?, layer] at h
    split at h
    · rename_i hnodup
      cases h
      rw [← lookup_reverse_of_nodup hnodup, ← List.filter_reverse, lookup_filter_names hname,
        Tree.part?]
    · cases h
  | array items =>
    simp only [fields?, layer] at h
    split at h
    · cases h
      rw [lookup_zip, if_pos hname, Tree.part?]
    · cases h
  | _ => cases h

namespace Tree

/-- The values of a list of members stand under the same keys. -/
theorem forall₂_of_entries? {room : Nat} {members : List (String × Tree)}
    {values : List (String × Value)} (h : entries? room members = some values) :
    List.Forall₂ (fun m v => v.1 = m.1 ∧ value? room m.2 = some v.2) members values := by
  induction members generalizing values with
  | nil =>
    cases h
    exact .nil
  | cons m rest ih =>
    obtain ⟨key, t⟩ := m
    rw [entries?] at h
    obtain ⟨v, hv, hrest⟩ := Option.bind_eq_some_iff.mp h
    obtain ⟨vs, hvs, rfl⟩ := Option.map_eq_some_iff.mp hrest
    exact .cons ⟨rfl, hv⟩ (ih hvs)

theorem forall₂_of_values? {room : Nat} {trees : List Tree} {values : List Value}
    (h : values? room trees = some values) :
    List.Forall₂ (fun t v => value? room t = some v) trees values := by
  induction trees generalizing values with
  | nil =>
    cases h
    exact .nil
  | cons t rest ih =>
    rw [values?] at h
    obtain ⟨v, hv, hrest⟩ := Option.bind_eq_some_iff.mp h
    obtain ⟨vs, hvs, rfl⟩ := Option.map_eq_some_iff.mp hrest
    exact .cons hv (ih hvs)

/-- The value of an object has its keys in the order in which they first occur, and under each of them the
value of the last member of that key. -/
theorem members_of_value? {room : Nat} {t : Tree} {members : List (String × Value)}
    (h : t.value? room = some (.object members)) :
    ∃ raw, t = .object raw ∧ members.map (·.1) = (raw.map (·.1)).eraseDups ∧
      ∀ key, Option.Rel (fun part v => value? (room - 1) part = some v) (raw.reverse.lookup key)
        (members.lookup key) := by
  obtain ⟨raw, read, rfl, hread, rfl⟩ := exists_of_value?_object h
  have hentries := forall₂_of_entries? hread
  have hkeys : read.map (·.1) = raw.map (·.1) := by
    rw [← List.forall₂_eq_eq_eq, List.forall₂_map_left_iff, List.forall₂_map_right_iff]
    exact hentries.flip.imp fun _ _ hm => hm.1
  refine ⟨raw, rfl, by rw [map_fst_mergeMembers, hkeys], fun key => ?_⟩
  rw [lookup_mergeMembers]
  exact lookup_of_forall₂ (List.rel_reverse hentries) key

/-- A field of a record that passes through a value is the value of the part that stands for it. -/
theorem lookup_fields?_value {room : Nat} {t : Tree} {v : Value} (hv : t.value? room = some v)
    {names : List String} {fields : List (String × Value)} (h : fields? names v = some fields)
    {name : String} (hname : name ∈ names) :
    Option.Rel (fun part w => value? (room - 1) part = some w) (t.part? names name)
      (fields.lookup name) := by
  cases v with
  | object members =>
    simp only [fields?, layer] at h
    split at h
    · cases h
      obtain ⟨raw, rfl, -, hlookup⟩ := members_of_value? hv
      rw [lookup_filter_names hname]
      exact hlookup name
    · cases h
  | array items =>
    simp only [fields?, layer] at h
    split at h
    · cases h
      rw [lookup_zip, if_pos hname]
      obtain ⟨trees, rfl, hread⟩ := exists_of_value?_array hv
      exact getElem?_of_forall₂ (forall₂_of_values? hread) _
    · cases h
  | _ => cases h

end Tree

end Milestone.Json
