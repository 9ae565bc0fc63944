import Mathlib.Data.List.Forall2
import Milestone.Proofs.Json.Keys

/-!
# Look-ups in lists of members

What a key shows in a list of members, for lists that are made or read in one of a few ways: members that were
chosen, put together, read one by one, or that have each key once.
-/

namespace Milestone.Json

variable {α β : Type}

/-- What a key shows stands under it. -/
theorem mem_of_lookup {xs : List (String × α)} {key : String} {x : α} (h : xs.lookup key = some x) :
    (key, x) ∈ xs := by
  obtain ⟨before, after, rfl, -⟩ := List.lookup_eq_some_iff.mp h
  exact List.mem_append_right before List.mem_cons_self

/-- Where each key stands once, a member is found under its key. -/
theorem lookup_of_mem_of_nodup {xs : List (String × α)} (h : (xs.map (·.1)).Nodup) {key : String}
    {x : α} (hx : (key, x) ∈ xs) : xs.lookup key = some x := by
  obtain ⟨before, after, rfl⟩ := List.append_of_mem hx
  refine List.lookup_eq_some_iff.mpr ⟨before, after, rfl, fun p hp => ?_⟩
  rw [List.map_append, List.nodup_append] at h
  obtain ⟨-, -, hdisjoint⟩ := h
  simpa using (hdisjoint p.1 (List.mem_map_of_mem hp) key List.mem_cons_self).symm

/-- Members whose values are made of those of others show what is made of what those show. -/
theorem lookup_map_snd (f : α → β) (xs : List (String × α)) (key : String) :
    (xs.map fun x => (x.1, f x.2)).lookup key = (xs.lookup key).map f := by
  induction xs with
  | nil => rfl
  | cons x rest ih =>
    obtain ⟨k, v⟩ := x
    rw [List.map_cons, Keyed.lookup_cons_ite, Keyed.lookup_cons_ite, ih]
    split <;> rfl

/-- Among entries that all have one value, a look-up finds it under each of their keys. -/
theorem lookup_map_const (key : α → String) (value : β) (xs : List α) (k : String) :
    (xs.map fun x => (key x, value)).lookup k = if xs.any (key · == k) then some value else none := by
  induction xs with
  | nil => rfl
  | cons x rest ih =>
    rw [List.map_cons, Keyed.lookup_cons_ite, ih, List.any_cons]
    by_cases h : k = key x
    · simp [h]
    · have hne : (key x == k) = false := beq_eq_false_iff_ne.mpr fun e => h e.symm
      rw [if_neg h, hne, Bool.false_or]

/-- Among entries that are made of their keys, a look-up makes one of each key that is there. -/
theorem lookup_map_key (f : String → β) (keys : List String) (key : String) :
    (keys.map fun k => (k, f k)).lookup key = if key ∈ keys then some (f key) else none := by
  induction keys with
  | nil => rfl
  | cons k rest ih =>
    rw [List.map_cons, Keyed.lookup_cons_ite, ih]
    by_cases h : key = k
    · simp [h]
    · simp [h]

/-- Members with the same keys show related values under each key. -/
theorem lookup_of_forall₂ {r : α → β → Prop} {xs : List (String × α)} {ys : List (String × β)}
    (h : List.Forall₂ (fun x y => y.1 = x.1 ∧ r x.2 y.2) xs ys) (key : String) :
    Option.Rel r (xs.lookup key) (ys.lookup key) := by
  induction h with
  | nil => exact .none
  | @cons x y xs ys hxy _ ih =>
    obtain ⟨hkey, hr⟩ := hxy
    obtain ⟨k, v⟩ := x
    obtain ⟨k', w⟩ := y
    obtain rfl : k' = k := hkey
    rw [Keyed.lookup_cons_ite, Keyed.lookup_cons_ite]
    split
    · exact .some hr
    · exact ih

/-- Lists that are related item by item show related items at each place. -/
theorem getElem?_of_forall₂ {r : α → β → Prop} {xs : List α} {ys : List β} (h : List.Forall₂ r xs ys)
    (i : Nat) : Option.Rel r xs[i]? ys[i]? := by
  induction h generalizing i with
  | nil => exact .none
  | cons hr _ ih =>
    cases i with
    | zero => exact .some hr
    | succ i => exact ih i

/-- A key of members that have each key once is found from either end. -/
theorem lookup_reverse_of_nodup {xs : List (String × α)} (h : (xs.map (·.1)).Nodup) (key : String) :
    xs.reverse.lookup key = xs.lookup key := by
  have hall := lookup_reverse_filterMap some h key
  simpa using hall

/-- A table of what members stand for has the keys of those that stand for something. -/
theorem map_fst_filterMap (f : α → Option β) (members : List (String × α)) :
    (members.filterMap fun m => (f m.2).map (m.1, ·)).map (·.1) =
      (members.filter fun m => (f m.2).isSome).map (·.1) := by
  induction members with
  | nil => rfl
  | cons m rest ih =>
    cases hf : f m.2 with
    | none =>
      rw [List.filterMap_cons_none (by rw [hf]; rfl), List.filter_cons_of_neg (by simp [hf]), ih]
    | some x =>
      rw [List.filterMap_cons_some (by rw [hf]; rfl), List.filter_cons_of_pos (by simp [hf]),
        List.map_cons, List.map_cons, ih]

/-- Such a table shows under a key what the member of the key stands for, if each key stands once. -/
theorem lookup_filterMap_of_nodup (f : α → Option β) {members : List (String × α)}
    (h : (members.map (·.1)).Nodup) (key : String) :
    (members.filterMap fun m => (f m.2).map (m.1, ·)).lookup key = (members.lookup key).bind f := by
  have hkeys : ((members.filterMap fun m => (f m.2).map (m.1, ·)).map (·.1)).Nodup := by
    rw [map_fst_filterMap]
    exact h.sublist (List.filter_sublist.map _)
  rw [← lookup_reverse_of_nodup hkeys, lookup_reverse_filterMap f h]

/-- Where each key stands once, no more stands under one than a look-up shows. -/
theorem filter_key_of_nodup {xs : List (String × α)} (h : (xs.map (·.1)).Nodup) (key : String) :
    (xs.filter (·.1 == key)).map (·.2) = (xs.lookup key).toList := by
  induction xs with
  | nil => rfl
  | cons x rest ih =>
    obtain ⟨k, v⟩ := x
    obtain ⟨hnot, hrest⟩ := List.nodup_cons.mp h
    rw [Keyed.lookup_cons_ite, List.filter_cons]
    by_cases hk : key = k
    · subst hk
      have hnone : rest.filter (·.1 == key) = [] := by
        refine List.filter_eq_nil_iff.mpr fun x hx heq => ?_
        exact hnot (List.mem_map.mpr ⟨x, hx, beq_iff_eq.mp heq⟩)
      rw [if_pos (beq_self_eq_true key), if_pos rfl, hnone]
      rfl
    · rw [if_neg (by simpa using fun e : k = key => hk e.symm), if_neg hk, ih hrest]

/-- Members without those of other names show the same under the names that were kept. -/
theorem lookup_filter_names {names : List String} {name : String} (hname : name ∈ names)
    (xs : List (String × α)) :
    (xs.filter fun m => names.contains m.1).lookup name = xs.lookup name := by
  induction xs with
  | nil => rfl
  | cons x rest ih =>
    obtain ⟨k, v⟩ := x
    rw [List.filter_cons]
    split
    · rw [Keyed.lookup_cons_ite, Keyed.lookup_cons_ite, ih]
    · rename_i hnot
      have hne : name ≠ k := by
        rintro rfl
        exact hnot (List.contains_iff_mem.mpr hname)
      rw [Keyed.lookup_cons_ite, if_neg hne, ih]

/-- Of names and items put together in their order, a name shows the item at its place. -/
theorem lookup_zip (names : List String) (items : List α) (name : String) :
    (names.zip items).lookup name = if name ∈ names then items[names.idxOf name]? else none := by
  induction names generalizing items with
  | nil => rfl
  | cons first rest ih =>
    cases items with
    | nil => simp
    | cons item items =>
      rw [List.zip_cons_cons, Keyed.lookup_cons_ite, ih, List.idxOf_cons]
      by_cases h : name = first
      · simp [h]
      · have hne : (first == name) = false := beq_eq_false_iff_ne.mpr fun e => h e.symm
        simp [h, hne]

end Milestone.Json
