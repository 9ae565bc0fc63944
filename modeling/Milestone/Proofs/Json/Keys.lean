import Milestone.Keyed
import Milestone.Snapshot.Document

/-!
# Keys of JSON objects

A JSON object that was read has every key once, and so have the objects that are nested in it. A table of what
its members stand for then answers for each key as the object itself does, whether of repeated keys the first or
the last would count.
-/

namespace Milestone

namespace Json

/-- Every key of an object stands once among its members. -/
def Value.HasDistinctKeys (v : Value) : Prop :=
  ∀ members, v = .object members → (members.map (·.1)).Nodup

/-- Setting a member adds its key at the end unless it is there. -/
theorem map_fst_setMember {α : Type} (members : List (String × α)) (key : String) (v : α) :
    (setMember members key v).map (·.1) =
      if key ∈ members.map (·.1) then members.map (·.1) else members.map (·.1) ++ [key] := by
  induction members with
  | nil => rfl
  | cons m rest ih =>
    obtain ⟨k, w⟩ := m
    by_cases h : k = key
    · simp [setMember, h]
    · have hne : key ≠ k := fun e => h e.symm
      simp only [setMember, if_neg h, List.map_cons, ih, List.mem_cons, hne, false_or]
      split <;> rfl

theorem nodup_setMember {α : Type} {members : List (String × α)} (key : String) (v : α)
    (h : (members.map (·.1)).Nodup) : ((setMember members key v).map (·.1)).Nodup := by
  rw [map_fst_setMember]
  split
  · exact h
  · rename_i hnot
    rw [List.nodup_append]
    refine ⟨h, by simp, ?_⟩
    intro a ha b hb heq
    rw [List.mem_singleton] at hb
    exact hnot (hb ▸ heq ▸ ha)

/-- Merged members have every key once. -/
theorem nodup_mergeMembers {α : Type} (members : List (String × α)) :
    ((mergeMembers members).map (·.1)).Nodup := by
  have h (start : List (String × α)) (hs : (start.map (·.1)).Nodup) :
      ((members.foldl (fun merged m => setMember merged m.1 m.2) start).map (·.1)).Nodup := by
    induction members generalizing start with
    | nil => exact hs
    | cons m rest ih => exact ih _ (nodup_setMember m.1 m.2 hs)
  exact h [] .nil

/-- An object is read from the entries of a tree, of which it merges those of one key. -/
theorem Tree.exists_of_value?_object {room : Nat} {t : Tree} {members : List (String × Value)}
    (h : t.value? room = some (.object members)) :
    ∃ entries read, t = .object entries ∧ entries? (room - 1) entries = some read ∧
      members = mergeMembers read := by
  cases t with
  | object entries =>
    rw [value?] at h
    split at h
    · cases h
    · obtain ⟨read, hread, heq⟩ := Option.map_eq_some_iff.mp h
      cases heq
      exact ⟨entries, read, rfl, hread, rfl⟩
  | array items =>
    rw [value?] at h
    split at h
    · cases h
    · obtain ⟨read, -, heq⟩ := Option.map_eq_some_iff.mp h
      cases heq
  | _ => simp [value?] at h

/-- An array is read from the items of a tree. -/
theorem Tree.exists_of_value?_array {room : Nat} {t : Tree} {items : List Value}
    (h : t.value? room = some (.array items)) :
    ∃ trees, t = .array trees ∧ values? (room - 1) trees = some items := by
  cases t with
  | array trees =>
    rw [value?] at h
    split at h
    · cases h
    · obtain ⟨read, hread, heq⟩ := Option.map_eq_some_iff.mp h
      cases heq
      exact ⟨trees, rfl, hread⟩
  | object entries =>
    rw [value?] at h
    split at h
    · cases h
    · obtain ⟨read, -, heq⟩ := Option.map_eq_some_iff.mp h
      cases heq
  | _ => simp [value?] at h

/-- The value of a tree has every key once. -/
theorem Tree.hasDistinctKeys_of_value? {room : Nat} {t : Tree} {v : Value}
    (h : t.value? room = some v) : v.HasDistinctKeys := by
  intro members hv
  subst hv
  obtain ⟨entries, read, -, -, rfl⟩ := exists_of_value?_object h
  exact nodup_mergeMembers read

section Parts

/-- A setting brings in no more than the new member. -/
theorem mem_setMember {α : Type} {members : List (String × α)} {key : String} {v : α}
    {m : String × α} (h : m ∈ setMember members key v) : m ∈ members ∨ m = (key, v) := by
  induction members with
  | nil => exact .inr (List.mem_singleton.mp h)
  | cons first rest ih =>
    obtain ⟨k, w⟩ := first
    rw [setMember] at h
    split at h
    · rename_i heq
      subst heq
      exact (List.mem_cons.mp h).elim .inr fun hrest => .inl (List.mem_cons_of_mem _ hrest)
    · rcases List.mem_cons.mp h with hfirst | hrest
      · exact .inl (hfirst ▸ List.mem_cons_self)
      · exact (ih hrest).imp_left (List.mem_cons_of_mem _)

/-- Each merged member is one of those that were merged. -/
theorem mem_of_mem_mergeMembers {α : Type} {members : List (String × α)} {m : String × α}
    (h : m ∈ mergeMembers members) : m ∈ members := by
  have hfold (start rest : List (String × α))
      (hmem : m ∈ rest.foldl (fun merged m => setMember merged m.1 m.2) start) :
      m ∈ start ∨ m ∈ rest := by
    induction rest generalizing start with
    | nil => exact .inl hmem
    | cons first rest ih =>
      rcases ih (setMember start first.1 first.2) hmem with hset | hrest
      · rcases mem_setMember hset with hstart | rfl
        · exact .inl hstart
        · exact .inr List.mem_cons_self
      · exact .inr (List.mem_cons_of_mem _ hrest)
  exact (hfold [] members h).resolve_left List.not_mem_nil

/-- A value that stands for a tree. -/
def Value.IsRead (v : Value) : Prop :=
  ∃ room t, Tree.value? room t = some v

/-- The values of a list of trees stand for them one by one. -/
theorem Tree.isRead_of_values? {room : Nat} {ts : List Tree} {vs : List Value}
    (h : Tree.values? room ts = some vs) : ∀ v ∈ vs, v.IsRead := by
  induction ts generalizing vs with
  | nil =>
    cases h
    exact fun _ hmem => absurd hmem List.not_mem_nil
  | cons t rest ih =>
    rw [values?] at h
    obtain ⟨v, hv, hrest⟩ := Option.bind_eq_some_iff.mp h
    obtain ⟨vs, hvs, rfl⟩ := Option.map_eq_some_iff.mp hrest
    exact List.forall_mem_cons.mpr ⟨⟨room, t, hv⟩, ih hvs⟩

theorem Tree.isRead_of_entries? {room : Nat} {ts : List (String × Tree)} {members : List (String × Value)}
    (h : Tree.entries? room ts = some members) : ∀ m ∈ members, m.2.IsRead := by
  induction ts generalizing members with
  | nil =>
    cases h
    exact fun _ hmem => absurd hmem List.not_mem_nil
  | cons t rest ih =>
    obtain ⟨key, t⟩ := t
    rw [entries?] at h
    obtain ⟨v, hv, hrest⟩ := Option.bind_eq_some_iff.mp h
    obtain ⟨members, hmembers, rfl⟩ := Option.map_eq_some_iff.mp hrest
    exact List.forall_mem_cons.mpr ⟨⟨room, t, hv⟩, ih hmembers⟩

/-- The items of an array that stands for a tree stand for trees themselves. -/
theorem Value.IsRead.items {items : List Value} (h : (Value.array items).IsRead) :
    ∀ v ∈ items, v.IsRead := by
  obtain ⟨room, t, ht⟩ := h
  obtain ⟨trees, -, hread⟩ := Tree.exists_of_value?_array ht
  exact Tree.isRead_of_values? hread

/-- So do the members of an object. -/
theorem Value.IsRead.members {members : List (String × Value)} (h : (Value.object members).IsRead) :
    ∀ m ∈ members, m.2.IsRead := by
  obtain ⟨room, t, ht⟩ := h
  obtain ⟨entries, read, -, hread, rfl⟩ := Tree.exists_of_value?_object ht
  exact fun m hm => Tree.isRead_of_entries? hread m (mem_of_mem_mergeMembers hm)

end Parts

/-- A value that was read from a text has every key once. -/
theorem Value.hasDistinctKeys_of_read? {text : String} {v : Value} (h : read? text = some v) :
    v.HasDistinctKeys := by
  obtain ⟨t, -, ht⟩ := Option.bind_eq_some_iff.mp h
  exact Tree.hasDistinctKeys_of_value? ht

/-- Among members with every key once, a table of what they stand for finds what the member of the key
stands for, even if it prefers later entries. -/
theorem lookup_reverse_filterMap {α β : Type} (f : α → Option β) {members : List (String × α)}
    (h : (members.map (·.1)).Nodup) (key : String) :
    (members.filterMap fun m => (f m.2).map (m.1, ·)).reverse.lookup key =
      (members.lookup key).bind f := by
  induction members with
  | nil => rfl
  | cons m rest ih =>
    obtain ⟨k, v⟩ := m
    obtain ⟨hnot, hrest⟩ := List.nodup_cons.mp h
    have habsent : rest.lookup k = none := by
      rw [List.lookup_eq_none_iff]
      intro entry hentry
      have hmem : entry.1 ∈ rest.map (·.1) := List.mem_map_of_mem hentry
      simpa using fun e : k = entry.1 => hnot (e ▸ hmem)
    cases hf : f v with
    | none =>
      rw [List.filterMap_cons_none (by simp [hf]), ih hrest, Keyed.lookup_cons_ite]
      split
      · rename_i heq
        rw [heq, habsent, Option.bind_some, hf, Option.bind_none]
      · rfl
    | some n =>
      rw [List.filterMap_cons_some (by simp [hf]; rfl), List.reverse_cons, List.lookup_append,
        ih hrest, Keyed.lookup_cons_ite, Keyed.lookup_cons_ite, List.lookup_nil]
      split
      · rename_i heq
        rw [heq, habsent, Option.bind_none, Option.none_or, Option.bind_some, hf]
      · rw [Option.or_none]

end Json

namespace Document

open Json

/-- A document that was read has every key once. -/
theorem hasDistinctKeys_of_read {text : String} {doc : Value} (h : read text = .ok doc) :
    doc.HasDistinctKeys := by
  unfold read at h
  split at h
  · cases h
  · rename_i members hread
    cases h
    exact Value.hasDistinctKeys_of_read? hread
  · cases h

/-- Adding an amount sets the total under its key. -/
theorem addAmount_eq_setMember (totals : List (String × Counter)) (key : String)
    (amount : Counter) :
    addAmount totals key amount =
      setMember totals key (((totals.lookup key).map (· + amount)).getD amount) := by
  induction totals with
  | nil => rfl
  | cons m rest ih =>
    obtain ⟨k, n⟩ := m
    rw [addAmount, setMember, Keyed.lookup_cons_ite]
    by_cases h : k = key
    · rw [if_pos h, if_pos h, if_pos h.symm]
      rfl
    · rw [if_neg h, if_neg h, if_neg fun e => h e.symm, ih]

/-- Totals have every key once. -/
theorem nodup_sumAmounts (amounts : List (String × Counter)) :
    ((sumAmounts amounts).map (·.1)).Nodup := by
  have h (start : List (String × Counter)) (hs : (start.map (·.1)).Nodup) :
      ((amounts.foldl (fun totals a => addAmount totals a.1 a.2) start).map (·.1)).Nodup := by
    induction amounts generalizing start with
    | nil => exact hs
    | cons a rest ih =>
      refine ih _ ?_
      simp only [addAmount_eq_setMember]
      exact nodup_setMember _ _ hs
  exact h [] .nil

/-- The document of lifetime counters that was read has every key once. -/
theorem hasDistinctKeys_of_readLifetime {text : String} {doc : Value}
    (h : readLifetime text = .ok doc) : doc.HasDistinctKeys := by
  unfold readLifetime at h
  cases hread : read text with
  | error e => rw [hread] at h; cases h
  | ok v =>
    rw [hread] at h
    cases hchanges : (v.get? "stats-change").bind Value.items? with
    | none => simp [hchanges, bind, Except.bind, throw, throwThe, MonadExceptOf.throw] at h
    | some changes =>
      simp only [hchanges, bind, Except.bind, pure, Except.pure, Except.ok.injEq] at h
      intro members hmembers
      rw [← h, ofCounters, Value.object.injEq] at hmembers
      rw [← hmembers, List.map_map]
      exact nodup_sumAmounts _

end Document

end Milestone
