import Milestone.Proofs.Instant.Written
import Milestone.Proofs.Json.Written
import Milestone.Saved.Store

/-!
# Reading the written state

The text of a saved state is read back as that state: each kind of part from its tree, and the records from
the members that their outlines name.
-/

namespace Milestone

open Json

namespace Keyed

variable {α : Type}

/-- A key beyond all others is placed at the end. -/
theorem insertInto_of_lt {key : String} {value : α} {entries : List (String × α)}
    (h : ∀ e ∈ entries, e.1 < key) : insertInto key value entries = entries ++ [(key, value)] := by
  induction entries with
  | nil => rfl
  | cons entry rest ih =>
    obtain ⟨k, v⟩ := entry
    have hk : k < key := h _ List.mem_cons_self
    rw [insertInto, if_neg (String.lt_asymm hk), if_pos hk,
      ih fun e he => h e (List.mem_cons_of_mem _ he), List.cons_append]

/-- A map is that of its own entries. -/
theorem ofList_entries (m : Keyed α) : ofList m.entries = m := by
  -- The entries so far and those still to come are together in order.
  have hfold (rest : List (String × α)) (start : Keyed α)
      (hsorted : (start.entries ++ rest).Pairwise fun a b => a.1 < b.1) :
      (rest.foldl (fun m e => m.insert e.1 e.2) start).entries = start.entries ++ rest := by
    induction rest generalizing start with
    | nil => rw [List.foldl_nil, List.append_nil]
    | cons e rest ih =>
      have hbefore : ∀ b ∈ start.entries, b.1 < e.1 := fun b hb =>
        (List.pairwise_append.mp hsorted).2.2 b hb e List.mem_cons_self
      have hinsert : (start.insert e.1 e.2).entries = start.entries ++ [e] :=
        insertInto_of_lt hbefore
      have hnext : start.entries ++ e :: rest = (start.insert e.1 e.2).entries ++ rest := by
        rw [hinsert, List.append_assoc, List.singleton_append]
      rw [List.foldl_cons, ih _ (hnext ▸ hsorted), hnext]
  exact Keyed.ext ((hfold m.entries ∅ m.sorted).trans (List.nil_append _))

end Keyed

/-- A map is read back where its values are. -/
theorem mapOf?_outlineMap {α : Type} (write : α → Outline) (read : Tree → Option α)
    (h : ∀ x, read (write x).tree = some x) (m : Keyed α) :
    mapOf? read (outlineMap write m).tree = some m := by
  have hentries : (m.entries.map fun e => (e.1, (write e.2).tree)).mapM
      (fun e => (read e.2).map (e.1, ·)) = some m.entries := by
    rw [List.mapM_map]
    simp only [Function.comp_def, h, Option.map_some]
    exact List.mapM_pure.trans (congrArg some (List.map_id' m.entries))
  simp only [mapOf?, entriesOf?, members?, outlineMap, Outline.tree, layer,
    Outline.memberTrees_eq_map, List.map_map, Function.comp_def, Option.bind_some, hentries,
    Option.map_some, Keyed.ofList_entries]

/-- A text or none is read back where texts are read as what wrote them. -/
theorem orNull?_outlineText {α : Type} (write : α → String) (read : Tree → Option α)
    (h : ∀ x, read (.string (write x)) = some x) (x : Option α) :
    orNull? read (outlineText (x.map write)).tree = some x := by
  cases x with
  | none => rfl
  | some x =>
    rw [Option.map_some, outlineText, Outline.tree]
    simp only [orNull?, layer, h, Option.map_some]

/-- A written value is read back. -/
theorem CustomValue.ofTree?_outline (v : CustomValue) : ofTree? v.outline.tree = some v := by
  cases v with
  | flag b => rfl
  | count n =>
    simp only [outline, Outline.tree, ofTree?, bool?, layer, counter?, Counter.ofInt?_value,
      Option.map_some]

/-- A record whose members are named for its fields shows them all. -/
theorem fields?_tree {names : List String} {members : List (String × Outline)}
    (hnames : members.map (·.1) = names) (h : names.Nodup) :
    fields? names (Outline.object members).tree =
      some (members.map fun m => (m.1, m.2.tree)) := by
  have hknown : (members.map fun m => (m.1, m.2.tree)).filter
      (fun m => names.contains m.1) = members.map fun m => (m.1, m.2.tree) := by
    refine List.filter_eq_self.mpr fun m hm => ?_
    obtain ⟨n, hn, rfl⟩ := List.mem_map.mp hm
    exact List.contains_iff_mem.mpr (hnames ▸ List.mem_map_of_mem hn)
  have hkeys : (members.map fun m => (m.1, m.2.tree)).map (·.1) = names := by
    rw [List.map_map, ← hnames]
    rfl
  simp only [fields?, layer, Outline.tree, Outline.memberTrees_eq_map, hknown, hkeys, h, if_true]

/-- A field is read back where its member is. -/
theorem field?_of_lookup {α : Type} {fields : List (String × Tree)} {name : String} {t : Tree}
    {absent x : α} {read : Tree → Option α} (hlookup : fields.lookup name = some t)
    (h : read t = some x) : field? fields name absent read = some x := by
  rw [field?, hlookup]
  exact h

/-- The time of a capture is read back from its text. -/
theorem orNull?_outlineText_instant (t : Option Instant) :
    orNull? (fun t => (text? t).bind Instant.ofText?) (outlineText (t.map Instant.text)).tree =
      some t := by
  refine orNull?_outlineText Instant.text _ (fun t => ?_) t
  have htext : text? (Tree.string t.text) = some t.text := rfl
  simp only [htext, Option.bind_some, Instant.ofText?_text]

/-- A written text is read back, and so is the lack of one. -/
theorem orNull?_outlineText_text (s : Option String) :
    orNull? text? (outlineText s).tree = some s := by
  cases s <;> rfl

/-- A written baseline is read back. -/
theorem Baseline.ofTree?_outline (b : Baseline) : ofTree? b.outline.tree = some b := by
  have hplay : counter? (Outline.counter b.playTime).tree = some b.playTime :=
    Counter.ofInt?_value b.playTime
  have hcounters := mapOf?_outlineMap .counter counter? Counter.ofInt?_value b.counters
  have hearned := mapOf?_outlineMap .bool bool? (fun _ => rfl) b.earned
  simp only [ofTree?, outline, Option.bind_eq_bind, Option.pure_def]
  refine Option.bind_eq_some_iff.mpr ⟨_, fields?_tree rfl (by decide), ?_⟩
  refine Option.bind_eq_some_iff.mpr
    ⟨b.world, field?_of_lookup rfl (orNull?_outlineText_text b.world), ?_⟩
  refine Option.bind_eq_some_iff.mpr ⟨b.playTime, field?_of_lookup rfl hplay, ?_⟩
  refine Option.bind_eq_some_iff.mpr
    ⟨b.capturedAt, field?_of_lookup rfl (orNull?_outlineText_instant b.capturedAt), ?_⟩
  refine Option.bind_eq_some_iff.mpr ⟨b.counters, field?_of_lookup rfl hcounters, ?_⟩
  exact Option.bind_eq_some_iff.mpr ⟨b.earned, field?_of_lookup rfl hearned, rfl⟩

namespace SavedState

/-- A written state is read back. -/
theorem ofTree?_outline (s : SavedState) : ofTree? s.outline.tree = some s := by
  have hoverrides := mapOf?_outlineMap .bool bool? (fun _ => rfl) s.overrides
  have hcustom := mapOf?_outlineMap _ _ CustomValue.ofTree?_outline s.custom
  simp only [ofTree?, outline, Option.bind_eq_bind, Option.pure_def]
  refine Option.bind_eq_some_iff.mpr ⟨_, fields?_tree rfl (by decide), ?_⟩
  refine Option.bind_eq_some_iff.mpr ⟨s.overrides, field?_of_lookup rfl hoverrides, ?_⟩
  refine Option.bind_eq_some_iff.mpr ⟨s.custom, field?_of_lookup rfl hcustom, ?_⟩
  refine Option.bind_eq_some_iff.mpr
    ⟨s.baseline, field?_of_lookup rfl s.baseline.ofTree?_outline, ?_⟩
  exact Option.bind_eq_some_iff.mpr
    ⟨s.world, field?_of_lookup rfl (orNull?_outlineText_text s.world), rfl⟩

/-- The text of a state is read back as that state. -/
theorem read?_text (s : SavedState) : read? s.text = some s := by
  rw [read?, text, Tree.read?_text, Option.bind_some, ofTree?_outline]

/-- The text of a state is never taken for that of an empty file. -/
theorem not_isBlankText_text (s : SavedState) : Text.isBlankText s.text = false := by
  have hbrace : '{' ∈ s.text.toList := by
    rw [text, Outline.text, String.toList_ofList, outline, Outline.chars]
    exact List.mem_append_left _ (List.mem_append_left _ List.mem_cons_self)
  rw [Text.isBlankText, List.all_eq_false]
  exact ⟨'{', hbrace, by decide⟩

/-- The contents that a save writes are decoded as the state that was saved. -/
theorem decode_text (path : String) (s : SavedState) : StateFile.decode path s.text = .ok s := by
  simp only [StateFile.decode, not_isBlankText_text, read?_text, Bool.false_eq_true, if_false]

end SavedState

end Milestone
