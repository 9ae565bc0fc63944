import Milestone.Snapshot.Lookup
import Milestone.Snapshot.Sources

/-!
# Progress apart from its schema

What was done in a world, whatever the era that stores it: achievements with the criteria earned of them, and
counters by category and item. This file writes it into the documents of every era. The names of achievements are
no addresses of counters, so that both can stand in one document.
-/

namespace Milestone

open Json

namespace Address

/-- The address of an item in a category. -/
def join (category item : String) : Address := ⟨category ++ "/" ++ item⟩

theorem splitSlash_append {category : List Char} (h : '/' ∉ category) (item : List Char) :
    splitSlash (category ++ '/' :: item) = some (category, item) := by
  induction category with
  | nil => rfl
  | cons c rest ih =>
    rw [List.mem_cons, not_or] at h
    rw [List.cons_append, splitSlash, ih h.2]
    · rfl
    · exact fun hslash => h.1 hslash.symm

theorem eq_append_of_splitSlash {cs category item : List Char}
    (h : splitSlash cs = some (category, item)) : cs = category ++ '/' :: item := by
  induction cs generalizing category with
  | nil => cases h
  | cons c rest ih =>
    unfold splitSlash at h
    split at h
    · cases h
    · rename_i heq
      cases heq
      cases h
      rfl
    · rename_i heq
      cases heq
      obtain ⟨⟨before, after⟩, hrest, heq⟩ := Option.map_eq_some_iff.mp h
      cases heq
      rw [ih hrest, List.cons_append]

/-- A category without slashes and an item are found in their address. -/
theorem path?_join {category item : String} (hcategory : category ≠ "") (hslash : '/' ∉ category.toList)
    (hitem : item ≠ "") : (join category item).path? = some (category, item) := by
  have hraw : (join category item).raw.toList = category.toList ++ '/' :: item.toList := by
    simp [join]
  have hparts : (!category.toList.isEmpty && !item.toList.isEmpty) = true := by
    simp [hcategory, hitem]
  have hguard : (guard (!category.toList.isEmpty && !item.toList.isEmpty) : Option Unit) = some () :=
    if_pos hparts
  calc (join category item).path?
    _ = (guard (!category.toList.isEmpty && !item.toList.isEmpty) : Option Unit).bind fun _ =>
        some (String.ofList category.toList, String.ofList item.toList) := by
      rw [path?, hraw, splitSlash_append hslash]
      rfl
    _ = some (category, item) := by
      rw [hguard, Option.bind_some, String.ofList_toList, String.ofList_toList]

/-- An address with a path is made of it. -/
theorem eq_join_of_path? {address : Address} {category item : String}
    (h : address.path? = some (category, item)) : address = join category item := by
  obtain ⟨⟨before, after⟩, hsplit, hparts⟩ := Option.bind_eq_some_iff.mp h
  obtain ⟨_, -, heq⟩ := Option.bind_eq_some_iff.mp hparts
  cases heq
  obtain ⟨raw⟩ := address
  rw [join, mk.injEq, ← String.toList_inj, eq_append_of_splitSlash hsplit]
  simp

end Address

/-- Whether an era counts in each world by itself, and knows criteria. -/
def Era.isPerWorld : Era → Bool
  | mid | hybrid | modern => true
  | _ => false

/-- An achievement, with the marks under which the criteria earned of it are listed. -/
structure Achievement where
  done : Bool
  earned : Keyed Value

/-- What was done in a world: achievements by their names, and counters by category and item. -/
structure Attainment where
  achievements : Keyed Achievement
  counters : Keyed (Keyed Counter)
  category_ne : ∀ g ∈ counters.entries, g.1 ≠ ""
  slash_notMem : ∀ g ∈ counters.entries, '/' ∉ g.1.toList
  item_ne : ∀ g ∈ counters.entries, ∀ x ∈ g.2.entries, x.1 ≠ ""
  apart : ∀ g ∈ counters.entries, ∀ x ∈ g.2.entries,
    achievements.get? (Address.join g.1 x.1).raw = none

namespace Achievement

/-- An achievement as an entry among counters: a value and a list of criteria. -/
def entry (a : Achievement) : Value :=
  .object [("value", .number (.whole (if a.done then 1 else 0))),
    ("progress", .array (a.earned.entries.map fun e => .string e.1))]

/-- An achievement as an advancement: a mark and an object of criteria. -/
def advancement (a : Achievement) : Value :=
  .object [("criteria", .object a.earned.entries), ("done", .bool a.done)]

end Achievement

namespace Attainment

variable (p : Attainment)

/-- Whether an achievement is done. -/
def isDone (name : String) : Bool :=
  (p.achievements.get? name).any (·.done)

/-- Whether a criterion of an achievement is earned. -/
def hasEarned (name criterion : String) : Bool :=
  (p.achievements.get? name).any fun a => (a.earned.get? criterion).isSome

/-- The counter under an address. -/
def counter? (address : Address) : Option Counter :=
  address.path?.bind fun q => (p.counters.get? q.1).bind (·.get? q.2)

/-- A counter as a number. -/
def numeral (n : Counter) : Value := .number (.whole n.value)

/-- The counters of a category under their addresses. -/
def flatMembers (g : String × Keyed Counter) : List (String × Value) :=
  g.2.entries.map fun x => ((Address.join g.1 x.1).raw, numeral x.2)

/-- The counters by their addresses. -/
def flat : Value :=
  .object (p.counters.entries.flatMap flatMembers)

/-- The counters by category and item. -/
def nested : Value :=
  .object [("stats", .object (p.counters.entries.map fun g =>
    (g.1, .object (g.2.entries.map fun x => (x.1, numeral x.2)))))]

/-- Achievements and counters in one document. -/
def mixed : Value :=
  .object (p.achievements.entries.map (fun a => (a.1, a.2.entry)) ++
    p.counters.entries.flatMap flatMembers)

/-- The achievements as advancements. -/
def advancements : Value :=
  .object (p.achievements.entries.map fun a => (a.1, a.2.advancement))

/-- The documents in which an era stores what was done, next to any document of unlocks. Of the oldest era, which
knows no criteria, they have the counters alone. -/
def sources (era : Era) (world : Option String) (unlocks : Option Value) : Sources :=
  match era with
  | .legacy => ⟨world, none, some p.flat, unlocks⟩
  | .mid => ⟨world, none, some p.mixed, unlocks⟩
  | .hybrid => ⟨world, some p.advancements, some p.flat, unlocks⟩
  | .modern => ⟨world, some p.advancements, some p.nested, unlocks⟩
  | .unknown => ⟨world, none, none, unlocks⟩

end Attainment

end Milestone
