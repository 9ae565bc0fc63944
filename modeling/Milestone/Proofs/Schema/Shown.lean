import Milestone.Proofs.Json.Lookup
import Milestone.Proofs.Schema.Attainment
import Milestone.Proofs.Tick.Entries

/-!
# What the documents of each era show

The documents into which an attainment was written show it again, whatever their era: its counters under every
address, and what was done and earned under every name that is no address of a counter.
-/

namespace Milestone

open Json

namespace Achievement

/-- A value of 0 or 1 is what it stands for. -/
theorem value_entry (a : Achievement) :
    ((a.entry.get? "value").bind Value.counter?).any (1 ≤ ·) = a.done := by
  obtain ⟨done, earned⟩ := a
  cases done <;> rfl

/-- A list of criteria has those that are earned. -/
theorem progress_entry (a : Achievement) (criterion : String) :
    ((a.entry.get? "progress").bind Value.items?).any (·.any (·.isText criterion)) =
      (a.earned.get? criterion).isSome := by
  obtain ⟨done, ⟨entries, sorted⟩⟩ := a
  have hprogress : (Achievement.mk done ⟨entries, sorted⟩).entry.get? "progress" =
      some (.array (entries.map fun e => .string e.1)) := rfl
  simp only [hprogress, Option.bind_some, Value.items?, Option.any_some, Keyed.get?]
  clear hprogress sorted
  induction entries with
  | nil => rfl
  | cons e rest ih =>
    obtain ⟨name, mark⟩ := e
    rw [List.map_cons, List.any_cons, ih, Keyed.lookup_cons_ite]
    by_cases h : criterion = name
    · simp [Value.isText, h]
    · have hne : (name == criterion) = false := beq_eq_false_iff_ne.mpr fun e => h e.symm
      simp only [Value.isText, hne, Bool.false_or, if_neg h]

end Achievement

namespace Attainment

section Counters

/-- The counters of a category are found under the addresses that lead to it. -/
theorem lookup_items {category : String} {items : List (String × Counter)}
    (hpath : ∀ x ∈ items, (Address.join category x.1).path? = some (category, x.1)) (a : Address) :
    (items.map fun x => ((Address.join category x.1).raw, numeral x.2)).lookup a.raw =
      (a.path?.bind fun q => if q.1 = category then items.lookup q.2 else none).map numeral := by
  induction items with
  | nil => cases a.path? <;> simp
  | cons x rest ih =>
    obtain ⟨item, n⟩ := x
    have hfirst := hpath (item, n) List.mem_cons_self
    rw [List.map_cons, Keyed.lookup_cons_ite, ih fun x hx => hpath x (List.mem_cons_of_mem _ hx)]
    by_cases hpair : a.path? = some (category, item)
    · have hraw : a.raw = (Address.join category item).raw :=
        congrArg (·.raw) (Address.eq_join_of_path? hpair)
      rw [if_pos hraw, hpair]
      simp
    · have hraw : a.raw ≠ (Address.join category item).raw := by
        intro hraw
        obtain rfl : a = Address.join category item := congrArg Address.mk hraw
        exact hpair hfirst
      -- what is left is the rest, and the address does not lead to this item
      rw [if_neg hraw]
      congr 1
      refine Option.bind_congr fun q hq => ?_
      split
      · rename_i hcategory
        have hitem : q.2 ≠ item := by
          rintro rfl
          exact hpair (hcategory ▸ hq)
        rw [Keyed.lookup_cons_ite, if_neg hitem]
      · rfl

/-- The counters of all categories are found under their addresses. -/
theorem lookup_flatMap {groups : List (String × Keyed Counter)} (hnodup : (groups.map (·.1)).Nodup)
    (hpath : ∀ g ∈ groups, ∀ x ∈ g.2.entries, (Address.join g.1 x.1).path? = some (g.1, x.1))
    (a : Address) :
    (groups.flatMap flatMembers).lookup a.raw =
      (a.path?.bind fun q => (groups.lookup q.1).bind (·.get? q.2)).map numeral := by
  induction groups with
  | nil => cases a.path? <;> rfl
  | cons g rest ih =>
    obtain ⟨category, items⟩ := g
    rw [List.map_cons, List.nodup_cons] at hnodup
    rw [List.flatMap_cons, List.lookup_append, flatMembers,
      lookup_items (hpath _ List.mem_cons_self), ih hnodup.2 fun g hg => hpath g (List.mem_cons_of_mem _ hg)]
    cases a.path? with
    | none => rfl
    | some q =>
      simp only [Option.bind_some, Keyed.lookup_cons_ite]
      split
      · rename_i hcategory
        -- the category stands here, so that the rest has no counter under the address
        have hrest : rest.lookup q.1 = none :=
          List.lookup_eq_none_iff.mpr fun g hg => bne_iff_ne.mpr fun heq =>
            hnodup.1 (List.mem_map.mpr ⟨g, hg, heq.symm.trans hcategory⟩)
        rw [hrest]
        simp [Keyed.get?]
      · simp

variable {p : Attainment}

/-- A number shows its counter. -/
@[simp] theorem counter?_numeral (n : Counter) : (numeral n).counter? = some n := by
  simp [numeral, Value.counter?, Number.counter?]

/-- The address of a counter leads back to its group and its name. -/
theorem path?_of_mem : ∀ g ∈ p.counters.entries, ∀ x ∈ g.2.entries,
    (Address.join g.1 x.1).path? = some (g.1, x.1) :=
  fun g hg x hx => Address.path?_join (p.category_ne g hg) (p.slash_notMem g hg) (p.item_ne g hg x hx)

/-- A flat document has the counter of an address under its text. -/
theorem get?_flat (a : Address) : p.flat.get? a.raw = (p.counter? a).map numeral :=
  lookup_flatMap p.counters.nodup_keys path?_of_mem a

/-- A counter under an address is that of an item of a category. -/
theorem exists_of_counter? {a : Address} {n : Counter} (h : p.counter? a = some n) :
    ∃ g ∈ p.counters.entries, ∃ x ∈ g.2.entries, a = Address.join g.1 x.1 ∧ x.2 = n := by
  simp only [counter?, Option.bind_eq_some_iff] at h
  obtain ⟨⟨category, item⟩, hpath, items, hitems, hcount⟩ := h
  exact ⟨_, mem_of_lookup hitems, _, mem_of_lookup hcount, Address.eq_join_of_path? hpath, rfl⟩

/-- No achievement has the name of an address with a counter. -/
theorem counter?_of_achievement {name : String} {a : Achievement}
    (h : p.achievements.get? name = some a) : p.counter? ⟨name⟩ = none := by
  rw [Option.eq_none_iff_forall_ne_some]
  intro n hn
  obtain ⟨g, hg, x, hx, hname, -⟩ := exists_of_counter? hn
  have hapart := p.apart g hg x hx
  rw [← hname, h] at hapart
  cases hapart

/-- An achievement among counters is no counter itself. -/
theorem get?_mixed (a : Address) :
    p.mixed.get? a.raw =
      ((p.achievements.get? a.raw).map (·.entry)).or ((p.counter? a).map numeral) := by
  simp only [mixed, Value.get?, Value.members?, Option.bind_some, List.lookup_append, lookup_map_snd,
    lookup_flatMap p.counters.nodup_keys path?_of_mem]
  rfl

/-- The counter of an address is found in a document of mixed entries. -/
theorem counter?_mixed (a : Address) : Era.mid.counter? p.mixed a = p.counter? a := by
  simp only [Era.counter?, get?_mixed]
  cases h : p.achievements.get? a.raw with
  | none => cases p.counter? a <;> simp
  | some achievement =>
    rw [counter?_of_achievement h]
    rfl

/-- The counter of an address is found in a nested document. -/
theorem counter?_nested (a : Address) : Era.modern.counter? p.nested a = p.counter? a := by
  have hstats : p.nested.get? "stats" = some (.object (p.counters.entries.map fun g =>
      (g.1, .object (g.2.entries.map fun x => (x.1, numeral x.2))))) := rfl
  simp only [Era.counter?, hstats, counter?, Option.bind_eq_bind, Option.bind_some]
  refine Option.bind_congr fun q _ => ?_
  simp only [Value.get?, Value.members?, Option.bind_some]
  rw [lookup_map_snd fun items : Keyed Counter =>
    Value.object (items.entries.map fun x => (x.1, numeral x.2))]
  simp only [Keyed.get?]
  cases p.counters.entries.lookup q.1 with
  | none => rfl
  | some items =>
    simp only [Option.map_some, Option.bind_some, lookup_map_snd]
    cases items.entries.lookup q.2 <;> simp

/-- **Every known era shows the counters.** -/
theorem exists_statistics {era : Era} (hera : era.isKnown = true) (world : Option String)
    (unlocks : Option Value) : ∃ doc, (p.sources era world unlocks).readStatistics era = some doc ∧
      ∀ a, era.counter? doc a = p.counter? a := by
  have hflat (a : Address) : (p.flat.get? a.raw).bind Value.counter? = p.counter? a := by
    rw [get?_flat]
    cases p.counter? a <;> simp
  cases era with
  | legacy => exact ⟨p.flat, rfl, hflat⟩
  | mid => exact ⟨p.mixed, rfl, counter?_mixed⟩
  | hybrid => exact ⟨p.flat, rfl, hflat⟩
  | modern => exact ⟨p.nested, rfl, counter?_nested⟩
  | unknown => cases hera

end Counters

section Achievements

variable {p : Attainment}

/-- The document of advancements has an entry for each achievement. -/
theorem get?_advancements (name : String) :
    p.advancements.get? name = (p.achievements.get? name).map (·.advancement) :=
  lookup_map_snd Achievement.advancement p.achievements.entries name

/-- A name without a counter shows its achievement also among counters. -/
theorem get?_mixed_of_none {name : String} (h : p.counter? ⟨name⟩ = none) :
    p.mixed.get? name = (p.achievements.get? name).map (·.entry) := by
  have hget := p.get?_mixed ⟨name⟩
  rw [h, Option.map_none, Option.or_none] at hget
  exact hget

/-- **Every era that counts per world shows what is done and what is earned.** -/
theorem exists_achievements {era : Era} (hera : era.isPerWorld = true) (world : Option String)
    (unlocks : Option Value) : ∃ doc, (p.sources era world unlocks).readAchievements era = some doc ∧
      ∀ name, p.counter? ⟨name⟩ = none → era.entryDone doc name = p.isDone name ∧
        ∀ criterion, era.criterionPresent doc name criterion = p.hasEarned name criterion := by
  have hmixed (name : String) (hname : p.counter? ⟨name⟩ = none) :
      Era.mid.entryDone p.mixed name = p.isDone name ∧
        ∀ criterion, Era.mid.criterionPresent p.mixed name criterion = p.hasEarned name criterion := by
    simp only [Era.entryDone, Era.criterionPresent, get?_mixed_of_none hname, isDone, hasEarned]
    cases p.achievements.get? name with
    | none => exact ⟨rfl, fun _ => rfl⟩
    | some a => exact ⟨a.value_entry, a.progress_entry⟩
  have hadvancements (name : String) : Era.modern.entryDone p.advancements name = p.isDone name ∧
      ∀ criterion, Era.modern.criterionPresent p.advancements name criterion =
        p.hasEarned name criterion := by
    simp only [Era.entryDone, Era.criterionPresent, get?_advancements, isDone, hasEarned]
    cases p.achievements.get? name <;> exact ⟨rfl, fun _ => rfl⟩
  cases era with
  | mid => exact ⟨p.mixed, rfl, hmixed⟩
  | hybrid => exact ⟨p.advancements, rfl, fun name _ => hadvancements name⟩
  | modern => exact ⟨p.advancements, rfl, fun name _ => hadvancements name⟩
  | legacy => cases hera
  | unknown => cases hera

end Achievements

end Attainment

end Milestone
