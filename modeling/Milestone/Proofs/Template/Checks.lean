import Mathlib.Data.List.Forall2
import Milestone.Template.Build

/-!
# Chains of checks

Reading a template is a chain of checks that ends at the first fault. A chain that succeeds has passed every
check, and a list that was checked item by item has as many results as items, each from its own item.
-/

namespace Milestone.Template

variable {ε α β : Type}

/-- A chain of two checks succeeds if the second one does on a result of the first. -/
theorem bind_eq_ok_iff {x : Except ε α} {f : α → Except ε β} {b : β} :
    (x >>= f) = .ok b ↔ ∃ a, x = .ok a ∧ f a = .ok b := by
  cases x with
  | error e => simp [bind, Except.bind]
  | ok a => simp [bind, Except.bind]

/-- A result that is there is the result of no check. -/
theorem pure_eq_ok_iff {a b : α} : (pure a : Except ε α) = .ok b ↔ a = b := by
  simp only [pure, Except.pure, Except.ok.injEq]

/-- Checking the items of a list gives one result for each, in their order. -/
theorem mapM_eq_ok_iff {f : α → Except ε β} {xs : List α} {ys : List β} :
    xs.mapM f = .ok ys ↔ List.Forall₂ (fun x y => f x = .ok y) xs ys := by
  induction xs generalizing ys with
  | nil =>
    rw [List.mapM_nil, pure_eq_ok_iff, List.forall₂_nil_left_iff]
    exact eq_comm
  | cons x rest ih =>
    simp only [List.mapM_cons, bind_eq_ok_iff, pure_eq_ok_iff, ih, List.forall₂_cons_left_iff]
    constructor
    · rintro ⟨y, hy, results, hrest, rfl⟩
      exact ⟨y, results, hy, hrest, rfl⟩
    · rintro ⟨y, results, hy, hrest, rfl⟩
      exact ⟨y, hy, results, hrest, rfl⟩

/-- Each result of a checked list is that of one of its items. -/
theorem exists_of_mem_of_forall₂ {r : α → β → Prop} {xs : List α} {ys : List β}
    (h : List.Forall₂ r xs ys) {y : β} (hy : y ∈ ys) : ∃ x ∈ xs, r x y := by
  induction h with
  | nil => cases hy
  | cons hr _ ih =>
    rcases List.mem_cons.mp hy with rfl | hy
    · exact ⟨_, List.mem_cons_self, hr⟩
    · obtain ⟨x, hx, hr⟩ := ih hy
      exact ⟨x, List.mem_cons_of_mem _ hx, hr⟩

/-- Each result of a list that was read is that of one of its items. -/
theorem exists_of_mem_of_mapM {f : α → Option β} {xs : List α} {ys : List β} (h : xs.mapM f = some ys)
    {y : β} (hy : y ∈ ys) : ∃ x ∈ xs, f x = some y := by
  induction xs generalizing ys with
  | nil =>
    cases h
    cases hy
  | cons x rest ih =>
    simp only [List.mapM_cons, Option.bind_eq_bind, Option.bind_eq_some_iff, Option.pure_def] at h
    obtain ⟨first, hfirst, results, hrest, heq⟩ := h
    cases heq
    rcases List.mem_cons.mp hy with rfl | hy
    · exact ⟨x, List.mem_cons_self, hfirst⟩
    · obtain ⟨x', hx', hread⟩ := ih hrest hy
      exact ⟨x', List.mem_cons_of_mem _ hx', hread⟩

/-- Each entry of a listed section is built from one of its declarations. -/
theorem forall₂_of_buildListed {part : String} {name : α → String}
    {build : α → Except TemplateError β} {seen : List String} {xs : List α} {ys : List β}
    (h : buildListed part name build seen xs = .ok ys) :
    List.Forall₂ (fun x y => build x = .ok y) xs ys := by
  induction xs generalizing seen ys with
  | nil =>
    cases h
    exact .nil
  | cons d rest ih =>
    unfold buildListed at h
    split at h
    · cases h
    · simp only [bind_eq_ok_iff, pure_eq_ok_iff] at h
      obtain ⟨y, hy, results, hrest, rfl⟩ := h
      exact .cons hy (ih hrest)

end Milestone.Template
