import Milestone.Proofs.Json.Lookup
import Milestone.Proofs.Run.Basic
import Mathlib.Data.List.Induction
import Mathlib.Data.List.Nodup

/-!
# Edits of the saved state

Every edit is about one key of one map, the overrides or the values of the custom goals. What a sequence of
edits leaves under a key is what the last edit about it left, and a state is determined by what it has under its
keys; so only the order of edits about the same key matters.
-/

namespace Milestone

namespace Keyed

variable {α : Type}

/-- The entries of a map are what it shows. -/
theorem mem_entries_iff {m : Keyed α} {e : String × α} : e ∈ m.entries ↔ m.get? e.1 = some e.2 :=
  ⟨fun h => Json.lookup_of_mem_of_nodup m.nodup_keys h, fun h => Json.mem_of_lookup h⟩

/-- Maps that show the same under every key are the same. -/
theorem ext_get? {a b : Keyed α} (h : ∀ key, a.get? key = b.get? key) : a = b := by
  have hperm : a.entries.Perm b.entries :=
    (List.perm_ext_iff_of_nodup a.nodup_keys.of_map b.nodup_keys.of_map).mpr fun e => by
      rw [mem_entries_iff, mem_entries_iff, h]
  have hnever (x y : String × α) : x ∈ a.entries → y ∈ b.entries → x.1 < y.1 → y.1 < x.1 → x = y :=
    fun _ _ hlt hgt => absurd hgt (String.lt_asymm hlt)
  exact Keyed.ext (hperm.eq_of_pairwise hnever a.sorted b.sorted)

/-- Nothing is erased where nothing is. -/
theorem erase_of_get?_eq_none {m : Keyed α} {key : String} (h : m.get? key = none) : m.erase key = m := by
  refine ext_get? fun k => ?_
  rw [get?_erase]
  split
  · rename_i heq
    rw [heq, h]
  · rfl

end Keyed

/-- What an edit is about: a key of the overrides or a custom goal. -/
inductive Target where
  | override (key : String)
  | custom (key : String)
  deriving DecidableEq

namespace SavedState

/-- What is recorded about a target. -/
def recorded (s : SavedState) : Target → Option CustomValue
  | .override key => (s.overrides.get? key).map .flag
  | .custom key => s.custom.get? key

/-- What an edit is about. -/
def Edit.target : Edit → Target
  | setOverride key _ | clearOverride key => .override key
  | setCustom key _ => .custom key

/-- What an edit leaves recorded about its target. -/
def Edit.left : Edit → Option CustomValue
  | setOverride _ value => some (.flag value)
  | clearOverride _ => none
  | setCustom _ value => some value

/-- An edit changes what is recorded about its target and nothing else. -/
theorem recorded_edit (s : SavedState) (e : Edit) (target : Target) :
    (s.edit e).recorded target = if target = e.target then e.left else s.recorded target := by
  cases e with
  | setOverride key value =>
    cases target with
    | override k =>
      simp only [edit, setOverride, recorded, Keyed.get?_insert, Edit.target, Edit.left,
        Target.override.injEq]
      split <;> rfl
    | custom k => rfl
  | clearOverride key =>
    cases target with
    | override k =>
      simp only [edit, clearOverride, recorded, Keyed.get?_erase, Edit.target, Edit.left,
        Target.override.injEq]
      split <;> rfl
    | custom k => rfl
  | setCustom key value =>
    cases target with
    | override k => rfl
    | custom k =>
      simp only [edit, setCustom, recorded, Keyed.get?_insert, Edit.target, Edit.left, Target.custom.injEq]

/-- A state is determined by what is recorded, its baseline and its world. -/
theorem ext_recorded {a b : SavedState} (h : ∀ target, a.recorded target = b.recorded target)
    (hbaseline : a.baseline = b.baseline) (hworld : a.world = b.world) : a = b := by
  have hflag : Function.Injective CustomValue.flag := fun _ _ heq => CustomValue.flag.inj heq
  have hoverrides : a.overrides = b.overrides :=
    Keyed.ext_get? fun key => Option.map_injective hflag (h (.override key))
  have hcustom : a.custom = b.custom := Keyed.ext_get? fun key => h (.custom key)
  cases a
  cases b
  simp_all

/-! ## Sequences of edits -/

/-- The state after some edits. -/
def editAll (s : SavedState) (edits : List Edit) : SavedState :=
  edits.foldl edit s

/-- Edits follow each other. -/
theorem editAll_append (s : SavedState) (edits later : List Edit) :
    s.editAll (edits ++ later) = (s.editAll edits).editAll later :=
  List.foldl_append

/-- Edits leave the baseline. -/
@[simp] theorem baseline_editAll (s : SavedState) (edits : List Edit) :
    (s.editAll edits).baseline = s.baseline := by
  induction edits generalizing s with
  | nil => rfl
  | cons e rest ih => exact (ih (s.edit e)).trans (edit_baseline s e)

/-- Edits leave the world. -/
@[simp] theorem world_editAll (s : SavedState) (edits : List Edit) :
    (s.editAll edits).world = s.world := by
  induction edits generalizing s with
  | nil => rfl
  | cons e rest ih => exact (ih (s.edit e)).trans (edit_world s e)

/-- What is recorded about a target is what the last edit about it left. -/
theorem recorded_editAll (s : SavedState) (edits : List Edit) (target : Target) :
    (s.editAll edits).recorded target =
      ((edits.filter (·.target = target)).getLast?.map Edit.left).getD (s.recorded target) := by
  induction edits using List.reverseRecOn with
  | nil => rfl
  | append_singleton edits e ih =>
    have hlast : s.editAll (edits ++ [e]) = (s.editAll edits).edit e := editAll_append s edits [e]
    rw [hlast, recorded_edit]
    by_cases htarget : e.target = target
    · simp [htarget]
    · simp [htarget, Ne.symm htarget, ih]

/-- Without an edit about a target, it stays as it was. -/
theorem recorded_editAll_of_not_mem {s : SavedState} {edits : List Edit} {target : Target}
    (h : ∀ e ∈ edits, e.target ≠ target) : (s.editAll edits).recorded target = s.recorded target := by
  have hnone : edits.filter (·.target = target) = [] :=
    List.filter_eq_nil_iff.mpr fun e he => by simpa using h e he
  rw [recorded_editAll, hnone]
  rfl

/-- Edits lead to the same state if they have the same order about each target. -/
theorem editAll_congr {s : SavedState} {edits edits' : List Edit}
    (h : ∀ target, edits'.filter (·.target = target) = edits.filter (·.target = target)) :
    s.editAll edits' = s.editAll edits := by
  refine ext_recorded (fun target => ?_) (by simp) (by simp)
  rw [recorded_editAll, recorded_editAll, h]

end SavedState

end Milestone
