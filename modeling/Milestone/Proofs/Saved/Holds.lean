import Milestone.Proofs.Run.Basic
import Milestone.Saved.Store

/-!
# What a store holds

A store may reject any save, as long as a rejected save leaves what it holds, and it may also fail to load.
Others change what a store
holds through the same operations: they load the state, edit it and save it.
-/

namespace Milestone

namespace Store

variable {σ : Type}

/-- Whether a store accepts a state. -/
def accepts (store : Store σ) (s : SavedState) (x : σ) : Bool :=
  match (store.save s x).1 with
  | .ok _ => true
  | .error _ => false

/-- A store that can always be loaded, and holds the state of the last save that it accepted. -/
structure Holds (store : Store σ) (held : σ → SavedState) : Prop where
  load : ∀ x, (store.load x).1 = .ok (held x)
  held_load : ∀ x, held (store.load x).2 = held x
  accepted : ∀ s x, store.accepts s x = true → held (store.save s x).2 = s
  rejected : ∀ s x, store.accepts s x = false → held (store.save s x).2 = held x

/-- A store that may fail to load at any time, and otherwise holds the state of the last save that it
accepted. -/
structure Keeps (store : Store σ) (held : σ → SavedState) : Prop where
  loaded : ∀ x s, (store.load x).1 = .ok s → s = held x
  held_load : ∀ x, held (store.load x).2 = held x
  accepted : ∀ s x, store.accepts s x = true → held (store.save s x).2 = s
  rejected : ∀ s x, store.accepts s x = false → held (store.save s x).2 = held x

/-- Loads the state, edits it and saves it. -/
def edit (store : Store σ) (e : SavedState.Edit) (x : σ) : Except StateError Unit × σ :=
  match store.load x with
  | (.ok s, x) => store.save (s.edit e) x
  | (.error cause, x) => (.error cause, x)

/-- The surroundings that others can lead to between two ticks: by edits that the store accepts, and by
anything that leaves what it holds. -/
inductive Between (store : Store σ) (held : σ → SavedState) (x : σ) : σ → Prop where
  | refl : Between store held x x
  | edit {y : σ} (e : SavedState.Edit) (h : Between store held x y)
      (haccepted : (store.edit e y).1 = .ok ()) : Between store held x (store.edit e y).2
  | change {y z : σ} (h : Between store held x y) (hheld : held z = held y) : Between store held x z

/-- The store with a log of its saves, which says of each whether it was accepted, the last one in
front. -/
def logged (store : Store σ) : Store (σ × List Bool) where
  load x := ((store.load x.1).1, ((store.load x.1).2, x.2))
  save s x := ((store.save s x.1).1, ((store.save s x.1).2, store.accepts s x.1 :: x.2))

/-- The store with notes on its saves, the last one in front. -/
def noting {α : Type} (store : Store σ) (note : SavedState → σ → α) : Store (σ × List α) where
  load x := ((store.load x.1).1, ((store.load x.1).2, x.2))
  save s x := ((store.save s x.1).1, ((store.save s x.1).2, note s x.1 :: x.2))

/-- The store with a record of the states that are handed to it, the last one in front. -/
def recorded (store : Store σ) : Store (σ × List SavedState) :=
  store.noting fun s _ => s

variable {store : Store σ} {held : σ → SavedState}

theorem accepts_of_ok {s : SavedState} {x : σ} (h : (store.save s x).1 = .ok ()) :
    store.accepts s x = true := by
  simp only [accepts, h]

/-- A store that can always be loaded is one that may fail to load. -/
theorem Holds.keeps (hstore : store.Holds held) : store.Keeps held where
  loaded x s h := by
    rw [hstore.load, Except.ok.injEq] at h
    exact h.symm
  held_load := hstore.held_load
  accepted := hstore.accepted
  rejected := hstore.rejected

/-- An edit that is accepted changes what the store holds by that edit. -/
theorem Holds.held_edit (hstore : store.Holds held) {e : SavedState.Edit} {x : σ}
    (h : (store.edit e x).1 = .ok ()) : held (store.edit e x).2 = (held x).edit e := by
  have hload : store.load x = (.ok (held x), (store.load x).2) := by rw [← hstore.load x]
  have hedit : store.edit e x = store.save ((held x).edit e) (store.load x).2 := by
    rw [edit, hload]
  rw [hedit] at h ⊢
  exact hstore.accepted _ _ (accepts_of_ok h)

/-- Between two ticks only edits change what the store holds. -/
theorem Holds.held_between (hstore : store.Holds held) {x y : σ} (h : store.Between held x y) :
    ∃ edits : List SavedState.Edit, held y = edits.foldl SavedState.edit (held x) := by
  induction h with
  | refl => exact ⟨[], rfl⟩
  | edit e _ haccepted ih =>
    obtain ⟨edits, hedits⟩ := ih
    refine ⟨edits ++ [e], ?_⟩
    rw [hstore.held_edit haccepted, hedits, List.foldl_append]
    rfl
  | change _ hheld ih =>
    obtain ⟨edits, hedits⟩ := ih
    exact ⟨edits, hheld.trans hedits⟩

end Store

/-- The store in memory holds its state. -/
theorem MemoryStore.holds : MemoryStore.store.Holds MemoryStore.state where
  load _ := rfl
  held_load _ := rfl
  accepted s m h := by
    simp only [Store.accepts, store, save] at h ⊢
    by_cases hrejects : 0 < m.rejections
    · simp only [if_pos hrejects, Bool.false_eq_true] at h
    · simp only [if_neg hrejects]
  rejected s m h := by
    simp only [Store.accepts, store, save] at h ⊢
    by_cases hrejects : 0 < m.rejections
    · simp only [if_pos hrejects]
    · simp only [if_neg hrejects, Bool.true_eq_false] at h

/-- The store in memory accepts every edit once it rejects no more. -/
theorem MemoryStore.edit_accepted {m : MemoryStore} (h : m.rejections = 0) (e : SavedState.Edit) :
    (store.edit e m).1 = .ok () := by
  simp only [store, Store.edit, load, save, h, Nat.lt_irrefl, if_false]

end Milestone
