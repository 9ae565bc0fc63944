import Milestone.Session.Basic

/-!
# The end of a tick

A tick that calls for a save hands the state to the store once. Whatever the answer, the session goes on
with the checklist and the state of the tick; only the mark of an unsaved state depends on it.
-/

namespace Milestone.Session

variable {σ : Type} (store : Store σ) (session : Session) (x : σ)

/-- A tick that calls for no save does not touch the surroundings. -/
theorem settle_of_clean {t : Tick} (h : t.dirty = false) :
    session.settle store t x =
      (({ session with checklist := t.checklist, state := t.state }, t.report), x) := by
  simp only [settle, h, Bool.false_eq_true, if_false]

/-- A tick that calls for a save makes one, and is marked as unsaved if it is rejected. -/
theorem settle_of_dirty {t : Tick} (h : t.dirty = true) :
    session.settle store t x =
      match (store.save t.state x).1 with
      | .ok _ => (({ session with checklist := t.checklist, state := t.state }, t.report),
          (store.save t.state x).2)
      | .error _ => (({ session with checklist := t.checklist, state := t.state, unsaved := true },
          { t.report with unsaved := true }), (store.save t.state x).2) := by
  simp only [settle, h, if_true]
  split <;> rename_i heq <;> rw [heq]

/-- A session goes on with the state of the tick. -/
theorem settle_state (t : Tick) : (session.settle store t x).1.1.state = t.state := by
  cases h : t.dirty with
  | false => rw [settle_of_clean store session x h]
  | true =>
    rw [settle_of_dirty store session x h]
    split <;> rfl

/-- What a store is given, and what is reported, depends on the state, on the report and on whether the tick
calls for a save. -/
theorem settle_congr {t u : Tick} (hdirty : t.dirty = u.dirty) (hstate : t.state = u.state)
    (hreport : t.report = u.report) :
    (session.settle store t x).1.2 = (session.settle store u x).1.2 ∧
      (session.settle store t x).2 = (session.settle store u x).2 := by
  cases h : u.dirty with
  | false =>
    rw [settle_of_clean store session x h, settle_of_clean store session x (hdirty.trans h)]
    exact ⟨hreport, rfl⟩
  | true =>
    rw [settle_of_dirty store session x h, settle_of_dirty store session x (hdirty.trans h), hstate,
      hreport]
    split <;> exact ⟨rfl, rfl⟩

end Milestone.Session
