import Milestone.Proofs.Checklist.Unnamed
import Milestone.Proofs.Session.Switch

/-!
# Runs without the names to show

Two checklists that are the same without the names to show are tracked alike. One move of a run keeps them so, and so
does a whole run; on the way both report the same and keep the same saved state. A session does no more than that with
a store, so that a store is handed the same in both runs, whether it accepts saves or not.
-/

namespace Milestone

namespace Standing

/-- Two trackings that are the same without the names to show. -/
structure SameUnnamed (st other : Standing) : Prop where
  checklist : st.checklist.unnamed = other.checklist.unnamed
  state : st.state = other.state

variable {version : Version} {st other : Standing}

/-- A tick of both reports the same. -/
theorem SameUnnamed.tick (h : st.SameUnnamed other) (now : Instant) (s : Sources) :
    (tick version now s st.checklist st.state).unnamed =
      (tick version now s other.checklist other.state).unnamed := by
  rw [← tick_unnamed, ← tick_unnamed, h.checklist, h.state]

/-- A move keeps two trackings the same but for the names to show. -/
theorem SameUnnamed.move (h : st.SameUnnamed other) (m : Move) :
    (st.move version m).SameUnnamed (other.move version m) := by
  cases m with
  | tick now s => exact ⟨congrArg (·.checklist) (h.tick now s), congrArg (·.state) (h.tick now s)⟩
  | edit e => exact ⟨h.checklist, congrArg (·.edit e) h.state⟩
  | replace c => exact ⟨rfl, h.state⟩

/-- So does a run. -/
theorem SameUnnamed.run (h : st.SameUnnamed other) (moves : List Move) :
    (st.run version moves).SameUnnamed (other.run version moves) := by
  induction moves generalizing st other with
  | nil => exact h
  | cons m rest ih => exact ih (h.move m)

/-- All along the way both report the same. -/
theorem SameUnnamed.reports_eq (h : st.SameUnnamed other) (moves : List Move) :
    st.reports version moves = other.reports version moves := by
  induction moves generalizing st other with
  | nil => rfl
  | cons m rest ih =>
    have hrest : (st.move version m).reports version rest = (other.move version m).reports version rest :=
      ih (h.move m)
    cases m with
    | tick now s => exact congrArg₂ List.cons (congrArg (·.report) (h.tick now s)) hrest
    | edit e => exact hrest
    | replace c => exact hrest

end Standing

namespace Session

variable {σ : Type} (store : Store σ)

/-- A session without the names to show. -/
def unnamed (session : Session) : Session :=
  { session with checklist := session.checklist.unnamed }

/-- What a turn leaves and reports, without the names to show. -/
def turnUnnamed (r : (Session × Report) × σ) : (Session × Report) × σ :=
  ((r.1.1.unnamed, r.1.2), r.2)

/-- The first part of a tick reads no checklist. -/
theorem refresh_unnamed (session : Session) (x : σ) :
    session.unnamed.refresh store x =
      ((session.refresh store x).1.unnamed, (session.refresh store x).2) := by
  have hunsaved : session.unnamed.unsaved = session.unsaved := rfl
  have hstate : session.unnamed.state = session.state := rfl
  unfold refresh
  rw [hunsaved, hstate]
  cases session.unsaved with
  | false =>
    simp only [Bool.false_eq_true, if_false]
    rcases store.load x with ⟨_ | _, y⟩ <;> rfl
  | true =>
    simp only [if_true]
    rcases store.save session.state x with ⟨_ | _, y⟩
    · rfl
    · simp only [Bool.false_eq_true, if_false]
      rcases store.load y with ⟨_ | _, z⟩ <;> rfl

/-- The last part hands on the checklist of the tick. -/
theorem settle_unnamed (session : Session) (t : Tick) (x : σ) :
    session.unnamed.settle store t.unnamed x = turnUnnamed (session.settle store t x) := by
  have hdirty : t.unnamed.dirty = t.dirty := rfl
  have hstate : t.unnamed.state = t.state := rfl
  unfold settle
  rw [hdirty, hstate]
  cases t.dirty with
  | false => rfl
  | true =>
    simp only [if_true]
    rcases store.save t.state x with ⟨_ | _, y⟩ <;> rfl

/-- A turn of a session commutes with taking away the names to show. -/
theorem takeTurn_unnamed (session : Session) (x : σ) (turn : Turn σ) :
    takeTurn store (session.unnamed, x) turn = turnUnnamed (takeTurn store (session, x) turn) := by
  have hnext (sources : σ → Sources) (y : σ) : session.unnamed.nextTick store y sources turn.now =
      (session.nextTick store y sources turn.now).unnamed := by
    rw [nextTick, nextTick, refresh_unnamed]
    exact tick_unnamed ..
  rw [takeTurn, takeTurn, tick_eq, tick_eq, hnext, refresh_unnamed, settle_unnamed]

/-- So do all its turns. -/
theorem ticks_unnamed (session : Session) (x : σ) (turns : List (Turn σ)) :
    ticks store (session.unnamed, x) turns = (ticks store (session, x) turns).map turnUnnamed := by
  induction turns generalizing session x with
  | nil => rfl
  | cons turn rest ih =>
    have hafter : afterTurn store (session.unnamed, x) turn =
        ((afterTurn store (session, x) turn).1.unnamed, (afterTurn store (session, x) turn).2) := by
      rw [afterTurn, takeTurn_unnamed]
      rfl
    rw [ticks, ticks, takeTurn_unnamed, hafter, ih, List.map_cons]

/-- Sessions that are the same without the names to show make the same turns. -/
theorem ticks_congr_unnamed {session other : Session} (h : session.unnamed = other.unnamed) (x : σ)
    (turns : List (Turn σ)) :
    (ticks store (session, x) turns).map turnUnnamed = (ticks store (other, x) turns).map turnUnnamed := by
  rw [← ticks_unnamed, ← ticks_unnamed, h]

/-- A new session takes over the same from a saved state. -/
theorem start_unnamed (settings : Settings) (state : SavedState) (c : Checklist) :
    start settings state c.unnamed = (start settings state c).unnamed := by
  have hseed : seed settings.version.era state c.unnamed = (seed settings.version.era state c).unnamed :=
    Checklist.recompute_unnamed _ { c with baseline := state.baseline, world := state.world }
  rw [start, hseed]
  rfl

end Session

end Milestone
