import Milestone.Proofs.Saved.Holds
import Milestone.Proofs.Session.Settle

/-!
# The saves of a tick

A tick of a session tries up to two saves: first the outstanding one once more, if there is one, and in the
end its own, if it calls for one. This file says of each part of a tick which saves it tries, what it leaves
in the store, and what becomes of the mark of an unsaved state. A store that keeps a log of its saves shows
that these are all.
-/

namespace Milestone.Session

variable {σ : Type} (store : Store σ) (session : Session) (x : σ)

/-- The outstanding save, if there is one: whether it is accepted now. -/
def retries : List Bool :=
  if session.unsaved then [store.accepts session.state x] else []

/-- The save that a tick calls for, if it does: whether it is accepted. -/
def ownTries (t : Tick) : List Bool :=
  if t.dirty then [store.accepts t.state x] else []

/-- The tick that a session makes after the state was loaded or kept. -/
def nextTick (sources : σ → Sources) (now : Instant) : Tick :=
  let next := session.refresh store x
  Milestone.tick next.1.version now (sources next.2) next.1.checklist next.1.state

/-- The saves that a tick tries, the last one in front: whether each is accepted. -/
def tries (sources : σ → Sources) (now : Instant) : List Bool :=
  ownTries store (session.refresh store x).2 (session.nextTick store x sources now) ++
    session.retries store x

theorem tick_eq (sources : σ → Sources) (now : Instant) :
    session.tick store sources now x =
      (session.refresh store x).1.settle store (session.nextTick store x sources now)
        (session.refresh store x).2 := rfl

section Notes

variable {α : Type} (note : SavedState → σ → α) (notes : List α)

/-- A store with notes serves the first part of a tick as without them, and notes the outstanding save. -/
theorem refresh_noting :
    session.refresh (store.noting note) (x, notes) =
      ((session.refresh store x).1,
        ((session.refresh store x).2,
          (if session.unsaved then [note session.state x] else []) ++ notes)) := by
  unfold refresh
  cases session.unsaved with
  | false =>
    simp only [Store.noting, Bool.false_eq_true, if_false, List.nil_append]
    rcases store.load x with ⟨_ | _, y⟩ <;> rfl
  | true =>
    simp only [Store.noting, if_true]
    rcases store.save session.state x with ⟨_ | _, y⟩
    · rfl
    · simp only [Bool.false_eq_true, if_false, List.cons_append, List.nil_append]
      rcases store.load y with ⟨_ | _, z⟩ <;> rfl

/-- It serves the last part of a tick as without them, and notes the save of the tick. -/
theorem settle_noting (t : Tick) :
    session.settle (store.noting note) t (x, notes) =
      ((session.settle store t x).1,
        ((session.settle store t x).2, (if t.dirty then [note t.state x] else []) ++ notes)) := by
  unfold settle
  cases t.dirty with
  | false => rfl
  | true =>
    simp only [Store.noting, if_true]
    rcases store.save t.state x with ⟨_ | _, y⟩ <;> rfl

end Notes

section Log

variable (log : List Bool)

/-- A store with a log serves the first part of a tick as without one, and finds the outstanding save in
its log. -/
theorem refresh_logged :
    session.refresh store.logged (x, log) =
      ((session.refresh store x).1,
        ((session.refresh store x).2, session.retries store x ++ log)) :=
  refresh_noting store session x store.accepts log

/-- It serves the last part of a tick as without one, and finds the save of the tick in its log. -/
theorem settle_logged (t : Tick) :
    session.settle store.logged t (x, log) =
      ((session.settle store t x).1, ((session.settle store t x).2, ownTries store x t ++ log)) :=
  settle_noting store session x store.accepts log t

/-- A log finds the saves of a tick, and makes no difference to it. -/
theorem tick_logged (sources : σ → Sources) (now : Instant) :
    session.tick store.logged (fun y => sources y.1) now (x, log) =
      ((session.tick store sources now x).1,
        ((session.tick store sources now x).2, session.tries store x sources now ++ log)) := by
  have htick : session.nextTick store.logged (x, log) (fun y => sources y.1) now =
      session.nextTick store x sources now := by
    simp only [nextTick, refresh_logged]
  rw [tick_eq, htick, refresh_logged, settle_logged, tick_eq, tries, List.append_assoc]

end Log

section Record

/-- A store with a record serves a tick as without one. Its record has the state of the outstanding save
if there is one, and then the state that the tick leaves if it calls for a save. -/
theorem tick_recorded (sources : σ → Sources) (now : Instant) :
    session.tick store.recorded (fun y => sources y.1) now (x, []) =
      ((session.tick store sources now x).1,
        ((session.tick store sources now x).2,
          (if (session.nextTick store x sources now).dirty then
            [(session.nextTick store x sources now).state] else []) ++
          if session.unsaved then [session.state] else [])) := by
  have hrefresh := refresh_noting store session x (fun s _ => s) []
  have htick : session.nextTick store.recorded (x, []) (fun y => sources y.1) now =
      session.nextTick store x sources now := by
    simp only [nextTick, Store.recorded, hrefresh]
  rw [tick_eq, htick, Store.recorded, hrefresh, settle_noting, tick_eq, List.append_nil]

end Record

section Parts

/-- The mark stays if the outstanding save is rejected again. -/
theorem refresh_unsaved :
    (session.refresh store x).1.unsaved = true ↔ false ∈ session.retries store x := by
  unfold refresh retries
  cases session.unsaved with
  | false =>
    simp only [Bool.false_eq_true, if_false, List.not_mem_nil, iff_false, Bool.not_eq_true]
    rcases store.load x with ⟨_ | _, y⟩ <;> rfl
  | true =>
    simp only [if_true, List.mem_singleton, Store.accepts]
    rcases store.save session.state x with ⟨_ | _, y⟩
    · simp only [if_true]
    · simp only [Bool.false_eq_true, if_false, iff_false, Bool.not_eq_true]
      rcases store.load y with ⟨_ | _, z⟩ <;> rfl

/-- An outstanding save that is rejected again leaves the session as it was. -/
theorem refresh_of_rejected (h : session.unsaved = true)
    (hrejected : store.accepts session.state x = false) :
    session.refresh store x = (session, (store.save session.state x).2) := by
  obtain ⟨version, saves, template, names, checklist, state, unsaved⟩ := session
  cases h
  unfold refresh
  simp only [Store.accepts, if_true] at hrejected ⊢
  rcases hsave : store.save state x with ⟨_ | _, y⟩
  · rfl
  · rw [hsave] at hrejected
    cases hrejected

/-- A tick that calls for a save is marked if that save is rejected; no tick takes a mark away. -/
theorem settle_unsaved (t : Tick) :
    (session.settle store t x).1.1.unsaved = true ↔
      session.unsaved = true ∨ false ∈ ownTries store x t := by
  unfold ownTries
  cases hdirty : t.dirty with
  | false =>
    rw [settle_of_clean store session x hdirty]
    simp only [Bool.false_eq_true, if_false, List.not_mem_nil, or_false]
  | true =>
    rw [settle_of_dirty store session x hdirty]
    simp only [if_true, List.mem_singleton, Store.accepts]
    rcases store.save t.state x with ⟨_ | _, y⟩
    · simp only [or_true]
    · simp only [Bool.false_eq_true, or_false]

/-- **The mark of an unsaved state says that a save of the tick was rejected**, be it the outstanding one
or its own. -/
theorem tick_unsaved (sources : σ → Sources) (now : Instant) :
    (session.tick store sources now x).1.1.unsaved = true ↔
      false ∈ session.tries store x sources now := by
  rw [tick_eq, settle_unsaved, refresh_unsaved, tries, List.mem_append, or_comm]

/-- A single save that was not rejected was accepted. -/
theorem true_mem_of_false_not_mem {accepted : Bool} (h : false ∉ [accepted]) : true ∈ [accepted] := by
  cases accepted with
  | false => exact absurd List.mem_cons_self h
  | true => exact List.mem_cons_self

/-- The first part of a tick tries no save exactly if none is outstanding. -/
theorem retries_eq_nil : session.retries store x = [] ↔ session.unsaved = false := by
  unfold retries
  cases session.unsaved <;> simp

/-- A rejected save is not the last one of a tick only if the outstanding save is rejected again and the
tick's own is accepted. -/
theorem tries_of_last_accepted {sources : σ → Sources} {now : Instant}
    (hfalse : false ∈ session.tries store x sources now)
    (hlast : (session.tries store x sources now).head? ≠ some false) :
    session.tries store x sources now = [true, false] := by
  unfold tries ownTries retries at hfalse hlast ⊢
  cases hdirty : (session.nextTick store x sources now).dirty <;>
    cases hunsaved : session.unsaved <;>
      simp only [hdirty, hunsaved, Bool.false_eq_true, if_true, if_false, List.append_nil,
        List.nil_append, List.cons_append, List.mem_cons, List.not_mem_nil, or_false,
        List.head?_cons, ne_eq, Option.some.injEq] at hfalse hlast ⊢
  · exact absurd hfalse.symm hlast
  · exact absurd hfalse.symm hlast
  · have hown := (Bool.not_eq_false _).mp hlast
    rw [hown] at hfalse ⊢
    rcases hfalse with hfalse | hfalse
    · cases hfalse
    · rw [← hfalse]

/-- In such a tick its own save is accepted. -/
theorem own_of_tries {sources : σ → Sources} {now : Instant}
    (h : session.tries store x sources now = [true, false]) :
    true ∈ ownTries store (session.refresh store x).2 (session.nextTick store x sources now) := by
  unfold tries ownTries retries at h
  unfold ownTries
  cases hdirty : (session.nextTick store x sources now).dirty <;>
    cases hunsaved : session.unsaved <;>
      simp only [hdirty, hunsaved, Bool.false_eq_true, if_true, if_false, List.append_nil,
        List.nil_append, List.cons_append, List.cons.injEq, List.mem_singleton] at h ⊢
  · cases h
  · cases h.2
  · cases h.2
  · exact h.1.symm

end Parts

section Kept

variable {store} {held : σ → SavedState} (hstore : store.Keeps held)

include hstore

/-- What the store holds after the last part of a tick. -/
theorem held_settle (t : Tick) :
    held (session.settle store t x).2 =
      if true ∈ ownTries store x t then t.state else held x := by
  unfold ownTries
  cases hdirty : t.dirty with
  | false =>
    rw [settle_of_clean store session x hdirty]
    simp
  | true =>
    have hplace : (session.settle store t x).2 = (store.save t.state x).2 := by
      rw [settle_of_dirty store session x hdirty]
      split <;> rfl
    rw [hplace]
    cases hsave : store.accepts t.state x with
    | false => simpa using hstore.rejected _ x hsave
    | true => simpa using hstore.accepted _ x hsave

/-- After a last part without a rejected save the store holds the state of the tick, provided that it held the
state of the session before, and that a tick that calls for no save keeps that state. -/
theorem held_settle_of_saved {t : Tick} (hheld : session.unsaved = false → held x = session.state)
    (hclean : t.dirty = false → t.state = session.state)
    (hsaved : (session.settle store t x).1.1.unsaved = false) :
    held (session.settle store t x).2 = t.state := by
  rw [← Bool.not_eq_true, settle_unsaved, not_or, Bool.not_eq_true] at hsaved
  obtain ⟨hbefore, hown⟩ := hsaved
  rw [held_settle _ _ hstore]
  cases hdirty : t.dirty with
  | true =>
    rw [ownTries, if_pos hdirty] at hown ⊢
    rw [if_pos (true_mem_of_false_not_mem hown)]
  | false =>
    rw [ownTries, hdirty, if_neg Bool.false_ne_true, if_neg List.not_mem_nil, hclean hdirty,
      hheld hbefore]

end Kept

section Held

variable {store} {held : σ → SavedState} (hstore : store.Holds held)

include hstore

/-- Without an outstanding save the state is loaded. -/
theorem refresh_of_saved (h : session.unsaved = false) :
    session.refresh store x =
      ({ session with state := held x, unsaved := false }, (store.load x).2) := by
  have hload : store.load x = (.ok (held x), (store.load x).2) := by rw [← hstore.load x]
  unfold refresh
  rw [h]
  simp only [Bool.false_eq_true, if_false]
  rw [hload]

/-- After an outstanding save that is accepted, the state that was saved is loaded. -/
theorem refresh_of_accepted (h : session.unsaved = true)
    (haccepted : store.accepts session.state x = true) :
    session.refresh store x =
      ({ session with unsaved := false }, (store.load (store.save session.state x).2).2) := by
  have hheld := hstore.accepted session.state x haccepted
  have hload := hstore.load (store.save session.state x).2
  unfold refresh
  rw [h]
  simp only [Store.accepts, if_true] at haccepted hheld hload ⊢
  rcases hsave : store.save session.state x with ⟨_ | _, y⟩
  · rw [hsave] at haccepted
    cases haccepted
  · rw [hsave] at hheld hload
    simp only [Bool.false_eq_true, if_false]
    have hpair : store.load y = (.ok session.state, (store.load y).2) := by
      rw [← hheld, ← hload]
    rw [hpair]

/-- The state with which a tick goes on: the one in memory while a save is outstanding, else the one that
the store holds. -/
theorem refresh_state :
    (session.refresh store x).1.state = if session.unsaved then session.state else held x := by
  cases h : session.unsaved with
  | false => rw [refresh_of_saved session x hstore h]; rfl
  | true =>
    cases hsave : store.accepts session.state x with
    | false => rw [refresh_of_rejected store session x h hsave]; rfl
    | true => rw [refresh_of_accepted session x hstore h hsave]; rfl

/-- What the store holds after the first part of a tick. -/
theorem held_refresh :
    held (session.refresh store x).2 =
      if true ∈ session.retries store x then session.state else held x := by
  unfold retries
  cases h : session.unsaved with
  | false =>
    rw [refresh_of_saved session x hstore h]
    simpa using hstore.held_load x
  | true =>
    cases hsave : store.accepts session.state x with
    | false =>
      rw [refresh_of_rejected store session x h hsave]
      simpa using hstore.rejected _ x hsave
    | true =>
      rw [refresh_of_accepted session x hstore h hsave]
      simpa using (hstore.held_load _).trans (hstore.accepted _ x hsave)

end Held

end Milestone.Session
