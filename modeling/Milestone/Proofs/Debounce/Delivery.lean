import Milestone.Proofs.Debounce.Play

/-!
# Delivery is exact

A value is released only if it was accepted an interval ago and none was accepted for its key since. Each
value that was accepted is superseded by a later one, or released once, at its deadline or when the senders
go. A value that is refused has no effect, and once the senders are gone the task releases what it holds and
finishes. This is so for every run of the task, whichever of several things it does first.
-/

namespace Milestone.Debouncer

variable {κ ν : Type} [DecidableEq κ]

/-- What becomes of a value that was taken at an early time, told by what the task does next for its key. -/
inductive Fate (interval : Nat) (log : List (Event κ ν)) (t : Task κ ν) (early : Nat) (key : κ) (value : ν) :
    Option (Event κ ν) → Prop where
  | superseded {time : Nat} {newer : ν} (htime : time ≤ early + interval) :
      Fate interval log t early key value (some (.taken time key newer))
  | released {time : Nat} (htime : time ≤ early + interval)
      (hdue : time = early + interval ∨ .ended time ∈ log) :
      Fate interval log t early key value (some (.released time key value))
  | held (hrunning : t.closed = false) (htime : t.now ≤ early + interval)
      (hheld : ⟨key, value, early + interval⟩ ∈ t.held) :
      Fate interval log t early key value none

/-- The value that was taken last for a key, if it was not released since. -/
def pending? (log : List (Event κ ν)) (key : κ) : Option (Nat × κ × ν) :=
  (last? log key).bind (·.taken?)

omit [DecidableEq κ] in
/-- What was accepted and not taken yet came just now, and what is taken is the first of it. -/
def KeepsOrder (before : List (Event κ ν)) (e : Event κ ν) : Prop :=
  ∃ waiting, sends before = takes before ++ waiting ∧ (∀ item ∈ waiting, item.1 = e.time) ∧
    ∀ item ∈ e.taken?, waiting.head? = some item

/-- A value does not come after the deadline of the one that it takes the place of. -/
def ComesInTime (interval : Nat) (before : List (Event κ ν)) (e : Event κ ν) : Prop :=
  ∀ item ∈ e.taken?, ∀ old ∈ pending? before item.2.1, item.1 ≤ old.1 + interval

/-- What goes into a task comes out of it. -/
structure IsExact (interval : Nat) (log : List (Event κ ν)) (t : Task κ ν) : Prop where
  /-- The task takes what was accepted, in its order and at the time at which it was accepted. -/
  inOrder : Throughout KeepsOrder log
  waiting : sends log = takes log ++ t.queue.map fun item => (t.now, item)
  released : Throughout (IsDue interval) log
  fate : ∀ before early key value after, log = before ++ .taken early key value :: after →
    Fate interval log t early key value (next? after key)
  /-- Without the values that were refused, all else is the same. -/
  refused : Run interval (log.filter (!·.isRefused)) t
  /-- Any later time is reached without values being sent, -/
  goesOn : t.ended = false → ∀ time, t.now ≤ time → ∃ events next, Steps t events next ∧
    answers events = [] ∧ endings events = [] ∧ next.IsAtRest ∧ next.now = time
  /-- and a task at rest is not behind. -/
  onTime : t.IsAtRest → ∀ h ∈ t.held, t.now < h.deadline
  /-- At any time the task stops working, -/
  comesToRest : Acc (fun next u => ∃ events, Work u events next) t
  /-- and if the senders are gone, it does not stop before it has finished and holds nothing. -/
  finishes : t.ended = true → (∀ events next, ¬Work t events next) →
    t.closed = true ∧ t.held = [] ∧ t.queue = []

section Order

/-- The events of a step are at the present time, and a take is the only one, that of the first value that
waits. -/
structure OfStep (t : Task κ ν) (before : List (Event κ ν)) (e : Event κ ν) : Prop where
  sends_eq : sends before = []
  takes_eq : takes before = []
  time_eq : e.time = t.now
  taken : ∀ item ∈ e.taken?, before = [] ∧ (t.queue.map fun item => (t.now, item)).head? = some item

omit [DecidableEq κ] in
/-- A batch of releases is one of a step at that time. -/
theorem ofStep_batch (t : Task κ ν) (batch : List (Held κ ν)) :
    Throughout (OfStep t) (batch.map (.ofHeld t.now)) := by
  intro before e after hsplit
  obtain ⟨first, later, -, rfl, hlater⟩ := List.map_eq_append_iff.mp hsplit
  obtain ⟨h, -, -, rfl, -⟩ := List.map_eq_cons_iff.mp hlater
  exact ⟨sends_map_ofHeld .., takes_map_ofHeld .., rfl, nofun⟩

/-- The events of a step are of its time. -/
theorem Step.ofStep {t next : Task κ ν} {events : List (Event κ ν)} (h : Step t events next) :
    Throughout (OfStep t) events := by
  cases h with
  | work h =>
    cases h with
    | take hrunning hqueue =>
      refine throughout_singleton ⟨rfl, rfl, rfl, fun item hitem => ⟨rfl, ?_⟩⟩
      rw [hqueue]
      exact hitem
    | wake => exact ofStep_batch t _
    | finish => exact ofStep_batch t _
  | send => exact throughout_singleton ⟨rfl, rfl, rfl, nofun⟩
  | refuse => exact throughout_singleton ⟨rfl, rfl, rfl, nofun⟩
  | pass => exact throughout_nil
  | leave => exact throughout_singleton ⟨rfl, rfl, rfl, nofun⟩

variable {interval : Nat} {log : List (Event κ ν)} {t : Task κ ν}

/-- The values of a run are taken in the order in which they were sent. -/
theorem run_keepsOrder (h : Run interval log t) : Throughout KeepsOrder log := by
  refine run_throughout h fun log t events next hfits hstep before e after hsplit => ?_
  obtain ⟨hsends, htakes, htime, htaken⟩ := hstep.ofStep before e after hsplit
  refine ⟨t.queue.map fun item => (t.now, item), ?_, fun item hitem => ?_, fun item hitem => ?_⟩
  · rw [sends_append, takes_append, hsends, htakes, List.append_nil, List.append_nil]
    exact hfits.sends_eq
  · obtain ⟨_, -, rfl⟩ := List.mem_map.mp hitem
    exact htime.symm
  · exact (htaken item hitem).2

/-- A value waits for its release if taking it was the last thing done for its key. -/
theorem pending?_eq_some_iff {key : κ} {time : Nat} {value : ν} :
    pending? log key = some (time, key, value) ↔ last? log key = some (.taken time key value) := by
  rw [pending?, Option.bind_eq_some_iff]
  constructor
  · rintro ⟨e, hlast, htaken⟩
    cases e with
    | taken =>
      cases Option.some.inj htaken
      exact hlast
    | _ => cases htaken
  · exact fun h => ⟨_, h, rfl⟩

/-- What waits for a key is a value of that key. -/
theorem key_eq_of_pending? {key : κ} {item : Nat × κ × ν} (h : pending? log key = some item) :
    item.2.1 = key := by
  obtain ⟨e, hlast, htaken⟩ := Option.bind_eq_some_iff.mp h
  have hkey : e.key? = some key := by simpa using List.find?_some hlast
  cases e with
  | taken time k value =>
    obtain rfl : (time, k, value) = item := Option.some.inj htaken
    exact Option.some.inj hkey
  | _ => cases htaken

/-- What is pending is held. -/
theorem Task.Fits.mem_held_of_pending? (hfits : t.Fits interval log) {key : κ} {item : Nat × κ × ν}
    (h : pending? log key = some item) : ⟨key, item.2.2, item.1 + interval⟩ ∈ t.held := by
  obtain ⟨time, k, value⟩ := item
  obtain rfl : k = key := key_eq_of_pending? h
  exact (hfits.mem_held_iff _).mpr ⟨time, pending?_eq_some_iff.mp h, rfl⟩

/-- In a run no value is taken after the deadline of the one that it takes the place of. -/
theorem run_comesInTime (h : Run interval log t) : Throughout (ComesInTime interval) log := by
  refine run_throughout h fun log t events next hfits hstep before e after hsplit => ?_
  intro item hitem old hold
  obtain ⟨rfl, hfirst⟩ := (hstep.ofStep before e after hsplit).taken item hitem
  obtain ⟨_, -, rfl⟩ := List.mem_map.mp (List.mem_of_head? hfirst)
  rw [List.append_nil] at hold
  exact hfits.now_le _ (hfits.mem_held_of_pending? hold)

end Order

section Fate

variable (log events : List (Event κ ν)) (key : κ)

/-- What comes next for a key, comes after things for other keys. -/
theorem next?_eq_some_iff {e : Event κ ν} :
    next? log key = some e ↔
      e.key? = some key ∧ ∃ before after, log = before ++ e :: after ∧ last? before key = none := by
  simp [next?, last?, List.find?_eq_some_iff_append]

/-- Nothing is done first for a key for which nothing is done last. -/
theorem next?_eq_none_iff : next? log key = none ↔ last? log key = none := by
  simp [next?, last?]

/-- A value that was taken is superseded, released or held. -/
theorem fate_of_run {interval : Nat} {log : List (Event κ ν)} {t : Task κ ν} (h : Run interval log t)
    {before after : List (Event κ ν)} {early : Nat} {key : κ} {value : ν}
    (hsplit : log = before ++ .taken early key value :: after) :
    Fate interval log t early key value (next? after key) := by
  have hfits := run_fits h
  have hlast : ∀ mid, last? mid key = none →
      last? (before ++ .taken early key value :: mid) key = some (.taken early key value) := by
    intro mid hmid
    rw [List.append_cons, last?_append, last?_append, hmid, last?_singleton]
    simp [Event.key?]
  cases hnext : next? after key with
  | none =>
    have hheld : ⟨key, value, early + interval⟩ ∈ t.held := by
      refine (hfits.mem_held_iff _).mpr ⟨early, ?_, rfl⟩
      rw [hsplit]
      exact hlast after ((next?_eq_none_iff ..).mp hnext)
    have hrunning : t.closed = false := by
      rw [← Bool.not_eq_true]
      intro hclosed
      rw [(hfits.finished hclosed).1] at hheld
      cases hheld
    exact .held hrunning (hfits.now_le _ hheld) hheld
  | some e =>
    obtain ⟨hkey, mid, later, rfl, hmid⟩ := (next?_eq_some_iff ..).mp hnext
    have hwhole : log = (before ++ .taken early key value :: mid) ++ e :: later := by
      rw [hsplit, List.append_assoc, List.cons_append]
    cases e with
    | taken time k newer =>
      obtain rfl : k = key := Option.some.inj hkey
      exact .superseded (run_comesInTime h _ _ _ hwhole _ rfl (early, k, value)
        (pending?_eq_some_iff.mpr (hlast mid hmid)))
    | released time k released =>
      obtain rfl : k = key := Option.some.inj hkey
      obtain ⟨taken, htaken, htime, hdue, -⟩ := run_isDue h _ _ _ hwhole _ _ _ rfl
      rw [hlast mid hmid] at htaken
      cases htaken
      refine .released htime (hdue.imp_right fun hended => ?_)
      rw [hwhole]
      exact List.mem_append_left _ hended
    | sent => cases hkey
    | refused => cases hkey
    | ended => cases hkey

end Fate

section Progress

variable {interval : Nat} {log : List (Event κ ν)} {t : Task κ ν}

/-- Of a step that is no refusal nothing is left out. -/
theorem run_filter_isRefused (h : Run interval log t) : Run interval (log.filter (!·.isRefused)) t := by
  induction h with
  | refl => exact .refl
  | step _ hstep ih =>
    rw [List.filter_append]
    have hbatch : ∀ (time : Nat) (batch : List (Held κ ν)),
        (batch.map (Event.ofHeld time)).filter (!·.isRefused) = batch.map (.ofHeld time) := by
      intro time batch
      refine List.filter_eq_self.mpr fun e he => ?_
      obtain ⟨h, -, rfl⟩ := List.mem_map.mp he
      rfl
    cases hstep with
    | work h =>
      cases h with
      | take hrunning hqueue => exact .step ih (.work (.take hrunning hqueue))
      | wake hrunning halarm hdue =>
        rw [hbatch]
        exact .step ih (.work (.wake hrunning halarm hdue))
      | finish hrunning hended hqueue hflushed =>
        rw [hbatch]
        exact .step ih (.work (.finish hrunning hended hqueue hflushed))
    | send key value hopen hroom => exact .step ih (.send key value hopen hroom)
    | refuse => simpa [Event.isRefused] using ih
    | pass time hlater hsleeps => exact .step ih (.pass time hlater hsleeps)
    | leave hopen => exact .step ih (.leave hopen)

namespace Task

/-- How much a task can do before it has to sleep. -/
def load (t : Task κ ν) : Nat :=
  if t.closed then 0
  else 1 + 2 * t.queue.length + t.held.length +
    if t.held.length = 0 ∧ t.alarm ≤ t.now then 1 else 0

/-- A task that wakes up with something held has something to release. -/
theorem Fits.exists_due (hfits : t.Fits interval log) (hrunning : t.closed = false)
    (halarm : t.alarm ≤ t.now) (hheld : t.held ≠ []) : ∃ h ∈ t.held, h.deadline ≤ t.now := by
  obtain ⟨g, hg⟩ := List.exists_mem_of_ne_nil _ hheld
  have hsome : t.nextDeadline?.isSome := List.isSome_min?_of_mem (List.mem_map_of_mem hg)
  obtain ⟨time, htime⟩ := Option.isSome_iff_exists.mp hsome
  obtain ⟨⟨h, hh, rfl⟩, -⟩ := nextDeadline?_eq_some_iff.mp htime
  rw [hfits.alarm_eq hrunning _ htime] at halarm
  exact ⟨h, hh, halarm⟩

/-- All work makes the load less. -/
theorem Fits.load_lt (hfits : t.Fits interval log) {events : List (Event κ ν)} {next : Task κ ν}
    (h : Work t events next) : next.load < t.load := by
  cases h with
  | @take key value rest hrunning hqueue =>
    have hothers : (t.held.filter fun h => h.key ≠ key).length ≤ t.held.length :=
      List.length_filter_le ..
    simp only [load, toDebouncer_rearm, accept_of_open hrunning, hrunning, queue_rearm, hqueue,
      List.length_append, List.length_cons, List.length_nil, Bool.false_eq_true, if_false]
    rw [if_neg fun hidle => Nat.succ_ne_zero _ hidle.1]
    omega
  | wake hrunning halarm _ =>
    have hnext : ∀ x ∈ t.held.filter (t.now < ·.deadline), t.now + 1 ≤ x.deadline :=
      fun x hx => of_decide_eq_true (List.mem_filter.mp hx).2
    -- It sleeps again, so that the load does not count waking up.
    have hlater := le_alarm_rearm
      (t := { t with toDebouncer := (t.toDebouncer.moveTo t.now).2 })
      (Nat.add_le_add_left (show 1 ≤ idlePoll by decide) _) hnext
    have hfewer : t.held.length ≠ 0 → (t.held.filter (t.now < ·.deadline)).length < t.held.length := by
      intro hlength
      obtain ⟨h, hh, hdue⟩ := hfits.exists_due hrunning halarm (List.ne_nil_of_length_pos (by omega))
      exact List.length_filter_lt_length_iff_exists.mpr ⟨h, hh, by simpa using hdue⟩
    simp only [load, toDebouncer_rearm, moveTo, hrunning, queue_rearm, Bool.false_eq_true, if_false]
      at hlater ⊢
    rw [if_neg fun hidle => Nat.not_le.mpr hlater hidle.2]
    by_cases hnone : t.held.length = 0
    · rw [if_pos ⟨hnone, halarm⟩, List.eq_nil_of_length_eq_zero hnone, List.filter_nil]
      exact Nat.lt_succ_self _
    · have hkept := hfewer hnone
      omega
  | finish hrunning _ _ _ =>
    simp only [load, close, hrunning, if_true, Bool.false_eq_true, if_false]
    omega

/-- So a task does not work forever. -/
theorem Fits.acc_work (hfits : t.Fits interval log) :
    Acc (fun next u => ∃ events, Work u events next) t := by
  induction hload : t.load using Nat.strongRecOn generalizing log t with
  | ind load ih =>
    subst hload
    exact .intro t fun next ⟨events, hwork⟩ => ih next.load (hfits.load_lt hwork) (hfits.step (.work hwork)) rfl

/-- What is held at rest is not due. -/
theorem Fits.lt_deadline (hfits : t.Fits interval log) (hrest : t.IsAtRest) {h : Held κ ν} (hh : h ∈ t.held) :
    t.now < h.deadline := by
  rcases hrest.2 with hclosed | ⟨hopen, hearly⟩
  · rw [(hfits.finished hclosed).1] at hh
    cases hh
  · exact Nat.lt_of_lt_of_le hearly (hfits.alarm_le (hfits.running_of_open hopen) hh)

/-- Without the senders a task that is not done has something to do. -/
theorem exists_work (hrunning : t.closed = false) (hended : t.ended = true) :
    ∃ events next, Work t events next := by
  cases hqueue : t.queue with
  | nil => exact ⟨_, _, .finish hrunning hended hqueue (.refl _)⟩
  | cons item rest => exact ⟨_, _, .take hrunning hqueue⟩

/-- After a task has taken what waits, it sleeps and wakes up until a time is reached. -/
theorem Fits.exists_steps_until (hfits : t.Fits interval log) (hopen : t.ended = false) {time : Nat}
    (hlater : t.now ≤ time) :
    ∃ events next, Steps t events next ∧ answers events = [] ∧ endings events = [] ∧
      next.IsAtRest ∧ next.now = time := by
  obtain ⟨idle, htake, hidle, hqueue, hended⟩ := steps_take (hfits.running_of_open hopen)
  have hnow : idle.now = t.now := by
    rw [hidle, now_foldl_accept]
  obtain ⟨next, hsteps, hnext, hnextqueue, hnextopen, hearly⟩ :=
    (hfits.steps htake).steps_moveTo hqueue (hended.trans hopen) (Nat.le_trans (Nat.le_of_eq hnow) hlater)
  refine ⟨_, next, htake.trans hsteps, ?_, ?_, ⟨hnextqueue, .inr ⟨hnextopen, hearly⟩⟩, by rw [hnext]; rfl⟩
  · rw [answers_append, answers_map_taken, answers_map_ofReleased, List.append_nil]
  · rw [endings_append, endings_map_taken, endings_map_ofReleased, List.append_nil]

end Task

/-- Delivery is exact in every run, and a debouncer in use is such a run. -/
theorem delivery_exact (interval : Nat) :
    (∀ (log : List (Event κ ν)) (t : Task κ ν), Run interval log t → IsExact interval log t) ∧
      ∀ actions : List (Action κ ν), ∃ log t, Run interval log t ∧ t.IsAtRest ∧
        t.toDebouncer = ((new interval).play actions).2 ∧
        answers log = ((new interval).play actions).1.answers ∧
        releases log = ((new interval).play actions).1.released := by
  refine ⟨fun log t h => ?_, exists_run_of_play interval⟩
  have hfits := run_fits h
  exact
    { inOrder := run_keepsOrder h
      waiting := hfits.sends_eq
      released := run_isDue h
      fate := fun _ _ _ _ _ hsplit => fate_of_run h hsplit
      refused := run_filter_isRefused h
      goesOn := fun hopen _ hlater => hfits.exists_steps_until hopen hlater
      onTime := fun hrest _ hh => hfits.lt_deadline hrest hh
      comesToRest := hfits.acc_work
      finishes := fun hended hdone => by
        have hclosed : t.closed = true := by
          rw [← Bool.not_eq_false]
          intro hrunning
          obtain ⟨events, next, hwork⟩ := Task.exists_work hrunning hended
          exact hdone events next hwork
        exact ⟨hclosed, (hfits.finished hclosed).1, (hfits.finished hclosed).2.1⟩ }

/-- The first value is superseded, two are released together, and the last one when the senders go. -/
theorem delivery_exact_burst : ∃ (log : List (Event String Nat)) (t : Task String Nat),
    Run 10 log t ∧ IsExact 10 log t ∧ t.closed = true ∧ answers log = [true, true, true, true] ∧
      releases log = [⟨14, "stats", 2⟩, ⟨14, "unlocks", 3⟩, ⟨20, "stats", 4⟩] := by
  obtain ⟨log, t, hrun, -, ht, hanswers, hreleases⟩ := (delivery_exact 10).2
    [.burst [("stats", 1)], .wait 4, .burst [("stats", 2), ("unlocks", 3)], .wait 10,
      .burst [("stats", 4)], .wait 6, .close]
  refine ⟨log, t, hrun, (delivery_exact 10).1 log t hrun, ?_, ?_, ?_⟩
  · rw [ht]
    decide
  · rw [hanswers]
    decide
  · rw [hreleases]
    decide

end Progress

end Milestone.Debouncer
