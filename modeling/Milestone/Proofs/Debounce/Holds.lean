import Milestone.Proofs.Debounce.Task

/-!
# What the task holds

At any time the task holds exactly the values that it took last for their keys and has not released since,
and no deadline of these has passed. So a value that it releases is the last one that it took for its key.
-/

namespace Milestone.Debouncer

variable {κ ν : Type}

/-- Each event of a log is as what came before it allows. -/
def Throughout (p : List (Event κ ν) → Event κ ν → Prop) (log : List (Event κ ν)) : Prop :=
  ∀ before e after, log = before ++ e :: after → p before e

section Throughout

variable {p : List (Event κ ν) → Event κ ν → Prop}

/-- Nothing is amiss where nothing has happened. -/
theorem throughout_nil : Throughout p [] := by
  intro before e after hsplit
  simp at hsplit

/-- A single event is as nothing before it allows. -/
theorem throughout_singleton {e : Event κ ν} (h : p [] e) : Throughout p [e] := by
  intro before first after hsplit
  cases before with
  | nil =>
    obtain ⟨rfl, -⟩ := List.cons.inj hsplit
    exact h
  | cons _ before => simp at hsplit

/-- It is enough that events are allowed after anything. -/
theorem throughout_of_forall {log : List (Event κ ν)} (h : ∀ e ∈ log, ∀ before, p before e) :
    Throughout p log := by
  rintro before e after rfl
  exact h e (by simp) before

/-- A log is as it should be if its first part is, and the second one after the first. -/
theorem throughout_append {log events : List (Event κ ν)} :
    Throughout p (log ++ events) ↔
      Throughout p log ∧ Throughout (fun before e => p (log ++ before) e) events := by
  constructor
  · intro h
    refine ⟨fun before e after hsplit => h before e (after ++ events) ?_,
      fun before e after hsplit => h (log ++ before) e after ?_⟩
    · rw [hsplit, List.append_assoc, List.cons_append]
    · rw [hsplit, List.append_assoc]
  · rintro ⟨hlog, hevents⟩ before e after hsplit
    rcases List.append_eq_append_iff.mp hsplit with ⟨more, rfl, hmore⟩ | ⟨more, rfl, hmore⟩
    · exact hevents more e after hmore
    · cases more with
      | nil => simpa using hevents [] e after hmore.symm
      | cons first more =>
        obtain ⟨rfl, -⟩ := List.cons.inj hmore
        exact hlog before e more rfl

/-- So it is enough to look at each event with what is before it. -/
theorem throughout_iff_take {log : List (Event κ ν)} :
    Throughout p log ↔ ∀ i : Fin log.length, p (log.take i) (log.get i) := by
  constructor
  · intro h i
    exact h _ _ (log.drop (i + 1)) (by simp)
  · rintro h before e after rfl
    simpa using h ⟨before.length, by simp⟩

instance [∀ before e, Decidable (p before e)] (log : List (Event κ ν)) : Decidable (Throughout p log) :=
  decidable_of_iff _ throughout_iff_take.symm

end Throughout

/-- The earliest deadline is that of something held, and no later than any other. -/
theorem nextDeadline?_eq_some_iff {d : Debouncer κ ν} {time : Nat} :
    d.nextDeadline? = some time ↔
      (∃ h ∈ d.held, h.deadline = time) ∧ ∀ h ∈ d.held, time ≤ h.deadline := by
  simp [nextDeadline?, List.min?_eq_some_iff]

section Batch

variable (time : Nat) (batch : List (Held κ ν))

/-- Releases send nothing. -/
theorem sends_map_ofHeld : sends (batch.map (Event.ofHeld time)) = [] := by
  simp [sends, Event.ofHeld, Event.sent?]

/-- Releases take nothing. -/
theorem takes_map_ofHeld : takes (batch.map (Event.ofHeld time)) = [] := by
  simp [takes, Event.ofHeld, Event.taken?]

/-- Releases are not the going of the senders. -/
theorem ended_not_mem_map_ofHeld (stop : Nat) :
    Event.ended stop ∉ batch.map (Event.ofHeld time) := by
  simp [Event.ofHeld]

end Batch

variable [DecidableEq κ]

section Last

variable (log events : List (Event κ ν)) (key : κ)

/-- What was done last for a key was done later, if anything was done for it then. -/
theorem last?_append : last? (log ++ events) key = (last? events key).or (last? log key) := by
  rw [last?, List.reverse_append, List.find?_append, last?, last?]

/-- What was done last is the one event, if it is for the key. -/
theorem last?_singleton (e : Event κ ν) :
    last? [e] key = if e.key? = some key then some e else none := by
  by_cases h : e.key? = some key <;> simp [last?, h]

/-- What a batch of releases does last for a key is the release of the last value of that key. -/
theorem last?_map_ofHeld (time : Nat) (batch : List (Held κ ν)) :
    last? (batch.map (Event.ofHeld time)) key =
      (batch.reverse.find? (·.key = key)).map (.ofHeld time) := by
  simp only [last?, ← List.map_reverse, List.find?_map, Function.comp_def, Event.key?, Event.ofHeld,
    Option.some.injEq]

end Last

/-- An open debouncer holds an accepted value as the only one of its key, due after the quiet time. -/
theorem accept_of_open {d : Debouncer κ ν} (h : d.closed = false) (key : κ) (value : ν) :
    d.accept key value = { d with
      held := d.held.filter (fun h => h.key ≠ key) ++ [⟨key, value, d.now + d.interval⟩] } := by
  simp only [accept, h, Bool.false_eq_true, if_false]

/-- The state of a task fits its log. -/
structure Task.Fits (interval : Nat) (log : List (Event κ ν)) (t : Task κ ν) : Prop where
  interval_eq : t.interval = interval
  nodup : (t.held.map (·.key)).Nodup
  /-- It holds what it took last and has not released since. -/
  mem_held_iff : ∀ h, h ∈ t.held ↔
    ∃ time, last? log h.key = some (.taken time h.key h.value) ∧ h.deadline = time + interval
  /-- No deadline has passed. -/
  now_le : ∀ h ∈ t.held, t.now ≤ h.deadline
  /-- Values taken earlier stand in front. -/
  ordered : t.held.Pairwise (·.deadline ≤ ·.deadline)
  le_add : ∀ h ∈ t.held, h.deadline ≤ t.now + interval
  now_le_alarm : t.closed = false → t.now ≤ t.alarm
  /-- It wakes up at the earliest deadline. -/
  alarm_eq : t.closed = false → ∀ time, t.nextDeadline? = some time → t.alarm = time
  /-- What was accepted is taken in its order, and nothing waits since an earlier time. -/
  sends_eq : sends log = takes log ++ t.queue.map fun item => (t.now, item)
  finished : t.closed = true → t.held = [] ∧ t.queue = [] ∧ t.ended = true
  ended_iff : t.ended = true ↔ ∃ time, .ended time ∈ log
  now_of_ended : t.closed = false → ∀ time, .ended time ∈ log → t.now = time

/-- A release is that of the last value taken for its key, at its deadline, or if the senders are gone, at
the time when they went. -/
def IsDue (interval : Nat) (before : List (Event κ ν)) (e : Event κ ν) : Prop :=
  ∀ time key value, e = .released time key value →
    ∃ early, last? before key = some (.taken early key value) ∧ time ≤ early + interval ∧
      (time = early + interval ∨ .ended time ∈ before) ∧ ∀ stop, .ended stop ∈ before → time = stop

namespace Task

/-- At first the task fits a log without events. -/
theorem fits_new (interval : Nat) : (new interval : Task κ ν).Fits interval [] where
  interval_eq := rfl
  nodup := List.nodup_nil
  mem_held_iff h := by simp [new, Debouncer.new, last?]
  now_le := nofun
  ordered := List.Pairwise.nil
  le_add := nofun
  now_le_alarm _ := Nat.zero_le _
  alarm_eq _ time h := by simp [nextDeadline?, new, Debouncer.new] at h
  sends_eq := rfl
  finished := nofun
  ended_iff := by simp [new]
  now_of_ended := nofun

omit [DecidableEq κ] in
/-- A task that goes to sleep wakes up no earlier than it has to. -/
theorem le_alarm_rearm {t : Task κ ν} {time : Nat} (hidle : time ≤ t.now + idlePoll)
    (h : ∀ x ∈ t.held, time ≤ x.deadline) : time ≤ t.rearm.alarm := by
  cases hnext : t.nextDeadline? with
  | none => simpa [rearm, hnext] using hidle
  | some deadline =>
    obtain ⟨⟨x, hx, rfl⟩, -⟩ := nextDeadline?_eq_some_iff.mp hnext
    rw [alarm_rearm t hnext]
    exact h x hx

omit [DecidableEq κ] in
/-- A value that is held is due or not. -/
theorem perm_of_due {t : Task κ ν} {due : List (Held κ ν)}
    (hdue : due.Perm (t.held.filter (·.deadline ≤ t.now))) :
    (due ++ t.held.filter fun h => t.now < h.deadline).Perm t.held := by
  have hlater : (fun h : Held κ ν => decide (t.now < h.deadline)) =
      fun h => !decide (h.deadline ≤ t.now) := by
    funext h
    rw [← decide_not, decide_eq_decide, Nat.not_le]
  refine (hdue.append_right _).trans ?_
  rw [hlater]
  exact List.filter_append_perm ..

namespace Fits

variable {interval : Nat} {log : List (Event κ ν)} {t : Task κ ν} (hfits : t.Fits interval log)

include hfits

/-- A task does not finish before the senders are gone. -/
theorem running_of_open (hopen : t.ended = false) : t.closed = false := by
  rw [← Bool.not_eq_true]
  intro hclosed
  exact absurd (hopen.symm.trans (hfits.finished hclosed).2.2) Bool.false_ne_true

/-- It does not oversleep. -/
theorem alarm_le (hrunning : t.closed = false) {h : Held κ ν} (hh : h ∈ t.held) :
    t.alarm ≤ h.deadline := by
  have hsome : t.nextDeadline?.isSome := List.isSome_min?_of_mem (List.mem_map_of_mem hh)
  obtain ⟨time, htime⟩ := Option.isSome_iff_exists.mp hsome
  rw [hfits.alarm_eq hrunning time htime]
  exact (nextDeadline?_eq_some_iff.mp htime).2 h hh

/-- A value that is taken takes the place of the one that was held for its key. -/
theorem take (hrunning : t.closed = false) {key : κ} {value : ν} {rest : List (κ × ν)}
    (hqueue : t.queue = (key, value) :: rest) :
    ({ t with toDebouncer := t.toDebouncer.accept key value, queue := rest } : Task κ ν).rearm.Fits
      interval (log ++ [.taken t.now key value]) := by
  rw [accept_of_open hrunning]
  constructor
  · exact hfits.interval_eq
  · have hothers : ((t.held.filter (fun h => h.key ≠ key)).map (·.key)).Nodup :=
      hfits.nodup.sublist (List.filter_sublist.map _)
    simp only [toDebouncer_rearm, List.map_append, List.map_cons, List.map_nil]
    refine List.nodup_append.mpr ⟨hothers, by simp, fun k hk other hother heq => ?_⟩
    obtain ⟨h, hh, rfl⟩ := List.mem_map.mp hk
    have hne : h.key ≠ key := by simpa using (List.mem_filter.mp hh).2
    exact hne (heq.trans (List.mem_singleton.mp hother))
  · intro h
    simp only [toDebouncer_rearm, last?_append, last?_singleton, Event.key?, List.mem_append,
      List.mem_filter, List.mem_singleton, hfits.mem_held_iff, hfits.interval_eq, decide_eq_true_eq]
    by_cases hkey : h.key = key
    · obtain ⟨k, v, deadline⟩ := h
      obtain rfl : k = key := hkey
      constructor
      · rintro (⟨-, hne⟩ | hnew)
        · exact absurd rfl hne
        · cases hnew
          exact ⟨t.now, by simp⟩
      · rintro ⟨time, htaken, rfl⟩
        simp_all
    · have hne : ¬key = h.key := fun heq => hkey heq.symm
      have hnew : h ≠ ⟨key, value, t.now + interval⟩ := fun heq => hkey (by rw [heq])
      simp [hkey, hne, hnew]
  · intro h hh
    rcases List.mem_append.mp hh with hold | hnew
    · exact hfits.now_le h (List.mem_filter.mp hold).1
    · rw [List.mem_singleton.mp hnew]
      exact Nat.le_add_right ..
  · refine List.pairwise_append.mpr ⟨hfits.ordered.sublist List.filter_sublist, by simp, ?_⟩
    intro h hh g hg
    rw [List.mem_singleton.mp hg, hfits.interval_eq]
    exact hfits.le_add h (List.mem_filter.mp hh).1
  · intro h hh
    rcases List.mem_append.mp hh with hold | hnew
    · exact hfits.le_add h (List.mem_filter.mp hold).1
    · rw [List.mem_singleton.mp hnew, hfits.interval_eq]
      exact Nat.le_refl _
  · refine fun _ => le_alarm_rearm (Nat.le_add_right ..) fun h hh => ?_
    rcases List.mem_append.mp hh with hold | hnew
    · exact hfits.now_le h (List.mem_filter.mp hold).1
    · rw [List.mem_singleton.mp hnew]
      exact Nat.le_add_right ..
  · exact fun _ time h => alarm_rearm _ h
  · have hsends := hfits.sends_eq
    rw [hqueue] at hsends
    simpa [sends, takes, Event.sent?, Event.taken?] using hsends
  · intro hclosed
    exact absurd (hrunning.symm.trans hclosed) Bool.false_ne_true
  · simpa using hfits.ended_iff
  · intro _ time htime
    simp only [List.mem_append, List.mem_singleton, reduceCtorEq, or_false] at htime
    exact hfits.now_of_ended hrunning time htime

/-- What is held besides a batch of releases is what was taken last and is not released with the batch. -/
theorem mem_kept_iff {batch kept : List (Held κ ν)} (hperm : (batch ++ kept).Perm t.held) (time : Nat)
    (h : Held κ ν) :
    h ∈ kept ↔ ∃ early, last? (log ++ batch.map (.ofHeld time)) h.key =
      some (.taken early h.key h.value) ∧ h.deadline = early + interval := by
  have hmem : h ∈ t.held ↔ h ∈ batch ∨ h ∈ kept := by rw [← hperm.mem_iff, List.mem_append]
  have hnodup : ((batch ++ kept).map (·.key)).Nodup := (hperm.map _).nodup_iff.mpr hfits.nodup
  rw [last?_append, last?_map_ofHeld]
  cases hfind : batch.reverse.find? (·.key = h.key) with
  | none =>
    have hbatch : h ∉ batch := by
      simp only [List.find?_eq_none, List.mem_reverse, decide_eq_true_eq] at hfind
      exact fun hin => hfind h hin rfl
    simp [← hfits.mem_held_iff, hmem, hbatch]
  | some g =>
    have hkey : g.key = h.key := by simpa using List.find?_some hfind
    have hg : g ∈ batch := by simpa using List.mem_of_find?_eq_some hfind
    have hkept : h ∉ kept := by
      rw [List.map_append, List.nodup_append] at hnodup
      exact fun hin => hnodup.2.2 _ (List.mem_map_of_mem hg) _ (List.mem_map_of_mem hin) hkey
    simp [hkept, Event.ofHeld]

/-- A task that wakes up releases what is due. -/
theorem wake (hrunning : t.closed = false) {due : List (Held κ ν)}
    (hdue : due.Perm (t.held.filter (·.deadline ≤ t.now))) :
    ({ t with toDebouncer := (t.toDebouncer.moveTo t.now).2 } : Task κ ν).rearm.Fits interval
      (log ++ due.map (.ofHeld t.now)) := by
  have hsub : (t.held.filter fun h => t.now < h.deadline).Sublist t.held := List.filter_sublist
  constructor
  · exact hfits.interval_eq
  · exact hfits.nodup.sublist (hsub.map _)
  · exact hfits.mem_kept_iff (perm_of_due hdue) t.now
  · exact fun h hh => hfits.now_le h (hsub.mem hh)
  · exact hfits.ordered.sublist hsub
  · exact fun h hh => hfits.le_add h (hsub.mem hh)
  · exact fun _ => le_alarm_rearm (Nat.le_add_right ..) fun h hh => hfits.now_le h (hsub.mem hh)
  · exact fun _ time h => alarm_rearm _ h
  · simpa [sends_map_ofHeld, takes_map_ofHeld, moveTo] using hfits.sends_eq
  · intro hclosed
    exact absurd (hrunning.symm.trans hclosed) Bool.false_ne_true
  · simpa [ended_not_mem_map_ofHeld] using hfits.ended_iff
  · intro _ time htime
    exact hfits.now_of_ended hrunning time
      ((List.mem_append.mp htime).resolve_right (ended_not_mem_map_ofHeld _ _ _))

/-- A task that finishes releases all that it holds. -/
theorem finish (hended : t.ended = true) (hqueue : t.queue = []) {flushed : List (Held κ ν)}
    (hflushed : flushed.Perm t.held) :
    ({ t with toDebouncer := t.toDebouncer.close.2 } : Task κ ν).Fits interval
      (log ++ flushed.map (.ofHeld t.now)) := by
  have hall : (flushed ++ []).Perm t.held := by rwa [List.append_nil]
  constructor
  · exact hfits.interval_eq
  · exact List.nodup_nil
  · exact hfits.mem_kept_iff hall t.now
  · nofun
  · exact List.Pairwise.nil
  · nofun
  · nofun
  · nofun
  · simpa [sends_map_ofHeld, takes_map_ofHeld, Debouncer.close] using hfits.sends_eq
  · exact fun _ => ⟨rfl, hqueue, hended⟩
  · simpa [ended_not_mem_map_ofHeld] using hfits.ended_iff
  · nofun

/-- A value that is sent waits in the queue. -/
theorem send (hopen : t.ended = false) (key : κ) (value : ν) :
    ({ t with queue := t.queue ++ [(key, value)] } : Task κ ν).Fits interval
      (log ++ [.sent t.now key value]) where
  interval_eq := hfits.interval_eq
  nodup := hfits.nodup
  mem_held_iff h := by
    simpa [last?_append, last?_singleton, Event.key?] using hfits.mem_held_iff h
  now_le := hfits.now_le
  ordered := hfits.ordered
  le_add := hfits.le_add
  now_le_alarm := hfits.now_le_alarm
  alarm_eq := hfits.alarm_eq
  sends_eq := by
    have hsends := hfits.sends_eq
    simp [sends, takes, Event.sent?, Event.taken?] at hsends ⊢
    simp [hsends]
  finished hclosed := absurd ((hfits.running_of_open hopen).symm.trans hclosed) Bool.false_ne_true
  ended_iff := by simpa using hfits.ended_iff
  now_of_ended hrunning time htime := hfits.now_of_ended hrunning time (by simpa using htime)

/-- A value that is refused leaves no trace in the state. -/
theorem refuse (key : κ) (value : ν) : t.Fits interval (log ++ [.refused t.now key value]) where
  interval_eq := hfits.interval_eq
  nodup := hfits.nodup
  mem_held_iff h := by
    simpa [last?_append, last?_singleton, Event.key?] using hfits.mem_held_iff h
  now_le := hfits.now_le
  ordered := hfits.ordered
  le_add := hfits.le_add
  now_le_alarm := hfits.now_le_alarm
  alarm_eq := hfits.alarm_eq
  sends_eq := by simpa [sends, takes, Event.sent?, Event.taken?] using hfits.sends_eq
  finished := hfits.finished
  ended_iff := by simpa using hfits.ended_iff
  now_of_ended hrunning time htime := hfits.now_of_ended hrunning time (by simpa using htime)

/-- While the task sleeps no deadline passes. -/
theorem pass {time : Nat} (hlater : t.now ≤ time) (hsleeps : t.SleepsUntil time) :
    ({ t with now := time } : Task κ ν).Fits interval log where
  interval_eq := hfits.interval_eq
  nodup := hfits.nodup
  mem_held_iff := hfits.mem_held_iff
  now_le h hh := by
    rcases hsleeps with hclosed | ⟨-, hopen, htime⟩
    · rw [(hfits.finished hclosed).1] at hh
      cases hh
    · exact Nat.le_trans htime (hfits.alarm_le (hfits.running_of_open hopen) hh)
  ordered := hfits.ordered
  le_add h hh := Nat.le_trans (hfits.le_add h hh) (Nat.add_le_add_right hlater _)
  now_le_alarm hrunning := by
    rcases hsleeps with hclosed | ⟨-, -, htime⟩
    · exact absurd (hrunning.symm.trans hclosed) Bool.false_ne_true
    · exact htime
  alarm_eq := hfits.alarm_eq
  sends_eq := by
    have hqueue : t.queue = [] := hsleeps.elim (fun hclosed => (hfits.finished hclosed).2.1) (·.1)
    simpa [hqueue] using hfits.sends_eq
  finished := hfits.finished
  ended_iff := hfits.ended_iff
  now_of_ended hrunning stop hstop := by
    rcases hsleeps with hclosed | ⟨-, hopen, -⟩
    · exact absurd (hrunning.symm.trans hclosed) Bool.false_ne_true
    · exact absurd (hopen.symm.trans (hfits.ended_iff.mpr ⟨stop, hstop⟩)) Bool.false_ne_true

/-- The time at which the senders go is the present time until the task has finished. -/
theorem leave (hopen : t.ended = false) :
    ({ t with ended := true } : Task κ ν).Fits interval (log ++ [.ended t.now]) where
  interval_eq := hfits.interval_eq
  nodup := hfits.nodup
  mem_held_iff h := by
    simpa [last?_append, last?_singleton, Event.key?] using hfits.mem_held_iff h
  now_le := hfits.now_le
  ordered := hfits.ordered
  le_add := hfits.le_add
  now_le_alarm := hfits.now_le_alarm
  alarm_eq := hfits.alarm_eq
  sends_eq := by simpa [sends, takes, Event.sent?, Event.taken?] using hfits.sends_eq
  finished hclosed := absurd ((hfits.running_of_open hopen).symm.trans hclosed) Bool.false_ne_true
  ended_iff := by simp
  now_of_ended hrunning time htime := by
    rcases List.mem_append.mp htime with hbefore | hnow
    · exact absurd (hopen.symm.trans (hfits.ended_iff.mpr ⟨time, hbefore⟩)) Bool.false_ne_true
    · simpa [eq_comm] using hnow

/-- All that can happen keeps the state and the log together. -/
theorem step {events : List (Event κ ν)} {next : Task κ ν} (hstep : Step t events next) :
    next.Fits interval (log ++ events) := by
  cases hstep with
  | work h =>
    cases h with
    | take hrunning hqueue => exact hfits.take hrunning hqueue
    | wake hrunning _ hdue => exact hfits.wake hrunning hdue
    | finish _ hended hqueue hflushed => exact hfits.finish hended hqueue hflushed
  | send key value hopen _ => exact hfits.send hopen key value
  | refuse key value _ => exact hfits.refuse key value
  | pass time hlater hsleeps => simpa using hfits.pass hlater hsleeps
  | leave hopen => exact hfits.leave hopen

/-- The releases of a batch are due, if each is at its deadline or the senders are gone. -/
theorem isDue_batch {batch rest : List (Held κ ν)} (hperm : (batch ++ rest).Perm t.held)
    (hrunning : t.closed = false)
    (htime : ∀ h ∈ batch, t.now = h.deadline ∨ .ended t.now ∈ log) :
    Throughout (fun before e => IsDue interval (log ++ before) e) (batch.map (.ofHeld t.now)) := by
  intro before e after hsplit time key value he
  obtain ⟨first, last, rfl, rfl, hlast⟩ := List.map_eq_append_iff.mp hsplit
  obtain ⟨h, later, rfl, hh, -⟩ := List.map_eq_cons_iff.mp hlast
  obtain ⟨rfl, rfl, rfl⟩ : t.now = time ∧ h.key = key ∧ h.value = value := by
    rw [← hh, Event.ofHeld, Event.released.injEq] at he
    exact he
  have hmem : h ∈ first ++ h :: later := by simp
  have hheld : h ∈ t.held := hperm.mem_iff.mp (List.mem_append_left _ hmem)
  obtain ⟨early, htaken, hdeadline⟩ := (hfits.mem_held_iff h).mp hheld
  have hnone : first.reverse.find? (·.key = h.key) = none := by
    have hnodup : ((first ++ h :: later ++ rest).map (·.key)).Nodup :=
      (hperm.map _).nodup_iff.mpr hfits.nodup
    rw [List.append_assoc, List.map_append, List.nodup_append] at hnodup
    simp only [List.find?_eq_none, List.mem_reverse, decide_eq_true_eq]
    exact fun g hg => hnodup.2.2 _ (List.mem_map_of_mem hg) _ (by simp)
  refine ⟨early, ?_, ?_, ?_, fun stop hstop => ?_⟩
  · rw [last?_append, last?_map_ofHeld, hnone, Option.map_none, Option.none_or, htaken]
  · rw [← hdeadline]
    exact hfits.now_le h hheld
  · rw [← hdeadline]
    exact (htime h hmem).imp id (List.mem_append_left _)
  · refine hfits.now_of_ended hrunning stop ?_
    exact (List.mem_append.mp hstop).resolve_right (ended_not_mem_map_ofHeld _ _ _)

/-- All that can happen releases what is due. -/
theorem isDue_step {events : List (Event κ ν)} {next : Task κ ν} (hstep : Step t events next) :
    Throughout (fun before e => IsDue interval (log ++ before) e) events := by
  cases hstep with
  | work h =>
    cases h with
    | take => exact throughout_singleton nofun
    | wake hrunning _ hdue =>
      refine hfits.isDue_batch (perm_of_due hdue) hrunning fun h hh => .inl ?_
      obtain ⟨hheld, hpast⟩ := List.mem_filter.mp (hdue.mem_iff.mp hh)
      exact Nat.le_antisymm (hfits.now_le h hheld) (of_decide_eq_true hpast)
    | @finish flushed hrunning hended _ hflushed =>
      have hall : (flushed ++ []).Perm t.held := by rwa [List.append_nil]
      refine hfits.isDue_batch hall hrunning fun h _ => .inr ?_
      obtain ⟨stop, hstop⟩ := hfits.ended_iff.mp hended
      rwa [hfits.now_of_ended hrunning stop hstop]
  | send => exact throughout_singleton nofun
  | refuse => exact throughout_singleton nofun
  | pass => exact throughout_nil
  | leave => exact throughout_singleton nofun

end Fits

end Task

section Run

variable {interval : Nat} {log : List (Event κ ν)} {t : Task κ ν} (h : Run interval log t)

include h

/-- After any run the state of the task fits the log. -/
theorem run_fits : t.Fits interval log := by
  induction h with
  | refl => exact Task.fits_new interval
  | step _ hstep ih => exact ih.step hstep

/-- What all events of each step do, all events of a run do. -/
theorem run_throughout {p : List (Event κ ν) → Event κ ν → Prop}
    (hstep : ∀ log t events next, Task.Fits interval log t → Step t events next →
      Throughout (fun before e => p (log ++ before) e) events) : Throughout p log := by
  induction h with
  | refl => exact throughout_nil
  | step hrun hnext ih => exact throughout_append.mpr ⟨ih, hstep _ _ _ _ (run_fits hrun) hnext⟩

/-- All releases of a run are due. -/
theorem run_isDue : Throughout (IsDue interval) log :=
  run_throughout h fun _ _ _ _ hfits hstep => hfits.isDue_step hstep

end Run

end Milestone.Debouncer
