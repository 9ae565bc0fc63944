import Milestone.Proofs.Debounce.Holds

/-!
# Debouncers in use

A debouncer is used by offering bursts of values, by letting time pass and by closing it. What the functions
on debouncers say about that is what the task may do: it takes a whole burst first, and it sleeps and wakes
up, over nothing at times, until the time is over.
-/

namespace Milestone.Debouncer

variable {κ ν : Type} [DecidableEq κ]

/-- A use of a debouncer. -/
inductive Action (κ ν : Type) where
  /-- Values are offered one after the other, before the task comes to take any of them. -/
  | burst (items : List (κ × ν))
  | wait (ms : Nat)
  | close

/-- What the senders are told, and what is released. -/
structure Output (κ ν : Type) where
  answers : List Bool
  released : List (Released κ ν)

/-- An action; what is due at its end is released. -/
def act (d : Debouncer κ ν) : Action κ ν → Output κ ν × Debouncer κ ν
  | .burst items =>
    let (answers, d) := d.acceptAll items
    let (released, d) := d.moveTo d.now
    (⟨answers, released⟩, d)
  | .wait ms =>
    let (released, d) := d.advance ms
    (⟨[], released⟩, d)
  | .close =>
    let (released, d) := d.close
    (⟨[], released⟩, d)

/-- Actions one after the other. -/
def play (d : Debouncer κ ν) : List (Action κ ν) → Output κ ν × Debouncer κ ν
  | [] => (⟨[], []⟩, d)
  | a :: rest =>
    let (first, d) := d.act a
    let (later, d) := play d rest
    (⟨first.answers ++ later.answers, first.released ++ later.released⟩, d)

/-- The task is awaiting a value or the time to wake up, or it has finished. -/
def Task.IsAtRest (t : Task κ ν) : Prop :=
  t.queue = [] ∧ (t.closed = true ∨ (t.ended = false ∧ t.now < t.alarm))

namespace Steps

/-- One step is a run of steps. -/
theorem single {t next : Task κ ν} {events : List (Event κ ν)} (h : Step t events next) :
    Steps t events next :=
  .step .refl h

/-- Runs of steps follow each other. -/
theorem trans {t u v : Task κ ν} {first later : List (Event κ ν)} (h : Steps t first u)
    (hlater : Steps u later v) : Steps t (first ++ later) v := by
  induction hlater with
  | refl => rwa [List.append_nil]
  | step _ hstep ih =>
    rw [← List.append_assoc]
    exact .step ih hstep

end Steps

/-- Steps keep the state of a task fit for its log. -/
theorem Task.Fits.steps {interval : Nat} {log events : List (Event κ ν)} {t next : Task κ ν}
    (hfits : t.Fits interval log) (h : Steps t events next) : next.Fits interval (log ++ events) := by
  induction h with
  | refl => rwa [List.append_nil]
  | step _ hstep ih =>
    rw [← List.append_assoc]
    exact ih.step hstep

/-- The event of a release. -/
def Event.ofReleased (r : Released κ ν) : Event κ ν :=
  .released r.time r.key r.value

omit [DecidableEq κ] in
/-- A property of other events is one of all releases. -/
theorem throughout_map_ofReleased {p : List (Event κ ν) → Event κ ν → Prop}
    (h : ∀ before time key value, p before (.released time key value)) (released : List (Released κ ν)) :
    Throughout p (released.map .ofReleased) := by
  refine throughout_of_forall fun e he before => ?_
  obtain ⟨r, -, rfl⟩ := List.mem_map.mp he
  exact h before r.time r.key r.value

section Sleep

omit [DecidableEq κ] in
/-- In an ordered list what is due first stands in front. -/
theorem filter_append_filter {held : List (Held κ ν)} (hordered : held.Pairwise (·.deadline ≤ ·.deadline))
    {early late : Nat} (hle : early ≤ late) :
    held.filter (·.deadline ≤ early) ++
        (held.filter (early < ·.deadline)).filter (·.deadline ≤ late) =
      held.filter (·.deadline ≤ late) := by
  induction held with
  | nil => rfl
  | cons h rest ih =>
    obtain ⟨hfirst, hrest⟩ := List.pairwise_cons.mp hordered
    by_cases hearly : h.deadline ≤ early
    · have hlate : h.deadline ≤ late := Nat.le_trans hearly hle
      simpa [hearly, hlate, Nat.not_lt.mpr hearly] using ih hrest
    · have hall : ∀ g ∈ h :: rest, early < g.deadline := by
        intro g hg
        rcases List.mem_cons.mp hg with rfl | hin
        · exact Nat.not_le.mp hearly
        · exact Nat.lt_of_lt_of_le (Nat.not_le.mp hearly) (hfirst g hin)
      have hnone : (h :: rest).filter (·.deadline ≤ early) = [] :=
        List.filter_eq_nil_iff.mpr fun g hg => by simpa using hall g hg
      have hself : (h :: rest).filter (early < ·.deadline) = h :: rest :=
        List.filter_eq_self.mpr fun g hg => by simpa using hall g hg
      rw [hnone, hself, List.nil_append]

/-- Until the next deadline nothing is due, and moving on changes only the time. -/
theorem Task.Fits.moveTo_of_lt {interval time : Nat} {log : List (Event κ ν)} {t : Task κ ν}
    (hfits : t.Fits interval log) (hrunning : t.closed = false) (hearly : time < t.alarm) :
    t.toDebouncer.moveTo time = ([], { t.toDebouncer with now := time }) := by
  have hlater : ∀ h ∈ t.held, time < h.deadline :=
    fun h hh => Nat.lt_of_lt_of_le hearly (hfits.alarm_le hrunning hh)
  have hnone : t.held.filter (·.deadline ≤ time) = [] :=
    List.filter_eq_nil_iff.mpr fun h hh => by simpa using hlater h hh
  have hself : t.held.filter (time < ·.deadline) = t.held :=
    List.filter_eq_self.mpr fun h hh => by simpa using hlater h hh
  simp only [moveTo, due, hnone, hself, List.map_nil]

omit [DecidableEq κ] in
/-- Moving on to a time is moving on to an earlier one first. -/
theorem moveTo_of_le {d : Debouncer κ ν} (hordered : d.held.Pairwise (·.deadline ≤ ·.deadline))
    {early late : Nat} (hle : early ≤ late) :
    d.moveTo late =
      ((d.moveTo early).1 ++ ((d.moveTo early).2.moveTo late).1, ((d.moveTo early).2.moveTo late).2) := by
  have hrest : d.held.filter (late < ·.deadline) =
      (d.held.filter (early < ·.deadline)).filter (late < ·.deadline) := by
    rw [List.filter_filter]
    refine List.filter_congr fun h _ => ?_
    by_cases hlate : late < h.deadline
    · simp [hlate, Nat.lt_of_le_of_lt hle hlate]
    · simp [hlate]
  simp only [moveTo, due, ← List.map_append, filter_append_filter hordered hle, ← hrest]

/-- At a time when all that is due is due just now, moving on to it releases it then. -/
theorem Task.Fits.moveTo_now {interval : Nat} {log : List (Event κ ν)} {t : Task κ ν}
    (hfits : t.Fits interval log) :
    (t.toDebouncer.moveTo t.now).1.map Event.ofReleased =
      (t.held.filter (·.deadline ≤ t.now)).map (.ofHeld t.now) := by
  simp only [moveTo, due, List.map_map]
  refine List.map_congr_left fun h hh => ?_
  obtain ⟨hheld, hdue⟩ := List.mem_filter.mp hh
  have hnow : h.deadline = t.now :=
    Nat.le_antisymm (of_decide_eq_true hdue) (hfits.now_le h hheld)
  simp [Event.ofReleased, Event.ofHeld, hnow]

/-- A task that waits for nothing else sleeps and wakes up until a time is reached, and releases what is due
by then. -/
theorem Task.Fits.steps_moveTo {interval time : Nat} {log : List (Event κ ν)} {t : Task κ ν}
    (hfits : t.Fits interval log) (hqueue : t.queue = []) (hopen : t.ended = false)
    (hlater : t.now ≤ time) :
    ∃ next, Steps t ((t.toDebouncer.moveTo time).1.map .ofReleased) next ∧
      next.toDebouncer = (t.toDebouncer.moveTo time).2 ∧ next.queue = [] ∧ next.ended = false ∧
      next.now < next.alarm := by
  -- Each time that it wakes up, it goes to sleep until a later time.
  induction hleft : time + 1 - t.alarm using Nat.strongRecOn generalizing log t with
  | ind left ih =>
    have hrunning := hfits.running_of_open hopen
    by_cases hearly : time < t.alarm
    · rw [hfits.moveTo_of_lt hrunning hearly]
      exact ⟨{ t with now := time },
        .single (.pass time hlater (.inr ⟨hqueue, hopen, Nat.le_of_lt hearly⟩)),
        rfl, hqueue, hopen, hearly⟩
    · have halarm : t.alarm ≤ time := Nat.not_lt.mp hearly
      let awake : Task κ ν := { t with now := t.alarm }
      have hpass : Step t [] awake :=
        .pass t.alarm (hfits.now_le_alarm hrunning) (.inr ⟨hqueue, hopen, Nat.le_refl _⟩)
      have hawake : awake.Fits interval log := by simpa using hfits.step hpass
      let asleep : Task κ ν := { awake with toDebouncer := (t.toDebouncer.moveTo t.alarm).2 }.rearm
      have hwake : Step awake ((t.toDebouncer.moveTo t.alarm).1.map .ofReleased) asleep := by
        have hnow := hawake.moveTo_now
        rw [show (t.toDebouncer.moveTo t.alarm).1 = (awake.toDebouncer.moveTo awake.now).1 from rfl, hnow]
        exact .work (.wake hrunning (Nat.le_refl _) (.refl _))
      have hasleep := hawake.step hwake
      have hlonger : t.alarm < asleep.alarm := by
        refine le_alarm_rearm (Nat.add_le_add_left (show 1 ≤ idlePoll by decide) _) fun h hh => ?_
        exact of_decide_eq_true (List.mem_filter.mp hh).2
      obtain ⟨next, hsteps, hnext, hrest⟩ :=
        ih (time + 1 - asleep.alarm) (by omega) hasleep hqueue hopen halarm rfl
      rw [moveTo_of_le hfits.ordered halarm, List.map_append]
      exact ⟨next, (Steps.single hpass).trans ((Steps.single hwake).trans hsteps), hnext, hrest⟩

end Sleep

section Burst

/-- The queue accepts values as long as there is room. -/
theorem steps_send {t : Task κ ν} (hopen : t.ended = false) {items : List (κ × ν)}
    (hroom : t.queue.length + items.length ≤ capacity) :
    Steps t (items.map fun item => .sent t.now item.1 item.2)
      { t with queue := t.queue ++ items } := by
  induction items generalizing t with
  | nil =>
    rw [List.append_nil]
    exact .refl
  | cons item rest ih =>
    rw [List.length_cons] at hroom
    have hsend : Step t [.sent t.now item.1 item.2] { t with queue := t.queue ++ [item] } :=
      .send item.1 item.2 hopen (by omega)
    have hrest := ih (t := { t with queue := t.queue ++ [item] }) hopen
      (by simp only [List.length_append, List.length_singleton]; omega)
    rw [List.append_assoc] at hrest
    exact (Steps.single hsend).trans hrest

/-- A queue without room refuses values. -/
theorem steps_refuse {t : Task κ ν} (hfull : capacity ≤ t.queue.length) (items : List (κ × ν)) :
    Steps t (items.map fun item => .refused t.now item.1 item.2) t := by
  induction items with
  | nil => exact .refl
  | cons item rest ih =>
    exact (Steps.single (.refuse item.1 item.2 (.inr hfull))).trans ih

/-- Taking values takes no time. -/
theorem now_foldl_accept (items : List (κ × ν)) (d : Debouncer κ ν) :
    (items.foldl (fun d item => d.accept item.1 item.2) d).now = d.now := by
  induction items generalizing d with
  | nil => rfl
  | cons item rest ih =>
    rw [List.foldl_cons, ih, accept]
    split <;> rfl

/-- The task takes all values that wait. -/
theorem steps_take {t : Task κ ν} (hrunning : t.closed = false) :
    ∃ next, Steps t (t.queue.map fun item => .taken t.now item.1 item.2) next ∧
      next.toDebouncer = t.queue.foldl (fun d item => d.accept item.1 item.2) t.toDebouncer ∧
      next.queue = [] ∧ next.ended = t.ended := by
  induction hqueue : t.queue generalizing t with
  | nil => exact ⟨t, .refl, rfl, hqueue, rfl⟩
  | cons item rest ih =>
    let after : Task κ ν :=
      { t with toDebouncer := t.toDebouncer.accept item.1 item.2, queue := rest }.rearm
    have htake : Step t [.taken t.now item.1 item.2] after := .work (.take hrunning hqueue)
    have hafter : after.closed = false ∧ after.now = t.now := by
      simp only [after, Task.toDebouncer_rearm, accept_of_open hrunning, hrunning, and_self]
    obtain ⟨next, hsteps, hnext⟩ := ih hafter.1 rfl
    rw [hafter.2] at hsteps
    exact ⟨next, (Steps.single htake).trans hsteps, hnext⟩

omit [DecidableEq κ] in
/-- The first values of a burst are accepted, and the others refused. -/
theorem mapIdx_decide_lt (n : Nat) (items : List (κ × ν)) :
    items.mapIdx (fun i _ => decide (i < n)) =
      (items.take n).map (fun _ => true) ++ (items.drop n).map fun _ => false := by
  induction items generalizing n with
  | nil => simp
  | cons item rest ih =>
    cases n with
    | zero => simpa using ih 0
    | succ n => simpa using ih n

section Told

variable (time : Nat) (items : List (κ × ν))

omit [DecidableEq κ]

/-- Senders of accepted values are told so. -/
theorem answers_map_sent :
    answers (items.map fun item => .sent time item.1 item.2) = items.map fun _ => true := by
  rw [answers, List.filterMap_map, ← List.filterMap_eq_map]
  rfl

/-- Senders of values that are turned away are told so. -/
theorem answers_map_refused :
    answers (items.map fun item => .refused time item.1 item.2) = items.map fun _ => false := by
  rw [answers, List.filterMap_map, ← List.filterMap_eq_map]
  rfl

/-- Taking a value tells nobody anything. -/
theorem answers_map_taken : answers (items.map fun item => .taken time item.1 item.2) = [] := by
  simp [answers, Event.answer?]

/-- Accepting values releases none. -/
theorem releases_map_sent : releases (items.map fun item => .sent time item.1 item.2) = [] := by
  simp [releases, Event.released?]

/-- Turning values away releases none. -/
theorem releases_map_refused : releases (items.map fun item => .refused time item.1 item.2) = [] := by
  simp [releases, Event.released?]

/-- Taking values is not the going of the senders. -/
theorem endings_map_taken : endings (items.map fun item => .taken time item.1 item.2) = [] := by
  simp [endings, Event.ended?]

/-- Taking values releases none. -/
theorem releases_map_taken : releases (items.map fun item => .taken time item.1 item.2) = [] := by
  simp [releases, Event.released?]

end Told

/-- The task takes what the queue accepts of a burst. -/
theorem steps_burst {t : Task κ ν} (hrunning : t.closed = false) (hqueue : t.queue = [])
    (hopen : t.ended = false) (items : List (κ × ν)) :
    ∃ events next, Steps t events next ∧ next.toDebouncer = (t.toDebouncer.acceptAll items).2 ∧
      next.queue = [] ∧ next.ended = false ∧
      answers events = (t.toDebouncer.acceptAll items).1 ∧ releases events = [] := by
  let full : Task κ ν := { t with queue := items.take capacity }
  have hsend : Steps t ((items.take capacity).map fun item => .sent t.now item.1 item.2) full := by
    have hroom : t.queue.length + (items.take capacity).length ≤ capacity := by
      rw [hqueue, List.length_nil, Nat.zero_add]
      exact List.length_take_le ..
    have hsteps := steps_send hopen hroom
    rwa [hqueue, List.nil_append] at hsteps
  have hrefuse : Steps full ((items.drop capacity).map fun item => .refused t.now item.1 item.2) full := by
    by_cases hlength : capacity ≤ items.length
    · refine steps_refuse (t := full) ?_ _
      exact Nat.le_of_eq (List.length_take_of_le hlength).symm
    · rw [List.drop_of_length_le (Nat.le_of_not_le hlength)]
      exact .refl
  obtain ⟨next, htake, hnext, hrest⟩ := steps_take (t := full) hrunning
  have hanswers : t.toDebouncer.acceptAll items =
      (items.mapIdx fun i _ => decide (i < capacity), next.toDebouncer) := by
    rw [hnext, acceptAll, if_neg (Bool.eq_false_iff.mp hrunning)]
  refine ⟨_, next, hsend.trans (hrefuse.trans htake), ?_, hrest.1, hrest.2.trans hopen, ?_, ?_⟩
  · rw [hanswers]
  · rw [hanswers, mapIdx_decide_lt, answers_append, answers_append, answers_map_sent,
      answers_map_refused, answers_map_taken, List.append_nil]
  · rw [releases_append, releases_append, releases_map_sent, releases_map_refused,
      releases_map_taken]
    rfl

end Burst

section Play

omit [DecidableEq κ] in
/-- The releases of a batch are the batch. -/
theorem releases_map_ofReleased (released : List (Released κ ν)) :
    releases (released.map .ofReleased) = released := by
  simp [releases, Event.released?, Event.ofReleased, Function.comp_def]

omit [DecidableEq κ] in
/-- Releasing a batch sends nothing. -/
theorem sends_map_ofReleased (released : List (Released κ ν)) : sends (released.map .ofReleased) = [] := by
  simp [sends, Event.sent?, Event.ofReleased]

omit [DecidableEq κ] in
/-- Releasing a batch is not the going of the senders. -/
theorem endings_map_ofReleased (released : List (Released κ ν)) :
    endings (released.map .ofReleased) = [] := by
  simp [endings, Event.ended?, Event.ofReleased]

omit [DecidableEq κ] in
/-- Releasing a batch tells no sender anything. -/
theorem answers_map_ofReleased (released : List (Released κ ν)) :
    answers (released.map .ofReleased) = [] := by
  simp [answers, Event.answer?, Event.ofReleased]

omit [DecidableEq κ] in
/-- Nothing is due once nothing is held. -/
theorem moveTo_of_held_eq_nil {d : Debouncer κ ν} (h : d.held = []) (time : Nat) :
    d.moveTo time = ([], { d with now := time }) := by
  obtain ⟨interval, now, held, closed⟩ := d
  obtain rfl : held = [] := h
  rfl

/-- A closed debouncer releases nothing, whatever is done; only the time passes. -/
theorem act_of_closed {d : Debouncer κ ν} (hclosed : d.closed = true) (hheld : d.held = [])
    (a : Action κ ν) :
    (d.act a).1 = ⟨[], []⟩ ∧ ∃ time, d.now ≤ time ∧ (d.act a).2 = { d with now := time } := by
  cases a with
  | burst items =>
    simp only [act, acceptAll, hclosed, if_true, moveTo_of_held_eq_nil hheld, true_and]
    exact ⟨d.now, Nat.le_refl _, rfl⟩
  | wait ms =>
    simp only [act, advance, moveTo_of_held_eq_nil hheld, true_and]
    exact ⟨d.now + ms, Nat.le_add_right .., rfl⟩
  | close =>
    simp only [act, close, hheld, List.map_nil, true_and]
    exact ⟨d.now, Nat.le_refl _, by rw [← hheld, ← hclosed]⟩

/-- Once the senders are gone, a task that has nothing to take releases what it holds and finishes. -/
theorem steps_close {t : Task κ ν} (hrunning : t.closed = false) (hqueue : t.queue = [])
    (hopen : t.ended = false) :
    Steps t (.ended t.now :: t.toDebouncer.close.1.map .ofReleased)
      { t with toDebouncer := t.toDebouncer.close.2, ended := true } := by
  let left : Task κ ν := { t with ended := true }
  have hleave : Step t [.ended t.now] left := .leave hopen
  have hreleased : t.toDebouncer.close.1.map Event.ofReleased = t.held.map (.ofHeld t.now) := by
    rw [close, List.map_map]
    rfl
  have hfinish : Step left (t.held.map (.ofHeld t.now))
      { left with toDebouncer := t.toDebouncer.close.2 } :=
    .work (.finish hrunning rfl hqueue (.refl _))
  rw [hreleased]
  exact (Steps.single hleave).trans (.single hfinish)

/-- An action is a run of the task from rest to rest. -/
theorem Task.Fits.exists_steps_act {interval : Nat} {log : List (Event κ ν)} {t : Task κ ν}
    (hfits : t.Fits interval log) (hrest : t.IsAtRest) (a : Action κ ν) :
    ∃ events next, Steps t events next ∧ next.IsAtRest ∧
      next.toDebouncer = (t.toDebouncer.act a).2 ∧
      answers events = (t.toDebouncer.act a).1.answers ∧
      releases events = (t.toDebouncer.act a).1.released := by
  obtain ⟨hqueue, hclosed | ⟨hopen, hearly⟩⟩ := hrest
  · obtain ⟨houtput, time, hlater, hnext⟩ := act_of_closed hclosed (hfits.finished hclosed).1 a
    rw [houtput, hnext]
    exact ⟨[], { t with now := time }, .single (.pass time hlater (.inl hclosed)),
      ⟨hqueue, .inl hclosed⟩, rfl, rfl, rfl⟩
  · have hrunning := hfits.running_of_open hopen
    cases a with
    | burst items =>
      obtain ⟨taken, full, hburst, hfull, hfullqueue, hfullopen, hanswers, hnone⟩ :=
        steps_burst hrunning hqueue hopen items
      obtain ⟨next, hsettle, hnext, hnextqueue, hnextopen, hnextearly⟩ :=
        (hfits.steps hburst).steps_moveTo hfullqueue hfullopen (Nat.le_refl full.now)
      rw [hfull] at hsettle hnext
      refine ⟨_, next, hburst.trans hsettle, ⟨hnextqueue, .inr ⟨hnextopen, hnextearly⟩⟩, hnext, ?_, ?_⟩
      · rw [answers_append, hanswers, answers_map_ofReleased, List.append_nil, act]
      · rw [releases_append, hnone, releases_map_ofReleased, List.nil_append, act]
    | wait ms =>
      obtain ⟨next, hsteps, hnext, hnextqueue, hnextopen, hnextearly⟩ :=
        hfits.steps_moveTo hqueue hopen (Nat.le_add_right t.now ms)
      exact ⟨_, next, hsteps, ⟨hnextqueue, .inr ⟨hnextopen, hnextearly⟩⟩, hnext,
        answers_map_ofReleased _, releases_map_ofReleased _⟩
    | close =>
      exact ⟨_, _, steps_close hrunning hqueue hopen, ⟨hqueue, .inl rfl⟩, rfl,
        answers_map_ofReleased _, releases_map_ofReleased _⟩

/-- Actions one after the other are a run of the task from rest to rest. -/
theorem Task.Fits.exists_steps_play {interval : Nat} {log : List (Event κ ν)} {t : Task κ ν}
    (hfits : t.Fits interval log) (hrest : t.IsAtRest) (actions : List (Action κ ν)) :
    ∃ events next, Steps t events next ∧ next.IsAtRest ∧
      next.toDebouncer = (t.toDebouncer.play actions).2 ∧
      answers events = (t.toDebouncer.play actions).1.answers ∧
      releases events = (t.toDebouncer.play actions).1.released := by
  induction actions generalizing log t with
  | nil => exact ⟨[], t, .refl, hrest, rfl, rfl, rfl⟩
  | cons a rest ih =>
    obtain ⟨first, mid, hact, hmidrest, hmid, hanswers, hreleases⟩ := hfits.exists_steps_act hrest a
    obtain ⟨later, next, hplay, hnextrest, hnext, hlateranswers, hlaterreleases⟩ :=
      ih (hfits.steps hact) hmidrest
    rw [hmid] at hnext hlateranswers hlaterreleases
    refine ⟨_, next, hact.trans hplay, hnextrest, hnext, ?_, ?_⟩
    · rw [answers_append, hanswers, hlateranswers, play]
    · rw [releases_append, hreleases, hlaterreleases, play]

/-- A debouncer in use is a run of its task. -/
theorem exists_run_of_play (interval : Nat) (actions : List (Action κ ν)) :
    ∃ log t, Run interval log t ∧ t.IsAtRest ∧
      t.toDebouncer = ((new interval).play actions).2 ∧
      answers log = ((new interval).play actions).1.answers ∧
      releases log = ((new interval).play actions).1.released :=
  (Task.fits_new interval).exists_steps_play ⟨rfl, .inr ⟨rfl, show 0 < idlePoll by decide⟩⟩ actions

end Play

end Milestone.Debouncer
