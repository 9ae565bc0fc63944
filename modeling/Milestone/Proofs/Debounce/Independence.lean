import Milestone.Proofs.Debounce.Delivery

/-!
# Keys are independent

Other keys make the task wake up at other times. What is released for a key is nevertheless told by what was
sent for it, the time, and when the senders went. So it is the same without the other keys, if a deadline is
served before a value that comes at the same time.
-/

namespace Milestone.Debouncer

variable {κ ν : Type} [DecidableEq κ]

/-- A value does not come at or after the deadline of the one that it takes the place of. -/
def ServedFirst (interval : Nat) (before : List (Event κ ν)) (e : Event κ ν) : Prop :=
  ∀ item ∈ e.taken?, ∀ old ∈ pending? before item.2.1, item.1 < old.1 + interval

instance (interval : Nat) (before : List (Event κ ν)) (e : Event κ ν) :
    Decidable (ServedFirst interval before e) :=
  inferInstanceAs (Decidable (∀ item ∈ e.taken?, ∀ old ∈ pending? before item.2.1, _))

/-- Only taking a value can come before a deadline is served. -/
theorem servedFirst_of_taken?_eq_none {interval : Nat} {before : List (Event κ ν)} {e : Event κ ν}
    (h : e.taken? = none) : ServedFirst interval before e := by
  intro item hitem
  rw [h] at hitem
  cases hitem

/-- So releases never do. -/
theorem servedFirst_map_ofReleased {interval : Nat} {past : List (Event κ ν) → List (Event κ ν)}
    (released : List (Released κ ν)) :
    Throughout (fun before e => ServedFirst interval (past before) e) (released.map .ofReleased) :=
  throughout_map_ofReleased (fun _ _ _ _ => servedFirst_of_taken?_eq_none rfl) released

/-- A deadline is served before a value that comes at the same time. -/
def ServesFirst (interval : Nat) (log : List (Event κ ν)) : Prop :=
  Throughout (ServedFirst interval) log

instance (interval : Nat) (log : List (Event κ ν)) : Decidable (ServesFirst interval log) :=
  inferInstanceAs (Decidable (Throughout _ _))

section Restrict

variable (key : κ)

/-- What concerns a key. -/
def restrict (d : Debouncer κ ν) : Debouncer κ ν :=
  { d with held := d.held.filter (·.key = key) }

/-- An action without the values that are accepted for other keys. -/
def Action.restrict : Action κ ν → Action κ ν
  | .burst items => .burst ((items.take capacity).filter (·.1 = key))
  | .wait ms => .wait ms
  | .close => .close

variable (d : Debouncer κ ν)

/-- A debouncer is as open for one key as for all. -/
theorem closed_restrict : (d.restrict key).closed = d.closed :=
  rfl

/-- Accepting a value of the key may be done before or after leaving out the others. -/
theorem restrict_accept_self (value : ν) :
    (d.accept key value).restrict key = (d.restrict key).accept key value := by
  cases hclosed : d.closed with
  | true => simp only [restrict, accept, hclosed, if_true]
  | false =>
    rw [accept_of_open hclosed, accept_of_open ((closed_restrict key d).trans hclosed)]
    simp [restrict, List.filter_filter, Bool.and_comm]

/-- A value of another key makes no difference. -/
theorem restrict_accept_of_ne {key other : κ} (hne : other ≠ key) (value : ν) :
    (d.accept other value).restrict key = d.restrict key := by
  cases hclosed : d.closed with
  | true => simp only [accept, hclosed, if_true]
  | false =>
    have hothers : (d.held.filter (fun h => h.key ≠ other)).filter (·.key = key) =
        d.held.filter (·.key = key) := by
      rw [List.filter_filter]
      refine List.filter_congr fun h _ => ?_
      by_cases hkey : h.key = key <;> simp [hkey, Ne.symm hne]
    rw [accept_of_open hclosed, restrict, List.filter_append, hothers, restrict]
    simp [hne]

/-- So of many values only those of the key matter. -/
theorem restrict_foldl_accept (items : List (κ × ν)) :
    (items.foldl (fun d item => d.accept item.1 item.2) d).restrict key =
      (items.filter (·.1 = key)).foldl (fun d item => d.accept item.1 item.2) (d.restrict key) := by
  induction items generalizing d with
  | nil => rfl
  | cons item rest ih =>
    rw [List.foldl_cons, ih]
    by_cases hkey : item.1 = key
    · rw [List.filter_cons_of_pos (by simpa using hkey), List.foldl_cons, hkey, restrict_accept_self]
    · rw [List.filter_cons_of_neg (by simpa using hkey), restrict_accept_of_ne d hkey]

/-- When time passes, the key is released as if it were alone. -/
theorem restrict_moveTo (time : Nat) :
    (d.restrict key).moveTo time =
      ((d.moveTo time).1.filter (·.key = key), (d.moveTo time).2.restrict key) := by
  simp only [moveTo, due, restrict, List.filter_map, List.filter_filter, Function.comp_def, Bool.and_comm]

/-- At the end the key is released as if it were alone. -/
theorem restrict_close :
    (d.restrict key).close = (d.close.1.filter (·.key = key), d.close.2.restrict key) := by
  simp only [close, restrict, List.filter_map, Function.comp_def, List.filter_nil]

/-- Of the values that the queue has room for, those of the key are accepted as if they were alone. -/
theorem restrict_acceptAll (items : List (κ × ν)) :
    ((d.restrict key).acceptAll ((items.take capacity).filter (·.1 = key))).2 =
      (d.acceptAll items).2.restrict key := by
  have hfew : ((items.take capacity).filter (·.1 = key)).length ≤ capacity :=
    Nat.le_trans (List.length_filter_le ..) (List.length_take_le ..)
  unfold acceptAll
  rw [closed_restrict]
  split
  · rfl
  · rw [List.take_of_length_le hfew, restrict_foldl_accept]

/-- Without the values for other keys an action does the same for a key. -/
theorem restrict_act (a : Action κ ν) :
    ((d.restrict key).act (a.restrict key)).1.released = (d.act a).1.released.filter (·.key = key) ∧
      ((d.restrict key).act (a.restrict key)).2 = (d.act a).2.restrict key := by
  cases a with
  | burst items =>
    simp only [act, Action.restrict, restrict_acceptAll, restrict_moveTo]
    exact ⟨rfl, rfl⟩
  | wait ms =>
    simp only [act, Action.restrict, advance, restrict_moveTo]
    exact ⟨rfl, rfl⟩
  | close =>
    simp only [act, Action.restrict, restrict_close, and_self]

/-- So does a whole use. -/
theorem restrict_play (actions : List (Action κ ν)) :
    ((d.restrict key).play (actions.map (·.restrict key))).1.released =
      (d.play actions).1.released.filter (·.key = key) := by
  induction actions generalizing d with
  | nil => rfl
  | cons a rest ih =>
    obtain ⟨hreleased, hnext⟩ := d.restrict_act key a
    simp only [List.map_cons, play, hreleased, hnext, ih, List.filter_append]

end Restrict

/-- What is released for a key. -/
def releasesFor (key : κ) (log : List (Event κ ν)) : List (Nat × ν) :=
  ((releases log).filter (·.key = key)).map fun r => (r.time, r.value)

/-- What is taken for a key. -/
def takesFor (key : κ) (log : List (Event κ ν)) : List (Nat × ν) :=
  ((takes log).filter (·.2.1 = key)).map fun item => (item.1, item.2.2)

/-- What is to be released for a key. -/
def heldFor (key : κ) (held : List (Held κ ν)) : List (Nat × ν) :=
  (held.filter (·.key = key)).map fun h => (h.deadline, h.value)

omit [DecidableEq κ] in
/-- A value calls off what was to be released later than it comes, and is to be released itself. -/
def schedule (interval : Nat) (planned : List (Nat × ν)) (item : Nat × ν) : List (Nat × ν) :=
  planned.filter (·.1 ≤ item.1) ++ [(item.1 + interval, item.2)]

/-- What is released for a key if nothing cuts the last deadline short. -/
def deliveries (interval : Nat) (items : List (Nat × ν)) : List (Nat × ν) :=
  items.foldl (schedule interval) []

/-- One more value changes the deliveries by one step of the schedule. -/
theorem deliveries_append_singleton (interval : Nat) (items : List (Nat × ν)) (item : Nat × ν) :
    deliveries interval (items ++ [item]) = schedule interval (deliveries interval items) item := by
  simp only [deliveries, List.foldl_append, List.foldl_cons, List.foldl_nil]

section Append

variable (key : κ) (log events : List (Event κ ν))

/-- The releases for a key in a log are those of its parts. -/
@[simp] theorem releasesFor_append :
    releasesFor key (log ++ events) = releasesFor key log ++ releasesFor key events := by
  simp [releasesFor]

/-- So are the values taken for it. -/
@[simp] theorem takesFor_append :
    takesFor key (log ++ events) = takesFor key log ++ takesFor key events := by
  simp [takesFor]

/-- A batch of releases has those of the values held for the key. -/
theorem releasesFor_map_ofHeld (time : Nat) (batch : List (Held κ ν)) :
    releasesFor key (batch.map (.ofHeld time)) =
      (batch.filter (·.key = key)).map fun h => (time, h.value) := by
  simp [releasesFor, releases, Event.ofHeld, Event.released?, List.filter_map, Function.comp_def]

omit [DecidableEq κ] in
/-- A batch of releases is not the going of the senders. -/
theorem endings_map_ofHeld (time : Nat) (batch : List (Held κ ν)) :
    endings (batch.map (.ofHeld time)) = [] := by
  simp [endings, Event.ofHeld, Event.ended?]

/-- A batch of releases takes nothing for a key. -/
theorem takesFor_map_ofHeld (time : Nat) (batch : List (Held κ ν)) :
    takesFor key (batch.map (.ofHeld time)) = [] := by
  simp [takesFor, takes_map_ofHeld]

end Append

omit [DecidableEq κ] in
/-- The senders went when the log says so. -/
theorem mem_endings_iff {log : List (Event κ ν)} {stop : Nat} :
    stop ∈ endings log ↔ .ended stop ∈ log := by
  rw [endings, List.mem_filterMap]
  constructor
  · rintro ⟨e, he, hstop⟩
    cases e with
    | ended time =>
      obtain rfl : time = stop := Option.some.inj hstop
      exact he
    | _ => cases hstop
  · exact fun h => ⟨_, h, rfl⟩

/-- At most one value is held for a key. -/
theorem length_filter_key_le_one {held : List (Held κ ν)} (hnodup : (held.map (·.key)).Nodup) (key : κ) :
    (held.filter (·.key = key)).length ≤ 1 := by
  induction held with
  | nil => exact Nat.zero_le _
  | cons h rest ih =>
    rw [List.map_cons, List.nodup_cons] at hnodup
    by_cases hkey : h.key = key
    · have hnone : rest.filter (·.key = key) = [] := by
        refine List.filter_eq_nil_iff.mpr fun g hg hsame => hnodup.1 ?_
        rw [hkey, ← of_decide_eq_true hsame]
        exact List.mem_map_of_mem hg
      simp [hkey, hnone]
    · simpa [hkey] using ih hnodup.2

/-- A value that is taken is held for its key in the stead of what was. -/
theorem heldFor_accept_self {d : Debouncer κ ν} (hopen : d.closed = false) (key : κ) (value : ν) :
    heldFor key (d.accept key value).held = [(d.now + d.interval, value)] := by
  simp [accept_of_open hopen, heldFor, List.filter_filter]

/-- What is held for a key stays when a value of another one is accepted. -/
theorem heldFor_accept_of_ne (d : Debouncer κ ν) {key other : κ} (hne : other ≠ key) (value : ν) :
    heldFor key (d.accept other value).held = heldFor key d.held :=
  congrArg (fun d => d.held.map fun h => (h.deadline, h.value)) (restrict_accept_of_ne d hne value)

/-- As long as there are senders, they have not gone. -/
theorem Task.Fits.endings_eq_nil {interval : Nat} {log : List (Event κ ν)} {t : Task κ ν}
    (hfits : t.Fits interval log) (hopen : t.ended = false) : endings log = [] := by
  refine List.eq_nil_iff_forall_not_mem.mpr fun stop hstop => ?_
  have hended := hfits.ended_iff.mpr ⟨stop, mem_endings_iff.mp hstop⟩
  exact Bool.false_ne_true (hopen.symm.trans hended)

/-- What is held for a key is in a batch of releases or is kept. -/
theorem Task.Fits.filter_key_append {interval : Nat} {log : List (Event κ ν)} {t : Task κ ν}
    (hfits : t.Fits interval log) {batch kept : List (Held κ ν)} (hperm : (batch ++ kept).Perm t.held)
    (key : κ) :
    batch.filter (·.key = key) ++ kept.filter (·.key = key) = t.held.filter (·.key = key) := by
  have hfilter := hperm.filter (·.key = key)
  rw [List.filter_append] at hfilter
  have hone := length_filter_key_le_one hfits.nodup key
  cases hheld : t.held.filter (·.key = key) with
  | nil => exact List.perm_nil.mp (hheld ▸ hfilter)
  | cons h rest =>
    rw [hheld, List.length_cons] at hone
    obtain rfl : rest = [] := List.eq_nil_of_length_eq_zero (by omega)
    exact List.perm_singleton.mp (hheld ▸ hfilter)

/-- What the task has released for a key, and what it is still to release. -/
structure Task.Delivers (interval : Nat) (key : κ) (log : List (Event κ ν)) (t : Task κ ν) : Prop where
  past : ∀ r ∈ releasesFor key log, r.1 ≤ t.now
  endings_eq : t.ended = true → ∃ stop, endings log = [stop]
  running : t.closed = false →
    releasesFor key log ++ heldFor key t.held = deliveries interval (takesFor key log)
  finished : t.closed = true → ∀ stop, endings log = [stop] →
    releasesFor key log = (deliveries interval (takesFor key log)).map fun r => (min r.1 stop, r.2)

namespace Task.Delivers

variable {interval : Nat} {key : κ} {log : List (Event κ ν)} {t : Task κ ν}
  (hfits : t.Fits interval log) (h : t.Delivers interval key log)

include hfits h

/-- A value that is taken calls off the one that is held for its key. -/
theorem take (hrunning : t.closed = false) {k : κ} {value : ν} {rest : List (κ × ν)}
    (hfirst : ServedFirst interval log (.taken t.now k value)) :
    ({ t with toDebouncer := t.toDebouncer.accept k value, queue := rest } : Task κ ν).rearm.Delivers
      interval key (log ++ [.taken t.now k value]) := by
  have hopen : (t.toDebouncer.accept k value).closed = false := by
    rw [accept_of_open hrunning, hrunning]
  have hnow : (t.toDebouncer.accept k value).now = t.now := by
    rw [accept_of_open hrunning]
  have hreleases : releasesFor key (log ++ [.taken t.now k value]) = releasesFor key log := by
    simp [releasesFor, releases, Event.released?]
  refine ⟨?_, ?_, fun _ => ?_, fun hclosed => absurd (hopen.symm.trans hclosed) Bool.false_ne_true⟩
  · rw [hreleases]
    exact fun r hr => Nat.le_trans (h.past r hr) (Nat.le_of_eq hnow.symm)
  · simpa [endings, Event.ended?] using h.endings_eq
  · rw [hreleases, takesFor_append, toDebouncer_rearm]
    by_cases hkey : k = key
    · subst hkey
      have htaken : takesFor k [.taken t.now k value] = [(t.now, value)] := by
        simp [takesFor, takes, Event.taken?]
      have hpast : (releasesFor k log).filter (·.1 ≤ t.now) = releasesFor k log :=
        List.filter_eq_self.mpr fun r hr => decide_eq_true (h.past r hr)
      have hcalled : (heldFor k t.held).filter (·.1 ≤ t.now) = [] := by
        refine List.filter_eq_nil_iff.mpr fun r hr => ?_
        obtain ⟨g, hg, rfl⟩ := List.mem_map.mp hr
        obtain ⟨hheld, hsame⟩ := List.mem_filter.mp hg
        obtain ⟨early, hlast, hdeadline⟩ := (hfits.mem_held_iff g).mp hheld
        rw [of_decide_eq_true hsame] at hlast
        have hearly := hfirst _ rfl _ (pending?_eq_some_iff.mpr hlast)
        simpa [hdeadline] using hearly
      rw [htaken, deliveries_append_singleton, ← h.running hrunning, schedule, List.filter_append,
        hpast, hcalled, List.append_nil, heldFor_accept_self hrunning, hfits.interval_eq]
    · have htaken : takesFor key [.taken t.now k value] = [] := by
        simp [takesFor, takes, Event.taken?, hkey]
      rw [htaken, List.append_nil, heldFor_accept_of_ne _ hkey, h.running hrunning]

omit hfits in
/-- A batch is released at the present time. -/
theorem past_batch (batch : List (Held κ ν)) :
    ∀ r ∈ releasesFor key (log ++ batch.map (.ofHeld t.now)), r.1 ≤ t.now := by
  intro r hr
  rw [releasesFor_append, releasesFor_map_ofHeld] at hr
  rcases List.mem_append.mp hr with hbefore | hnow
  · exact h.past r hbefore
  · obtain ⟨g, -, rfl⟩ := List.mem_map.mp hnow
    exact Nat.le_refl _

/-- What is due for a key is released at its deadline. -/
theorem wake (hrunning : t.closed = false) {due : List (Held κ ν)}
    (hdue : due.Perm (t.held.filter (·.deadline ≤ t.now))) :
    ({ t with toDebouncer := (t.toDebouncer.moveTo t.now).2 } : Task κ ν).rearm.Delivers interval key
      (log ++ due.map (.ofHeld t.now)) := by
  have hreleased : (due.filter (·.key = key)).map (fun h => (t.now, h.value)) = heldFor key due := by
    refine List.map_congr_left fun g hg => ?_
    obtain ⟨hheld, hpast⟩ := List.mem_filter.mp (hdue.mem_iff.mp (List.mem_filter.mp hg).1)
    rw [Nat.le_antisymm (of_decide_eq_true hpast) (hfits.now_le g hheld)]
  refine ⟨?_, ?_, fun _ => ?_, fun hclosed => absurd (hrunning.symm.trans hclosed) Bool.false_ne_true⟩
  · exact h.past_batch due
  · simpa [endings_map_ofHeld] using h.endings_eq
  · rw [releasesFor_append, releasesFor_map_ofHeld, hreleased, takesFor_append, takesFor_map_ofHeld,
      List.append_nil, ← h.running hrunning, List.append_assoc]
    have hsplit := hfits.filter_key_append (perm_of_due hdue) key
    rw [heldFor, heldFor, heldFor, ← hsplit, List.map_append]
    rfl

/-- What is held for a key when the senders are gone is released at once. -/
theorem finish (hrunning : t.closed = false) {flushed : List (Held κ ν)}
    (hflushed : flushed.Perm t.held) :
    ({ t with toDebouncer := t.toDebouncer.close.2 } : Task κ ν).Delivers interval key
      (log ++ flushed.map (.ofHeld t.now)) := by
  have hreleases : releasesFor key (log ++ flushed.map (.ofHeld t.now)) =
      releasesFor key log ++ (t.held.filter (·.key = key)).map fun g => (t.now, g.value) := by
    have hall : (flushed ++ []).Perm t.held := by rwa [List.append_nil]
    have hsplit := hfits.filter_key_append hall key
    rw [List.filter_nil, List.append_nil] at hsplit
    rw [releasesFor_append, releasesFor_map_ofHeld, hsplit]
  refine ⟨?_, ?_, nofun, fun _ stop hstop => ?_⟩
  · exact h.past_batch flushed
  · simpa [endings_map_ofHeld] using h.endings_eq
  · rw [endings_append, endings_map_ofHeld, List.append_nil] at hstop
    have hnow : t.now = stop := by
      refine hfits.now_of_ended hrunning stop (mem_endings_iff.mp ?_)
      rw [hstop]
      exact List.mem_singleton_self stop
    subst hnow
    have hpast : (releasesFor key log).map (fun r => (min r.1 t.now, r.2)) = releasesFor key log := by
      refine (List.map_congr_left fun r hr => ?_).trans (List.map_id _)
      rw [Nat.min_eq_left (h.past r hr), id]
    have hcut : (heldFor key t.held).map (fun r => (min r.1 t.now, r.2)) =
        (t.held.filter (·.key = key)).map fun g => (t.now, g.value) := by
      rw [heldFor, List.map_map]
      refine List.map_congr_left fun g hg => ?_
      exact congrArg (·, g.value) (Nat.min_eq_right (hfits.now_le g (List.mem_filter.mp hg).1))
    rw [takesFor_append, takesFor_map_ofHeld, List.append_nil, ← h.running hrunning, List.map_append,
      hpast, hcut, hreleases]

omit hfits in
/-- An event that is neither a take, nor a release, nor the end, changes nothing for a key. -/
theorem quiet {events : List (Event κ ν)} {next : Task κ ν} (hreleases : releasesFor key events = [])
    (htakes : takesFor key events = []) (hendings : endings events = []) (hheld : next.held = t.held)
    (hclosed : next.closed = t.closed) (hended : next.ended = t.ended) (hlater : t.now ≤ next.now) :
    next.Delivers interval key (log ++ events) := by
  constructor
  · rw [releasesFor_append, hreleases, List.append_nil]
    exact fun r hr => Nat.le_trans (h.past r hr) hlater
  · rw [hended, endings_append, hendings, List.append_nil]
    exact h.endings_eq
  · rw [hclosed, releasesFor_append, hreleases, takesFor_append, htakes, hheld, List.append_nil,
      List.append_nil]
    exact h.running
  · rw [hclosed, releasesFor_append, hreleases, takesFor_append, htakes, endings_append, hendings,
      List.append_nil, List.append_nil, List.append_nil]
    exact h.finished

/-- All that can happen keeps to the schedule of a key. -/
theorem step {events : List (Event κ ν)} {next : Task κ ν} (hstep : Step t events next)
    (hfirst : Throughout (fun before e => ServedFirst interval (log ++ before) e) events) :
    next.Delivers interval key (log ++ events) := by
  cases hstep with
  | work hwork =>
    cases hwork with
    | take hrunning _ =>
      have hserved : ServedFirst interval (log ++ []) _ := hfirst [] _ [] rfl
      rw [List.append_nil] at hserved
      exact take hfits h hrunning hserved
    | wake hrunning _ hdue => exact wake hfits h hrunning hdue
    | finish hrunning _ _ hflushed => exact finish hfits h hrunning hflushed
  | send => exact quiet h rfl rfl rfl rfl rfl rfl (Nat.le_refl _)
  | refuse => exact quiet h rfl rfl rfl rfl rfl rfl (Nat.le_refl _)
  | pass _ hlater => exact quiet h rfl rfl rfl rfl rfl rfl hlater
  | leave hopen =>
    have hrunning := hfits.running_of_open hopen
    constructor
    · simpa [releasesFor, releases, Event.released?] using h.past
    · exact fun _ => ⟨t.now, by rw [endings_append, hfits.endings_eq_nil hopen]; rfl⟩
    · simpa [releasesFor, releases, Event.released?, takesFor, takes, Event.taken?] using h.running
    · exact fun hclosed => absurd (hrunning.symm.trans hclosed) Bool.false_ne_true

end Task.Delivers

section Run

variable {interval : Nat} {log : List (Event κ ν)} {t : Task κ ν}

/-- A run that serves deadlines first delivers to each key what its own values call for. -/
theorem run_delivers (hrun : Run interval log t) (hfirst : ServesFirst interval log) (key : κ) :
    t.Delivers interval key log := by
  induction hrun with
  | refl =>
    exact ⟨nofun, nofun, fun _ => rfl, nofun⟩
  | step hrun hstep ih =>
    obtain ⟨hbefore, hnow⟩ := throughout_append.mp hfirst
    exact (ih hbefore).step (run_fits hrun) hstep hnow

/-- What is released was sent for its key. -/
theorem exists_send_of_mem_releases (hrun : Run interval log t) {r : Released κ ν} (hr : r ∈ releases log) :
    ∃ item ∈ sends log, item.2.1 = r.key := by
  have hreleased : .released r.time r.key r.value ∈ log := by
    obtain ⟨e, he, hsome⟩ := List.mem_filterMap.mp hr
    cases e with
    | released =>
      obtain rfl := Option.some.inj hsome
      exact he
    | _ => cases hsome
  obtain ⟨before, after, hsplit⟩ := List.append_of_mem hreleased
  obtain ⟨early, hlast, -⟩ := run_isDue hrun before _ after hsplit _ _ _ rfl
  have htaken : .taken early r.key r.value ∈ log := by
    rw [hsplit]
    exact List.mem_append_left _ (List.mem_reverse.mp (List.mem_of_find?_eq_some hlast))
  refine ⟨(early, r.key, r.value), ?_, rfl⟩
  rw [(run_fits hrun).sends_eq]
  exact List.mem_append_left _ (List.mem_filterMap.mpr ⟨_, htaken, rfl⟩)

/-- What is sent for a key. -/
def sendsFor (key : κ) (log : List (Event κ ν)) : List (Nat × ν) :=
  ((sends log).filter (·.2.1 = key)).map fun item => (item.1, item.2.2)

/-- What is released for a key by a time, if the senders go at the end given. -/
def expected (interval : Nat) (items : List (Nat × ν)) (stop? : Option Nat) (time : Nat) : List (Nat × ν) :=
  match stop? with
  | some stop => (deliveries interval items).map fun r => (min r.1 stop, r.2)
  | none => (deliveries interval items).filter (·.1 ≤ time)

omit [DecidableEq κ] in
/-- A value that comes does not change what was released before. -/
theorem filter_deliveries_append {time : Nat} (interval : Nat) (items : List (Nat × ν))
    {more : List (Nat × ν)} (hmore : ∀ item ∈ more, item.1 = time) :
    (deliveries interval (items ++ more)).filter (·.1 < time) =
      (deliveries interval items).filter (·.1 < time) := by
  induction more generalizing items with
  | nil => rw [List.append_nil]
  | cons item rest ih =>
    obtain ⟨rfl, hrest⟩ := List.forall_mem_cons.mp hmore
    have hearlier : ∀ r : Nat × ν, (decide (r.1 < item.1) && decide (r.1 ≤ item.1)) = decide (r.1 < item.1) := by
      intro r
      by_cases h : r.1 < item.1 <;> simp [h, Nat.le_of_lt]
    rw [List.append_cons, ih (items ++ [item]) hrest, deliveries_append_singleton, schedule,
      List.filter_append, List.filter_filter]
    simp [hearlier]

omit [DecidableEq κ] in
/-- The end does not change what was released before. -/
theorem filter_expected (interval time : Nat) (items : List (Nat × ν)) {stop? : Option Nat}
    (hstop : ∀ stop, stop? = some stop → stop = time) :
    (expected interval items stop? time).filter (·.1 < time) =
      (deliveries interval items).filter (·.1 < time) := by
  cases stop? with
  | none =>
    rw [expected, List.filter_filter]
    refine List.filter_congr fun r _ => ?_
    by_cases h : r.1 < time <;> simp [h, Nat.le_of_lt]
  | some stop =>
    obtain rfl := hstop stop rfl
    have hearlier : ∀ r : Nat × ν, decide (min r.1 stop < stop) = decide (r.1 < stop) := by
      intro r
      rw [decide_eq_decide]
      omega
    rw [expected, List.filter_map]
    simp only [Function.comp_def, hearlier]
    refine (List.map_congr_left fun r hr => ?_).trans (List.map_id _)
    rw [Nat.min_eq_left (Nat.le_of_lt (of_decide_eq_true (List.mem_filter.mp hr).2)), id]

variable (hrun : Run interval log t) (hfirst : ServesFirst interval log) (key : κ)

include hrun hfirst

/-- A task that has finished has released for a key what its own values and the end tell. -/
theorem releasesFor_of_closed (hclosed : t.closed = true) :
    releasesFor key log = expected interval (sendsFor key log) (endings log).head? t.now := by
  have hfits := run_fits hrun
  have hdelivers := run_delivers hrun hfirst key
  obtain ⟨-, hqueue, hended⟩ := hfits.finished hclosed
  obtain ⟨stop, hstop⟩ := hdelivers.endings_eq hended
  have hsends : sendsFor key log = takesFor key log := by
    rw [sendsFor, takesFor, hfits.sends_eq, hqueue, List.map_nil, List.append_nil]
  rw [hstop, hdelivers.finished hclosed stop hstop, hsends]
  rfl

/-- A task at rest has released for a key what its own values, the time and the end tell. -/
theorem releasesFor_of_isAtRest (hrest : t.IsAtRest) :
    releasesFor key log = expected interval (sendsFor key log) (endings log).head? t.now := by
  have hfits := run_fits hrun
  have hdelivers := run_delivers hrun hfirst key
  rcases hrest.2 with hclosed | ⟨hopen, hearly⟩
  · exact releasesFor_of_closed hrun hfirst key hclosed
  · have hrunning := hfits.running_of_open hopen
    have hsends : sendsFor key log = takesFor key log := by
      rw [sendsFor, takesFor, hfits.sends_eq, hrest.1, List.map_nil, List.append_nil]
    have hpast : (releasesFor key log).filter (·.1 ≤ t.now) = releasesFor key log :=
      List.filter_eq_self.mpr fun r hr => decide_eq_true (hdelivers.past r hr)
    have hlater : (heldFor key t.held).filter (·.1 ≤ t.now) = [] := by
      refine List.filter_eq_nil_iff.mpr fun r hr => ?_
      obtain ⟨g, hg, rfl⟩ := List.mem_map.mp hr
      simpa using hfits.lt_deadline hrest (List.mem_filter.mp hg).1
    rw [hfits.endings_eq_nil hopen, List.head?_nil, expected, hsends, ← hdelivers.running hrunning,
      List.filter_append, hpast, hlater, List.append_nil]

/-- Any task has released for a key before the present time what its own values, the time and the end tell. -/
theorem filter_releasesFor :
    (releasesFor key log).filter (·.1 < t.now) =
      (expected interval (sendsFor key log) (endings log).head? t.now).filter (·.1 < t.now) := by
  have hfits := run_fits hrun
  have hdelivers := run_delivers hrun hfirst key
  cases hclosed : t.closed with
  | true => rw [← releasesFor_of_closed hrun hfirst key hclosed]
  | false =>
    have hsends : sendsFor key log = takesFor key log ++
        ((t.queue.filter (·.1 = key)).map fun item => (t.now, item.2)) := by
      simp [sendsFor, takesFor, hfits.sends_eq, List.filter_map, Function.comp_def]
    have hlater : (heldFor key t.held).filter (·.1 < t.now) = [] := by
      refine List.filter_eq_nil_iff.mpr fun r hr => ?_
      obtain ⟨g, hg, rfl⟩ := List.mem_map.mp hr
      simpa using hfits.now_le g (List.mem_filter.mp hg).1
    rw [filter_expected, hsends, filter_deliveries_append, ← hdelivers.running hclosed,
      List.filter_append, hlater, List.append_nil]
    · intro item hitem
      obtain ⟨_, -, rfl⟩ := List.mem_map.mp hitem
      rfl
    · intro stop hstop
      exact (hfits.now_of_ended hclosed stop (mem_endings_iff.mp (List.mem_of_head? hstop))).symm

end Run

/-- A run without the values for other keys, in which time passes in the same way: the values for the key come
at the same times, the senders go at the same time, and it ends at the same time. -/
structure Alone (interval : Nat) (key : κ) (log : List (Event κ ν)) (t : Task κ ν)
    (alone : List (Event κ ν)) (t' : Task κ ν) : Prop where
  run : Run interval alone t'
  first : ServesFirst interval alone
  rest : t'.IsAtRest
  sends_eq : sends alone = (sends log).filter (·.2.1 = key)
  endings_eq : endings alone = endings log
  now_eq : t'.now = t.now

section Alone

variable {interval : Nat} {key : κ} {log : List (Event κ ν)} {t : Task κ ν}

/-- The run of a key alone goes on beside the run of all keys, if it goes on with the same times. -/
theorem Alone.extend {alone : List (Event κ ν)} {t' : Task κ ν} (h : Alone interval key log t alone t')
    {events events' : List (Event κ ν)} {next next' : Task κ ν} (hsteps : Steps t' events' next')
    (hfirst : Throughout (fun before e => ServedFirst interval (alone ++ before) e) events')
    (hrest : next'.IsAtRest) (hsends : sends events' = (sends events).filter (·.2.1 = key))
    (hendings : endings events' = endings events) (hnow : next'.now = next.now) :
    Alone interval key (log ++ events) next (alone ++ events') next' where
  run := h.run.trans hsteps
  first := throughout_append.mpr ⟨h.first, hfirst⟩
  rest := hrest
  sends_eq := by rw [sends_append, sends_append, h.sends_eq, hsends, List.filter_append]
  endings_eq := by rw [endings_append, endings_append, h.endings_eq, hendings]
  now_eq := hnow

/-- A task at rest takes a value that is sent and comes to rest again at once, the deadlines served first. -/
theorem Task.Fits.exists_steps_send (hfits : t.Fits interval log) (hrest : t.IsAtRest)
    (hopen : t.ended = false) (key : κ) (value : ν) :
    ∃ events next, Steps t events next ∧ next.IsAtRest ∧ next.ended = false ∧ next.now = t.now ∧
      sends events = [(t.now, key, value)] ∧ endings events = [] ∧
      Throughout (fun before e => ServedFirst interval (log ++ before) e) events := by
  have hrunning := hfits.running_of_open hopen
  let waiting : Task κ ν := { t with queue := [(key, value)] }
  let full : Task κ ν := { t with toDebouncer := t.toDebouncer.accept key value, queue := [] }.rearm
  have hsend : Step t [.sent t.now key value] waiting := by
    have hroom : t.queue.length < capacity := by
      rw [hrest.1]
      exact show 0 < capacity by decide
    have hstep := Step.send key value hopen hroom
    rwa [hrest.1, List.nil_append] at hstep
  have htake : Step waiting [.taken t.now key value] full := .work (.take hrunning rfl)
  have hfull := (hfits.step hsend).step htake
  have hnow : full.now = t.now := by
    simp only [full, Task.toDebouncer_rearm, accept_of_open hrunning]
  obtain ⟨next, hsteps, hnext, hqueue, hended, hearly⟩ :=
    hfull.steps_moveTo rfl hopen (Nat.le_refl full.now)
  have hserved : ServedFirst interval (log ++ [.sent t.now key value]) (.taken t.now key value) := by
    intro item hitem old hold
    obtain rfl : (t.now, key, value) = item := Option.some.inj hitem
    have hsame : pending? (log ++ [.sent t.now key value]) key = pending? log key := by
      simp [pending?, last?_append, last?_singleton, Event.key?]
    rw [hsame] at hold
    exact hfits.lt_deadline hrest (hfits.mem_held_of_pending? hold)
  refine ⟨_, next, (Steps.single hsend).trans ((Steps.single htake).trans hsteps),
    ⟨hqueue, .inr ⟨hended, hearly⟩⟩, hended, ?_, ?_, ?_, ?_⟩
  · rw [hnext, ← hnow]
    rfl
  · rw [sends_append, sends_append, sends_map_ofReleased]
    rfl
  · rw [endings_append, endings_append, endings_map_ofReleased]
    rfl
  · refine throughout_append.mpr ⟨throughout_singleton (servedFirst_of_taken?_eq_none rfl),
      throughout_append.mpr ⟨throughout_singleton ?_, ?_⟩⟩
    · rwa [List.append_nil]
    · exact servedFirst_map_ofReleased _

/-- Work takes no time. -/
theorem Work.frame {events : List (Event κ ν)} {next : Task κ ν} (h : Work t events next) :
    sends events = [] ∧ endings events = [] ∧ next.now = t.now ∧ next.ended = t.ended := by
  cases h with
  | take hrunning _ =>
    refine ⟨rfl, rfl, ?_, rfl⟩
    rw [Task.toDebouncer_rearm, accept_of_open hrunning]
  | wake => exact ⟨sends_map_ofHeld .., endings_map_ofHeld .., rfl, rfl⟩
  | finish => exact ⟨sends_map_ofHeld .., endings_map_ofHeld .., rfl, rfl⟩

/-- Without the other keys the run can go on in the same way. -/
theorem exists_alone (hrun : Run interval log t) (key : κ) :
    ∃ alone t', Alone interval key log t alone t' ∧ t'.ended = t.ended := by
  induction hrun with
  | refl =>
    exact ⟨[], .new interval, ⟨.refl, throughout_nil, ⟨rfl, .inr ⟨rfl, show 0 < idlePoll by decide⟩⟩,
      rfl, rfl, rfl⟩, rfl⟩
  | @step log events t next hrun hstep ih =>
    obtain ⟨alone, t', h, hended⟩ := ih
    have hfits := run_fits h.run
    cases hstep with
    | work hwork =>
      obtain ⟨hsends, hendings, hnow, hsame⟩ := hwork.frame
      refine ⟨_, t', h.extend .refl throughout_nil h.rest ?_ ?_ ?_, hended.trans hsame.symm⟩
      · rw [hsends]
        rfl
      · rw [hendings]
        rfl
      · rw [hnow, h.now_eq]
    | send k value hopen hroom =>
      by_cases hkey : k = key
      · obtain ⟨events', next', hsteps, hrest, hopen', hnow, hsends, hendings, hfirst⟩ :=
          hfits.exists_steps_send h.rest (hended.trans hopen) k value
        refine ⟨_, next', h.extend hsteps hfirst hrest ?_ hendings (hnow.trans h.now_eq),
          hopen'.trans hopen.symm⟩
        rw [hsends, h.now_eq]
        simp [sends, Event.sent?, hkey]
      · refine ⟨_, t', h.extend .refl throughout_nil h.rest ?_ rfl h.now_eq, hended⟩
        simp [sends, Event.sent?, hkey]
    | refuse => exact ⟨_, t', h.extend .refl throughout_nil h.rest rfl rfl h.now_eq, hended⟩
    | pass time hlater hsleeps =>
      rw [← h.now_eq] at hlater
      rcases h.rest.2 with hclosed | ⟨hopen, -⟩
      · have hpass : Step t' [] { t' with now := time } := .pass time hlater (.inl hclosed)
        exact ⟨_, _, h.extend (.single hpass) throughout_nil ⟨h.rest.1, .inl hclosed⟩ rfl rfl rfl, hended⟩
      · obtain ⟨next', hsteps, hnext, hqueue, hopen', hearly⟩ :=
          hfits.steps_moveTo h.rest.1 hopen hlater
        refine ⟨_, next', h.extend hsteps (servedFirst_map_ofReleased _)
          ⟨hqueue, .inr ⟨hopen', hearly⟩⟩ (sends_map_ofReleased _) (endings_map_ofReleased _) ?_,
          hopen'.trans (hopen.symm.trans hended)⟩
        rw [hnext]
        rfl
    | leave hopen =>
      have hopen' := hended.trans hopen
      refine ⟨_, _, h.extend (steps_close (hfits.running_of_open hopen') h.rest.1 hopen') ?_
        ⟨h.rest.1, .inl rfl⟩ (sends_map_ofReleased _) ?_ h.now_eq, rfl⟩
      · rw [← List.singleton_append]
        exact throughout_append.mpr ⟨throughout_singleton (servedFirst_of_taken?_eq_none rfl),
          servedFirst_map_ofReleased _⟩
      · rw [← List.singleton_append, endings_append, endings_map_ofReleased, h.now_eq]
        rfl

/-- A run without the values for other keys releases nothing for them. -/
theorem Alone.key_eq {alone : List (Event κ ν)} {t' : Task κ ν} (h : Alone interval key log t alone t') :
    ∀ r ∈ releases alone, r.key = key := by
  intro r hr
  obtain ⟨item, hitem, hsame⟩ := exists_send_of_mem_releases h.run hr
  rw [h.sends_eq] at hitem
  exact hsame.symm.trans (of_decide_eq_true (List.mem_filter.mp hitem).2)

/-- What is released for a key in a run without the other keys is what is released for it with them. -/
theorem Alone.releasesFor_eq {alone : List (Event κ ν)} {t' : Task κ ν}
    (h : Alone interval key log t alone t') (hrun : Run interval log t) (hfirst : ServesFirst interval log) :
    (releasesFor key alone).filter (·.1 < t.now) = (releasesFor key log).filter (·.1 < t.now) ∧
      (t.IsAtRest → releasesFor key alone = releasesFor key log) := by
  have hsends : sendsFor key alone = sendsFor key log := by
    rw [sendsFor, h.sends_eq, List.filter_filter]
    simp only [Bool.and_self, sendsFor]
  have halone : releasesFor key alone =
      expected interval (sendsFor key log) (endings log).head? t.now := by
    rw [releasesFor_of_isAtRest h.run h.first key h.rest, hsends, h.endings_eq, h.now_eq]
  refine ⟨?_, fun hrest => ?_⟩
  · rw [halone, filter_releasesFor hrun hfirst key]
  · rw [halone, releasesFor_of_isAtRest hrun hfirst key hrest]

/-- **Keys do not interfere.** Take any run of the task in which a deadline is served before a value that comes
at the same time, and any key.

* There is a run without the values for other keys, in which time passes in the same way.
* Every such run releases nothing for other keys, and for the key the same values at the same times: before the
  present time in any case, and all of them if the task of the first run is not behind.

And a debouncer in use that is offered only what it accepts for the key releases what it releases for the key
otherwise.
-/
theorem releasesFor_alone (interval : Nat) (key : κ) :
    (∀ (log : List (Event κ ν)) (t : Task κ ν), Run interval log t → ServesFirst interval log →
      (∃ alone t', Alone interval key log t alone t') ∧
        ∀ alone t', Alone interval key log t alone t' →
          (∀ r ∈ releases alone, r.key = key) ∧
          (releasesFor key alone).filter (·.1 < t.now) = (releasesFor key log).filter (·.1 < t.now) ∧
          (t.IsAtRest → releasesFor key alone = releasesFor key log)) ∧
      ∀ actions : List (Action κ ν),
        ((new interval).play (actions.map (·.restrict key))).1.released =
          ((new interval).play actions).1.released.filter (·.key = key) := by
  refine ⟨fun log t hrun hfirst => ⟨?_, fun alone t' h => ?_⟩, fun actions => ?_⟩
  · obtain ⟨alone, t', h, -⟩ := exists_alone hrun key
    exact ⟨alone, t', h⟩
  · exact ⟨h.key_eq, h.releasesFor_eq hrun hfirst⟩
  · exact restrict_play key (new interval) actions

/-- The second value for `"a"` comes when the first is due, and the end cuts both deadlines short. -/
theorem releasesFor_alone_two_keys : ∃ (log : List (Event String Nat)) (t : Task String Nat),
    Run 10 log t ∧ releasesFor "a" log = [(10, 1), (18, 3)] ∧ t.IsAtRest ∧
      ∃ alone t', Alone 10 "a" log t alone t' ∧ sends alone = [(0, "a", 1), (10, "a", 3)] ∧
        releasesFor "a" alone = [(10, 1), (18, 3)] := by
  let one : Task String Nat := ⟨⟨10, 0, [⟨"a", 1, 10⟩], false⟩, [], false, 10⟩
  let two : Task String Nat := ⟨⟨10, 5, [⟨"a", 1, 10⟩, ⟨"b", 2, 15⟩], false⟩, [], false, 10⟩
  let three : Task String Nat := ⟨⟨10, 10, [⟨"b", 2, 15⟩, ⟨"a", 3, 20⟩], false⟩, [], false, 15⟩
  let four : Task String Nat := ⟨⟨10, 15, [⟨"a", 3, 20⟩], false⟩, [], false, 20⟩
  let five : Task String Nat := ⟨⟨10, 18, [], true⟩, [], true, 20⟩
  have first : Steps (.new 10) [.sent 0 "a" 1, .taken 0 "a" 1] one :=
    (Steps.single (.send "a" 1 rfl (by decide))).step (.work (.take rfl rfl))
  have second : Steps one [.sent 5 "b" 2, .taken 5 "b" 2] two :=
    ((Steps.single (.pass 5 (by decide) (.inr ⟨rfl, rfl, by decide⟩))).step
      (.send "b" 2 rfl (by decide))).step (.work (.take rfl rfl))
  have third : Steps two [.released 10 "a" 1, .sent 10 "a" 3, .taken 10 "a" 3] three :=
    (((Steps.single (.pass 10 (by decide) (.inr ⟨rfl, rfl, by decide⟩))).step
      (.work (.wake rfl (by decide) (.refl _)))).step (.send "a" 3 rfl (by decide))).step
      (.work (.take rfl rfl))
  have fourth : Steps three [.released 15 "b" 2] four :=
    (Steps.single (.pass 15 (by decide) (.inr ⟨rfl, rfl, by decide⟩))).step
      (.work (.wake rfl (by decide) (.refl _)))
  have fifth : Steps four [.ended 18, .released 18 "a" 3] five :=
    ((Steps.single (.pass 18 (by decide) (.inr ⟨rfl, rfl, by decide⟩))).step (.leave rfl)).step
      (.work (.finish rfl rfl rfl (.refl _)))
  have hrun : Run 10 _ five := (((first.trans second).trans third).trans fourth).trans fifth
  have hrest : five.IsAtRest := ⟨rfl, .inl rfl⟩
  obtain ⟨⟨alone, t', halone⟩, hsame⟩ := (releasesFor_alone 10 "a").1 _ five hrun (by decide)
  refine ⟨_, five, hrun, by decide, hrest, alone, t', halone, halone.sends_eq, ?_⟩
  exact (hsame alone t' halone).2.2 hrest

end Alone

end Milestone.Debouncer
