import Milestone.Debounce

/-!
# The task behind a debouncer

Values are sent into a queue of limited length. A task takes them out in their order, holds the latest value
of each key, and sleeps until the earliest deadline, or for a while if it holds nothing. Where a value waits
in the queue and the time to wake up has come as well, the task may serve either first, and it releases keys
that are due together in any order. This file describes all that can happen as one relation between the
states of the task, with a log of it.

Two things are taken for granted. Time passes only while the task sleeps, and not beyond the time at which
it is to wake up. What is released is read at once.
-/

namespace Milestone.Debouncer

variable {κ ν : Type}

/-- How long the task sleeps while it holds nothing. -/
def idlePoll : Nat := 500

/-- The earliest deadline of what is held. -/
def nextDeadline? (d : Debouncer κ ν) : Option Nat :=
  (d.held.map (·.deadline)).min?

/-- What happens to a value at a time, and the time at which the senders go. -/
inductive Event (κ ν : Type) where
  /-- The queue accepts a value. -/
  | sent (time : Nat) (key : κ) (value : ν)
  /-- The queue turns a value away. -/
  | refused (time : Nat) (key : κ) (value : ν)
  /-- The task takes a value out of the queue. -/
  | taken (time : Nat) (key : κ) (value : ν)
  | released (time : Nat) (key : κ) (value : ν)
  | ended (time : Nat)
  deriving DecidableEq

namespace Event

/-- When something happens. -/
def time : Event κ ν → Nat
  | sent time .. => time
  | refused time .. => time
  | taken time .. => time
  | released time .. => time
  | ended time => time

/-- The release of a value that is held. -/
def ofHeld (time : Nat) (h : Held κ ν) : Event κ ν :=
  .released time h.key h.value

/-- The value that the queue accepts, with its time. -/
def sent? : Event κ ν → Option (Nat × κ × ν)
  | sent time key value => some (time, key, value)
  | _ => none

/-- The value that the task takes, with its time. -/
def taken? : Event κ ν → Option (Nat × κ × ν)
  | taken time key value => some (time, key, value)
  | _ => none

/-- The value that the task releases, with its time. -/
def released? : Event κ ν → Option (Released κ ν)
  | released time key value => some ⟨time, key, value⟩
  | _ => none

/-- The time at which the senders go. -/
def ended? : Event κ ν → Option Nat
  | ended time => some time
  | _ => none

/-- What the sender is told. -/
def answer? : Event κ ν → Option Bool
  | sent .. => some true
  | refused .. => some false
  | _ => none

/-- Whether a value is turned away. -/
def isRefused : Event κ ν → Bool
  | refused .. => true
  | _ => false

/-- The key for which the task does something. -/
def key? : Event κ ν → Option κ
  | taken _ key _ => some key
  | released _ key _ => some key
  | _ => none

end Event

section Log

variable (log : List (Event κ ν))

/-- The values that the queue has accepted, each with its time. -/
def sends : List (Nat × κ × ν) :=
  log.filterMap (·.sent?)

/-- The values that the task has taken, each with its time. -/
def takes : List (Nat × κ × ν) :=
  log.filterMap (·.taken?)

/-- The values that the task has released, each with its time. -/
def releases : List (Released κ ν) :=
  log.filterMap (·.released?)

/-- When the senders went. -/
def endings : List Nat :=
  log.filterMap (·.ended?)

/-- What the senders were told, in the order in which they asked. -/
def answers : List Bool :=
  log.filterMap (·.answer?)

variable [DecidableEq κ]

/-- The last thing that the task did for a key. -/
def last? (key : κ) : Option (Event κ ν) :=
  log.reverse.find? (·.key? = some key)

/-- The first thing that the task does for a key. -/
def next? (key : κ) : Option (Event κ ν) :=
  log.find? (·.key? = some key)

end Log

section Append

variable (log events : List (Event κ ν))

@[simp] theorem sends_append : sends (log ++ events) = sends log ++ sends events :=
  List.filterMap_append

@[simp] theorem takes_append : takes (log ++ events) = takes log ++ takes events :=
  List.filterMap_append

@[simp] theorem releases_append : releases (log ++ events) = releases log ++ releases events :=
  List.filterMap_append

@[simp] theorem endings_append : endings (log ++ events) = endings log ++ endings events :=
  List.filterMap_append

@[simp] theorem answers_append : answers (log ++ events) = answers log ++ answers events :=
  List.filterMap_append

end Append

/-- A debouncer with the queue before it. It is closed once the task has finished. -/
structure Task (κ ν : Type) extends Debouncer κ ν where
  queue : List (κ × ν)
  /-- Whether the senders are gone. -/
  ended : Bool
  /-- When the task wakes up unless a value comes before. -/
  alarm : Nat
  deriving DecidableEq

namespace Task

/-- Nothing was sent yet. -/
def new (interval : Nat) : Task κ ν :=
  { Debouncer.new interval with queue := [], ended := false, alarm := idlePoll }

/-- Goes to sleep until the earliest deadline, or for a while. -/
def rearm (t : Task κ ν) : Task κ ν :=
  { t with alarm := t.nextDeadline?.getD (t.now + idlePoll) }

/-- Going to sleep concerns nothing that is held. -/
@[simp] theorem toDebouncer_rearm (t : Task κ ν) : t.rearm.toDebouncer = t.toDebouncer :=
  rfl

@[simp] theorem queue_rearm (t : Task κ ν) : t.rearm.queue = t.queue :=
  rfl

@[simp] theorem ended_rearm (t : Task κ ν) : t.rearm.ended = t.ended :=
  rfl

/-- After that it wakes up at the earliest deadline, if there is one. -/
theorem alarm_rearm (t : Task κ ν) {time : Nat} (h : t.nextDeadline? = some time) :
    t.rearm.alarm = time := by
  simp only [rearm, h, Option.getD_some]

/-- Nothing keeps the task from sleeping until a time. -/
def SleepsUntil (t : Task κ ν) (time : Nat) : Prop :=
  t.closed = true ∨ (t.queue = [] ∧ t.ended = false ∧ time ≤ t.alarm)

end Task

variable [DecidableEq κ]

/-- What the task does by itself. -/
inductive Work : Task κ ν → List (Event κ ν) → Task κ ν → Prop where
  | take {t : Task κ ν} {key : κ} {value : ν} {rest : List (κ × ν)} (hrunning : t.closed = false)
      (hqueue : t.queue = (key, value) :: rest) :
      Work t [.taken t.now key value]
        { t with toDebouncer := t.toDebouncer.accept key value, queue := rest }.rearm
  | wake {t : Task κ ν} {due : List (Held κ ν)} (hrunning : t.closed = false)
      (halarm : t.alarm ≤ t.now) (hdue : due.Perm (t.held.filter (·.deadline ≤ t.now))) :
      Work t (due.map (.ofHeld t.now))
        { t with toDebouncer := (t.toDebouncer.moveTo t.now).2 }.rearm
  | finish {t : Task κ ν} {flushed : List (Held κ ν)} (hrunning : t.closed = false)
      (hended : t.ended = true) (hqueue : t.queue = []) (hflushed : flushed.Perm t.held) :
      Work t (flushed.map (.ofHeld t.now)) { t with toDebouncer := t.toDebouncer.close.2 }

/-- All that can happen. -/
inductive Step : Task κ ν → List (Event κ ν) → Task κ ν → Prop where
  | work {t next : Task κ ν} {events : List (Event κ ν)} (h : Work t events next) :
      Step t events next
  /-- A sender that waits for room sends as soon as there is some. -/
  | send {t : Task κ ν} (key : κ) (value : ν) (hopen : t.ended = false)
      (hroom : t.queue.length < capacity) :
      Step t [.sent t.now key value] { t with queue := t.queue ++ [(key, value)] }
  | refuse {t : Task κ ν} (key : κ) (value : ν)
      (hfull : t.ended = true ∨ capacity ≤ t.queue.length) :
      Step t [.refused t.now key value] t
  | pass {t : Task κ ν} (time : Nat) (hlater : t.now ≤ time) (hsleeps : t.SleepsUntil time) :
      Step t [] { t with now := time }
  | leave {t : Task κ ν} (hopen : t.ended = false) :
      Step t [.ended t.now] { t with ended := true }

/-- The runs that start at a state. -/
inductive Steps (start : Task κ ν) : List (Event κ ν) → Task κ ν → Prop where
  | refl : Steps start [] start
  | step {log events : List (Event κ ν)} {t next : Task κ ν} (h : Steps start log t)
      (hstep : Step t events next) : Steps start (log ++ events) next

/-- The runs of a new task. -/
def Run (interval : Nat) : List (Event κ ν) → Task κ ν → Prop :=
  Steps (.new interval)

end Milestone.Debouncer
