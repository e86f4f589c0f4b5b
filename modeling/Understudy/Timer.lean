import Understudy.Agenda

/-!
# Understudy.Timer

The timer of a session, with its worker.

The owner of a timer numbers each task and puts it into a channel. A worker, which begins with the
first task, moves the tasks from the channel to its heap, one at a time. With nothing left to
receive it waits until the first task of the heap is due, and begins a *batch*: it runs all tasks of
the heap that were due when the batch began, in their order, and does not look into the channel
before it is through. A task may well use the timer, so what it schedules has to wait for that.

When the timer is stopped, the worker goes on until channel and heap are empty, and then it is over.
When the timer is cancelled, the worker is over as soon as it is not in a batch. What it still runs
of that batch is of no use to anyone, and is kept apart.

An `Agenda` is all of this at once, without the worker: a list of tasks in their order. `agenda`
reads it off a timer.
-/

namespace Understudy

/-- A timer and its worker. -/
structure Timer (α : Type) where
  /-- The time. -/
  now : Nat
  /-- The number of the next task. -/
  next : Nat := 0
  /-- Whether the owner accepts no more tasks. With this the channel has no sender any more. -/
  stopped : Bool := false
  /-- Whether the worker has been told to give up. -/
  cancelled : Bool := false
  /-- The tasks that were sent and not received yet. -/
  channel : List (Agenda.Task α) := []
  /-- The tasks that were received and have not run, in no useful order. -/
  heap : List (Agenda.Task α) := []
  /-- Whether the worker still expects to receive something. -/
  accepting : Bool := true
  /-- When the batch began that is under way. -/
  batch : Option Nat := none
  /-- Whether the worker is over. -/
  ended : Bool := false
  /-- The tasks that have run, in order. -/
  ran : List (Agenda.Task α) := []
  /-- The tasks that have run although the timer was cancelled. -/
  stale : List (Agenda.Task α) := []
deriving Repr, DecidableEq

namespace Timer

variable {α : Type}

/-- A timer without tasks. -/
def start (now : Nat) : Timer α where
  now := now

/-! ### The owner -/

/-- Accepts a task, unless the timer is stopped. -/
def schedule (delay : Nat) (item : α) (t : Timer α) : Timer α :=
  if t.stopped then t
  else { t with channel := t.channel ++ [⟨t.now + delay, t.next, item⟩], next := t.next + 1 }

/-- Accepts nothing more. -/
def stop (t : Timer α) : Timer α := { t with stopped := true }

/-- Accepts nothing more, and tells the worker to give up. -/
def cancel (t : Timer α) : Timer α := { t with stopped := true, cancelled := true }

/-! ### The worker -/

/-- The first task of a heap, by time and number. -/
def first? : List (Agenda.Task α) → Option (Agenda.Task α)
  | [] => none
  | t :: rest =>
    match first? rest with
    | none => some t
    | some u => if t.Before u then some t else some u

/-- The heap without a task. -/
def without (task : Agenda.Task α) (heap : List (Agenda.Task α)) : List (Agenda.Task α) :=
  heap.eraseP fun t => t.number = task.number

/-- The first task of the heap that was due at a time. -/
def ready? (time : Nat) (t : Timer α) : Option (Agenda.Task α) :=
  (first? t.heap).filter fun task => task.due ≤ time

/-- Runs a task of the heap. -/
def perform (task : Agenda.Task α) (t : Timer α) : Timer α :=
  if t.cancelled then { t with heap := without task t.heap, stale := t.stale ++ [task] }
  else { t with heap := without task t.heap, ran := t.ran ++ [task] }

/-- Begins a batch, if a task is due. -/
def wake (t : Timer α) : Timer α :=
  match t.ready? t.now with
  | some _ => { t with batch := some t.now }
  | none => t

/-- What the worker does next. It does nothing if it waits, is over, or has not begun. -/
def work (t : Timer α) : Timer α :=
  if t.next = 0 || t.ended then t
  else
    match t.batch with
    | some since =>
      match t.ready? since with
      | some task => t.perform task
      | none => { t with batch := none }
    | none =>
      if t.cancelled || !t.accepting && t.heap.isEmpty then { t with ended := true }
      else if t.accepting then
        match t.channel with
        | task :: rest => { t with heap := t.heap ++ [task], channel := rest }
        | [] => if t.stopped then { t with accepting := false } else t.wake
      else t.wake

/-! ### Both under a clock -/

/-- What happens to a timer. -/
inductive Move (α : Type) where
  /-- The owner schedules a task. -/
  | schedule (delay : Nat) (item : α)
  | stop
  | cancel
  /-- Milliseconds pass. -/
  | elapse (milliseconds : Nat)
  /-- The worker does something. -/
  | work
deriving Repr, DecidableEq

/-- The timer after a move. -/
def step (t : Timer α) : Move α → Timer α
  | .schedule delay item => t.schedule delay item
  | .stop => t.stop
  | .cancel => t.cancel
  | .elapse milliseconds => { t with now := t.now + milliseconds }
  | .work => t.work

/-- The timer after some moves. -/
def run (t : Timer α) (moves : List (Move α)) : Timer α := moves.foldl step t

/-- How far the worker is from running a task: a batch that is through has to end before another one
can begin. -/
def distance (t : Timer α) : Nat :=
  match t.batch with
  | some since => if (t.ready? since).isSome then 0 else 2
  | none => if (t.ready? t.now).isSome then 1 else 0

/-- How much there is to do for the worker at most. A task that is received adds less to it than it
takes away, and so does one that runs. -/
def effort (t : Timer α) : Nat :=
  5 * t.channel.length + 3 * t.heap.length + t.distance + t.accepting.toNat + (!t.ended).toNat

/-- Lets the worker do some of its work. -/
def works : Nat → Timer α → Timer α
  | 0, t => t
  | n + 1, t => works n t.work

/-- Lets the worker do all that it can do now. -/
def poll (t : Timer α) : Timer α := t.works t.effort

/-- Moves the clock on to each of some times, and lets the worker do there what it can. -/
def visit (times : List Nat) (t : Timer α) : Timer α :=
  times.foldl (fun t time => { t with now := max t.now time }.poll) t

@[simp] theorem visit_nil (t : Timer α) : t.visit [] = t := rfl

@[simp] theorem visit_cons (time : Nat) (times : List Nat) (t : Timer α) :
    t.visit (time :: times) = ({ t with now := max t.now time } : Timer α).poll.visit times := rfl

/-! ### The agenda -/

/-- Tasks in the order in which they run. -/
def sorted (tasks : List (Agenda.Task α)) : List (Agenda.Task α) :=
  tasks.foldl (fun done task => Agenda.place task done) []

/-- The agenda that a timer keeps. A timer that was cancelled has dropped its tasks. -/
def agenda (t : Timer α) : Agenda α :=
  ⟨if t.cancelled then [] else sorted (t.heap ++ t.channel), t.next, t.stopped⟩

/-- The times at which a task is due before a deadline, in order. -/
def instants (deadline : Nat) (t : Timer α) : List Nat :=
  (t.agenda.takeBefore deadline).1.map (·.due)

/-- Lets milliseconds pass under a clock that stops wherever a task is due. -/
def advance (milliseconds : Nat) (t : Timer α) : Timer α :=
  let time := t.now + milliseconds
  t.visit (t.instants time ++ [time])

/-- Stops the timer, and waits for the worker until a deadline; then the timer is cancelled. At the
deadline itself the worker comes too late. Says whether the worker was over in time. -/
def shutdown (limit : Nat) (t : Timer α) : Bool × Timer α :=
  if t.next = 0 || t.stopped then (true, t.stop)
  else
    let deadline := t.now + limit
    let u := if limit = 0 then t.stop else t.stop.visit (t.now :: t.instants deadline)
    if u.ended then (true, u) else (false, { u with now := deadline }.cancel)

end Timer

end Understudy
