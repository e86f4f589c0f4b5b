/-!
# Understudy.Agenda

Items that become due.

An agenda holds tasks in the order in which they run: by the time at which they are due, and at one
time in the order in which they were accepted, which their numbers show. It does not know what time
it is; whoever owns it says so. A stopped agenda accepts nothing more.

This is what a `Timer` comes to, which has a channel and a heap and a worker for them.

Times are numbers without a bound, and so are delays. A clock whose instants have a bound would
refuse a task that is due beyond it; such tasks are out of scope.
-/

namespace Understudy

namespace Agenda

/-- An item, when it is due, and its number. -/
structure Task (α : Type) where
  due : Nat
  number : Nat
  item : α
deriving Repr, DecidableEq

variable {α : Type}

/-- Whether a task runs before another. -/
def Task.Before (t u : Task α) : Prop := t.due < u.due ∨ t.due = u.due ∧ t.number < u.number

instance (t u : Task α) : Decidable (t.Before u) :=
  inferInstanceAs (Decidable (t.due < u.due ∨ t.due = u.due ∧ t.number < u.number))

/-- Puts a task after all that are due no later. -/
def place (task : Task α) : List (Task α) → List (Task α)
  | [] => [task]
  | t :: rest => if t.due ≤ task.due then t :: place task rest else task :: t :: rest

end Agenda

/-- Tasks in the order in which they run, and the number of the next one. -/
structure Agenda (α : Type) where
  tasks : List (Agenda.Task α) := []
  next : Nat := 0
  stopped : Bool := false
deriving Repr, DecidableEq

namespace Agenda

variable {α : Type}

/-- An agenda without tasks. -/
def empty : Agenda α := ⟨[], 0, false⟩

/-- Accepts a task, unless the agenda is stopped. -/
def schedule (due : Nat) (item : α) (a : Agenda α) : Agenda α :=
  if a.stopped then a else ⟨place ⟨due, a.next, item⟩ a.tasks, a.next + 1, false⟩

/-- Accepts nothing more. -/
def stop (a : Agenda α) : Agenda α := ⟨a.tasks, a.next, true⟩

/-- Accepts nothing more, and drops all tasks. -/
def cancel (a : Agenda α) : Agenda α := ⟨[], a.next, true⟩

/-- When the first task is due. -/
def nextDue? (a : Agenda α) : Option Nat := a.tasks.head?.map (·.due)

/-- Takes the first task if it is due. -/
def take? (now : Nat) (a : Agenda α) : Option (Task α × Agenda α) :=
  match a.tasks with
  | [] => none
  | t :: rest => if t.due ≤ now then some (t, ⟨rest, a.next, a.stopped⟩) else none

/-- The tasks that are due, in order, and the agenda without them. -/
def takeAll (now : Nat) (a : Agenda α) : List (Task α) × Agenda α :=
  (a.tasks.takeWhile (·.due ≤ now), ⟨a.tasks.dropWhile (·.due ≤ now), a.next, a.stopped⟩)

/-- The tasks that are due before a time, in order, and the agenda without them. -/
def takeBefore (time : Nat) (a : Agenda α) : List (Task α) × Agenda α :=
  (a.tasks.takeWhile (·.due < time), ⟨a.tasks.dropWhile (·.due < time), a.next, a.stopped⟩)

/-- Whether there is nothing to stop: no task was ever accepted, or the agenda is stopped. -/
def isIdle (a : Agenda α) : Bool := a.next = 0 || a.stopped

/-- How a stop with a deadline went. -/
structure Drained (α : Type) where
  /-- Whether every task has run. -/
  complete : Bool
  /-- When the last one had run, or the deadline. -/
  time : Nat
  ran : List (Task α)
  agenda : Agenda α

/-- Stops, lets the tasks run that are due before a deadline, and drops the others. At the deadline
itself nothing runs any more, and even an agenda without tasks does not stop in no time at all,
unless it is idle. -/
def drain (now limit : Nat) (a : Agenda α) : Drained α :=
  if a.isIdle then ⟨true, now, [], a.stop⟩
  else if limit = 0 then ⟨false, now, [], a.cancel⟩
  else
    let (ran, rest) := a.takeBefore (now + limit)
    if rest.tasks.isEmpty then
      ⟨true, ran.foldl (fun time t => max time t.due) now, ran, rest.cancel⟩
    else ⟨false, now + limit, ran, rest.cancel⟩

end Agenda

end Understudy
