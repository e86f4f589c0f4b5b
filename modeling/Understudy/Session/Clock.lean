import Understudy.Session

/-!
# Understudy.Session.Clock

Sessions under a clock that misses nothing.

`settle` sends everything that is due now, also what that brings about at once. `advance` lets time
pass from one time at which something is due to the next, and settles at each of them.

A script could answer its own message with a kept reply without delay, and that would never settle.
`settle` therefore stops after `bound` steps, which is enough for every script that does settle. The
steps form rows: a row begins with a task that waits or with a reply that leaves its queue, and goes
on with kept replies, none of which it uses twice.
-/

namespace Understudy

namespace Session

/-- Whether `emit` would do something. -/
def isDue (s : Session) : Bool := (s.agenda.take? s.now).isSome || s.canFinish

/-- How many steps a session may take to settle. -/
def bound (s : Session) : Nat :=
  (s.agenda.tasks.length + s.replies.items.length) * (s.replies.items.length + 1) + 1

/-- Takes at most some steps, for as long as something is due. -/
def settleWithin : Nat → Session → Session
  | 0, s => s
  | n + 1, s => if s.isDue then settleWithin n s.emit else s

/-- Sends everything that is due. -/
def settle (s : Session) : Session := settleWithin s.bound s

/-- Moves the clock to a time. -/
def setTime (time : Nat) (s : Session) : Session := { s with now := time }

/-- When something is due next. -/
def nextTime? (s : Session) : Option Nat :=
  if s.phase = .closing then
    match s.agenda.nextDue? with
    | some due => some (min due s.deadline)
    | none => some s.now
  else s.agenda.nextDue?

/-! ### The time during a step -/

@[simp] theorem now_count (event : Event) (s : Session) : (s.count event).now = s.now := rfl

@[simp] theorem now_send (frame : Frame) (s : Session) : (s.send frame).now = s.now := by
  unfold send; split <;> rfl

@[simp] theorem now_close (code : UInt16) (reason : String) (s : Session) :
    (s.close code reason).now = s.now := by
  unfold close
  split
  · rfl
  · simp

@[simp] theorem now_reject (what : String) (s : Session) : (s.reject what).now = s.now := by
  simp [reject]

@[simp] theorem now_schedule (m : Message) (s : Session) : (s.schedule m).now = s.now := rfl

@[simp] theorem now_use (trigger : Trigger) (s : Session) : (s.use trigger).now = s.now := by
  unfold use
  split
  · split <;> rfl
  · rfl

@[simp] theorem now_deliver (m : Message) (s : Session) : (s.deliver m).now = s.now := by
  unfold deliver
  split
  · dsimp only
    split
    · simp
    · split <;> simp
  · rfl

@[simp] theorem now_finish (s : Session) : s.finish.now = s.now := by simp [finish]

@[simp] theorem now_emit (s : Session) : s.emit.now = s.now := by
  unfold emit
  split
  · split <;> simp
  · split <;> simp

@[simp] theorem now_settleWithin (n : Nat) (s : Session) : (settleWithin n s).now = s.now := by
  induction n generalizing s with
  | zero => rfl
  | succ n ih =>
    simp only [settleWithin]
    split
    · simp [ih]
    · rfl

@[simp] theorem now_settle (s : Session) : s.settle.now = s.now := now_settleWithin _ _

/-! ### Time that passes -/

/-- Lets time pass up to a time, and settles whenever something is due. -/
def advanceTo (time : Nat) (s : Session) : Session :=
  match s.nextTime? with
  | none => s.setTime time
  | some next =>
    if s.now < next ∧ next ≤ time then advanceTo time (s.setTime next).settle
    else s.setTime time
termination_by time - s.now
decreasing_by
  simp only [now_settle, setTime]
  omega

/-- Lets milliseconds pass, and settles whenever something is due. -/
def advance (milliseconds : Nat) (s : Session) : Session :=
  s.settle.advanceTo (s.now + milliseconds)

end Session

end Understudy
