import Understudy.Agenda
import Understudy.Script

/-!
# Understudy.Session

One conversation over a WebSocket.

A session follows its script from `pending` through `open`, and perhaps `closing`, to `closed`. It
changes by steps, each of which is an `Input`: something that happens to it, time that passes, or
`emit`, which sends the first message that is due. What it has sent is kept in order, with the time.

* A trigger uses the first reply in its queue; the reply leaves the queue unless it is kept there.
  A trigger whose queue is used up, or a message that has none, closes the session as unexpected. A
  trigger whose queue is used up stays registered.
* A session without triggers is `closing` as soon as it is open: it closes once its messages are
  sent, or when its close timeout is over. A message that would be due just then is not sent.
* Whatever closes it drops the messages that are still waiting, and nothing is sent afterwards.

Two sides take part in closing: one sends the messages that are due, and the other closes when the
timeout is over. When both could go on, as after a clock that has jumped, either may be the first.
In `emit` it is the side that closes, and in `sendDue` the one that sends.

Times and delays are milliseconds, and they have no bound. A clock has a last instant, and a message
that would be due after it is out of scope.
-/

namespace Understudy

namespace Session

/-- How far a session has come. -/
inductive Phase where
  /-- The connection is not there yet. -/
  | pending
  | open
  /-- Nothing can be expected any more but the messages that wait. -/
  | closing
  | closed
deriving Repr, DecidableEq

/-- The name of a phase. -/
def Phase.name : Phase → String
  | pending => "Pending"
  | .open => "Open"
  | closing => "Closing"
  | closed => "Closed"

/-- What a session sends. -/
inductive Frame where
  | text (text : String)
  | binary (octets : Bytes)
  | close (code : UInt16) (reason : String)
deriving Repr, DecidableEq

/-- The frame that carries a payload. -/
def Frame.ofPayload : Payload → Frame
  | .text t => text t
  | .binary octets => binary octets

/-- A frame and the time at which it was sent, in milliseconds. -/
structure Sent where
  time : Nat
  frame : Frame
deriving Repr, DecidableEq

/-- What is counted of a session. -/
inductive Event where
  | opened
  | failed
  | unexpected
  | closed
deriving Repr, DecidableEq

/-- The name under which an event is counted. -/
def Event.name : Event → String
  | opened => "opened"
  | failed => "failed"
  | unexpected => "unexpected"
  | closed => "closed"

/-! ### Closing -/

/-- The code of an orderly close. -/
def normalClosure : UInt16 := 1000

/-- The code of a close after something unexpected. -/
def protocolError : UInt16 := 1002

/-- The code of a close after a failure. -/
def internalError : UInt16 := 1011

/-- The reason of a close in good order. -/
def closingReason : String := "Closing..."

/-- How the reason of a close after something unexpected begins. -/
def unexpectedReason : String := "Unexpected message:"

/-- How many octets of reason fit into a close frame. -/
def maxReasonSize : Nat := 123

/-- As much of a reason as fits into a close frame. -/
def cutReason (reason : String) : String :=
  String.ofList (Utf8.takeFitting maxReasonSize reason.toList)

/-- How long a session waits for its messages before it closes, unless settings say otherwise. -/
def defaultCloseTimeout : Nat := 60000

end Session

/-- A conversation. -/
structure Session where
  script : Script
  /-- How long it waits for its messages before it closes, in milliseconds. -/
  closeTimeout : Nat
  /-- The time. -/
  now : Nat
  phase : Session.Phase := .pending
  /-- The triggers, each with the replies that are left. -/
  replies : QueueMap Trigger Message := script.replies.toMap
  /-- The messages that wait. -/
  agenda : Agenda Message := .empty
  /-- When it closes at the latest, once it is closing. -/
  deadline : Nat := 0
  /-- What it has sent, in order. -/
  sent : List Session.Sent := []
  /-- What has been counted of it, in order. -/
  events : List Session.Event := []
deriving DecidableEq

namespace Session

/-- A session of a script that waits for its connection. -/
def start (script : Script) (closeTimeout now : Nat) : Session where
  script := script
  closeTimeout := closeTimeout
  now := now

/-- Whether there is a connection. -/
def isLive (s : Session) : Bool := s.phase = .open || s.phase = .closing

/-- Whether the session is over. -/
def isClosed (s : Session) : Bool := s.phase = .closed

/-! ### Parts of steps -/

/-- Counts an event. -/
def count (event : Event) (s : Session) : Session := { s with events := s.events ++ [event] }

/-- Sends a frame, if there is a connection. -/
def send (frame : Frame) (s : Session) : Session :=
  if s.isLive then { s with sent := s.sent ++ [⟨s.now, frame⟩] } else s

/-- Closes the session, unless it is closed, and drops the messages that wait. -/
def close (code : UInt16) (reason : String) (s : Session) : Session :=
  if s.isClosed then s
  else
    let s := (s.send (.close code (cutReason reason))).count .closed
    { s with phase := .closed, agenda := s.agenda.cancel }

/-- Closes the session since something unexpected came. -/
def reject (what : String) (s : Session) : Session :=
  (s.count .unexpected).close protocolError (unexpectedReason ++ what)

/-- Lets a message wait for as long as it says. -/
def schedule (m : Message) (s : Session) : Session :=
  { s with agenda := s.agenda.schedule (s.now + m.delay) m }

/-- What a trigger finds. -/
inductive Found where
  | reply (m : Message)
  /-- All its replies have been used. -/
  | exhausted
  /-- The script has no reply to it. -/
  | unregistered
deriving Repr, DecidableEq

/-- What a trigger finds now. -/
def lookup (trigger : Trigger) (s : Session) : Found :=
  match s.replies.queue? trigger with
  | some (m :: _) => .reply m
  | some [] => .exhausted
  | none => .unregistered

/-- Uses the reply that a trigger finds: it leaves its queue, unless it is kept there. -/
def use (trigger : Trigger) (s : Session) : Session :=
  match s.replies.queue? trigger with
  | some (m :: _) => if m.leaves then { s with replies := s.replies.dropFirst trigger } else s
  | _ => s

/-- A session without triggers begins to close. -/
def closeIfFinished (s : Session) : Session :=
  if s.phase = .open ∧ s.replies = [] then
    { s with
      phase := .closing
      deadline := s.now + s.closeTimeout
      agenda := s.agenda.stop }
  else s

/-! ### Steps -/

/-- The connection is there: the script begins. -/
def onOpen (s : Session) : Session :=
  if s.phase = .pending then
    let s := { s with phase := .open }.count .opened
    match s.script.failure with
    | some failure =>
      let s := (s.count .failed).send (.ofPayload failure.message.payload)
      s.close internalError failure.cause
    | none =>
      ((s.script.opening ++ s.script.timed).foldl (fun s m => s.schedule m) s).closeIfFinished
  else s

/-- The peer sends a text. -/
def onMessage (text : String) (s : Session) : Session :=
  match s.phase with
  | .open =>
    match s.lookup (.message text) with
    | .reply m => ((s.use (.message text)).schedule m).closeIfFinished
    | _ => s.reject text
  | .closing => s.reject text
  | _ => s

/-- The server receives a request: the first of its keys that the script knows decides. -/
def onKeys (path : String) : List RequestKey → Session → Session
  | [], s => s
  | key :: keys, s =>
    match s.lookup (.request key) with
    | .reply m => ((s.use (.request key)).schedule m).closeIfFinished
    | .exhausted => s.reject ("from http " ++ path)
    | .unregistered => onKeys path keys s

/-- The server receives a request. -/
def onRequest (request : Request) (s : Session) : Session :=
  if s.phase = .open then s.onKeys request.path request.keys else s

/-- Sends a message, closes if the message says so, and otherwise looks for what follows it. -/
def deliver (m : Message) (s : Session) : Session :=
  if s.isLive then
    let s := s.send (.ofPayload m.payload)
    match m.closingCode with
    | some code => s.close code ""
    | none =>
      let text := m.payload.asText
      match s.lookup (.sent text) with
      | .reply next => (s.use (.sent text)).schedule next
      | .exhausted => s.reject text
      | .unregistered => s
  else s

/-- Whether a closing session has nothing left to wait for. -/
def canFinish (s : Session) : Bool :=
  s.phase = .closing && (s.agenda.tasks.isEmpty || s.deadline ≤ s.now)

/-- Whether the session sends a message when it is due. A closing session sends those with a delay
that is shorter than its close timeout, and those without any. -/
def isAwaited (m : Message) (s : Session) : Bool :=
  s.phase ≠ .closing || m.delay < s.closeTimeout || m.delay = 0

/-- Closes the session in good order. -/
def finish (s : Session) : Session := s.close normalClosure closingReason

/-- Sends the first message that is due, or closes if the session does not wait for it. With none, a
closing session closes if it can. -/
def emit (s : Session) : Session :=
  match s.agenda.take? s.now with
  | some (task, agenda) =>
    if s.isAwaited task.item then { s with agenda := agenda }.deliver task.item else s.finish
  | none => if s.canFinish then s.finish else s

/-- Sends the first message that is due, whether or not the session still waits for it. -/
def sendDue (s : Session) : Session :=
  match s.agenda.take? s.now with
  | some (task, agenda) => { s with agenda := agenda }.deliver task.item
  | none => s

/-- A step of a session. -/
inductive Input where
  | opened
  | message (text : String)
  | binary (octets : Bytes)
  | request (request : Request)
  /-- The peer closes. -/
  | closed (code : UInt16) (reason : String)
  /-- Milliseconds pass. -/
  | elapse (milliseconds : Nat)
  /-- The first message that is due is sent, unless the close timeout is over. -/
  | emit
  /-- The first message that is due is sent, before anyone sees that the close timeout is over. -/
  | sendDue
deriving Repr, DecidableEq

/-- Takes a step. -/
def step (s : Session) : Input → Session
  | .opened => s.onOpen
  | .message text => s.onMessage text
  | .binary octets => s.onMessage (Utf8.decodeLossy octets)
  | .request request => s.onRequest request
  | .closed code reason => s.close code reason
  | .elapse milliseconds => { s with now := s.now + milliseconds }
  | .emit => s.emit
  | .sendDue => s.sendDue

/-- Takes steps. -/
def run (s : Session) (inputs : List Input) : Session := inputs.foldl step s

@[simp] theorem run_nil (s : Session) : s.run [] = s := rfl

@[simp] theorem run_cons (s : Session) (i : Input) (is : List Input) :
    s.run (i :: is) = (s.step i).run is := rfl

theorem run_append (s : Session) (is js : List Input) : s.run (is ++ js) = (s.run is).run js := by
  simp [run]

end Session

end Understudy
