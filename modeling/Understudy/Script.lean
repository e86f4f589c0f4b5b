import Understudy.Queues
import Understudy.Request

/-!
# Understudy.Script

Scripts of conversations over a WebSocket.

A script lists the messages that are sent when a connection opens, the messages that follow after a
while, and replies to triggers: a message of the peer, a request to the same server, or a message
that the session itself has sent. The replies to one trigger form a queue. A script is built from
`Cue`s, in order; it may also fail, and then all that happens is one message and a close.
-/

namespace Understudy

/-- What a message holds. -/
inductive Payload where
  | text (text : String)
  | binary (octets : Bytes)
deriving Repr, DecidableEq

/-- What a message says, in text. Octets that are not UTF-8 count as well. -/
def Payload.asText : Payload → String
  | text t => t
  | binary octets => Utf8.decodeLossy octets

/-- A message that a session sends. -/
structure Message where
  payload : Payload
  /-- How long it waits, in milliseconds, by the clock of its session. -/
  delay : Nat := 0
  /-- Whether it leaves its queue when it is used. -/
  leaves : Bool := true
  /-- The code with which the connection is closed right after it. -/
  closingCode : Option UInt16 := none
deriving Repr, DecidableEq

/-- A text that is sent at once, one time. -/
def Message.ofText (text : String) : Message := ⟨.text text, 0, true, none⟩

/-- What a reply answers. -/
inductive Trigger where
  /-- A message of the peer. -/
  | message (text : String)
  /-- A request to the server. -/
  | request (key : RequestKey)
  /-- A message that the session has sent. -/
  | sent (text : String)
deriving Repr, DecidableEq

/-- Replies under triggers, in the order in which they were given. -/
abbrev Replies := Queues Trigger Message

/-- The message and the cause of a script that fails. -/
structure Failure where
  message : Message
  cause : String
deriving Repr, DecidableEq

/-- The script of a conversation. -/
structure Script where
  opening : List Message := []
  timed : List Message := []
  replies : Replies := []
  failure : Option Failure := none
deriving Repr, DecidableEq

namespace Script

/-- The replies to a trigger, if it has been given any. -/
def queue? (script : Script) (trigger : Trigger) : Option (List Message) :=
  if Queues.has script.replies trigger then some (Queues.queue script.replies trigger) else none

/-- How often a reply is given. -/
inductive Repeat where
  | once
  | always
  | times (n : Nat)
deriving Repr, DecidableEq

/-- The copies of a message in a queue. A message that is always given stays in its queue, and every
other copy leaves it. -/
def Repeat.copies (m : Message) : Repeat → List Message
  | once => [⟨m.payload, m.delay, true, m.closingCode⟩]
  | always => [⟨m.payload, m.delay, false, m.closingCode⟩]
  | times n => List.replicate n ⟨m.payload, m.delay, true, m.closingCode⟩

/-- A part of a script. -/
inductive Cue where
  /-- Messages for when the connection opens. -/
  | opening (messages : List Message)
  /-- A message for some milliseconds later, whatever its own delay. -/
  | wait (delay : Nat) (message : Message)
  /-- A reply to a trigger. -/
  | reply (trigger : Trigger) (message : Message) (repeats : Repeat)
deriving Repr, DecidableEq

/-- The script with another part. -/
def add (script : Script) : Cue → Script
  | .opening messages =>
    ⟨script.opening ++ messages, script.timed, script.replies, script.failure⟩
  | .wait delay m =>
    ⟨script.opening, script.timed ++ [⟨m.payload, delay, m.leaves, m.closingCode⟩],
      script.replies, script.failure⟩
  | .reply trigger m repeats =>
    ⟨script.opening, script.timed,
      script.replies ++ (repeats.copies m).map fun copy => (trigger, copy), script.failure⟩

/-- The script of some parts, in order. -/
def ofCues (cues : List Cue) : Script := cues.foldl add ⟨[], [], [], none⟩

/-- The script of a conversation that fails once it is open. -/
def failing (script : Script) (message : Message) (cause : String) : Script :=
  ⟨script.opening, script.timed, script.replies, some ⟨message, cause⟩⟩

end Script

end Understudy
