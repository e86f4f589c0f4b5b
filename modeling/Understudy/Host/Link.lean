import Understudy.Host

/-!
# Understudy.Host.Link

A connection that belongs to a session.

What the peer sends becomes steps of the session, and what the session sends is what the peer hears,
in order. A ping is answered by the connection itself. When the session has sent its last frame, the
connection ends in an orderly way; it is broken if the peer breaks it.
-/

namespace Understudy

/-- A connection that belongs to a session. -/
structure Link where
  session : Nat
  /-- How many frames of the session the peer has heard. -/
  heard : Nat := 0
  /-- The pings that wait for an answer, first to last. -/
  pings : List Bytes := []
  broken : Bool := false
deriving Repr, DecidableEq

namespace Link

/-- What a peer does. -/
inductive Act where
  | text (text : String)
  | binary (octets : Bytes)
  | ping (octets : Bytes)
  /-- Closes, and perhaps says why. -/
  | close (why : Option (UInt16 × String))
  /-- Sends what is no frame. -/
  | garbage
  /-- Goes away. -/
  | leave
deriving Repr, DecidableEq

/-- What a peer hears. -/
inductive Heard where
  | frame (frame : Session.Frame)
  | pong (octets : Bytes)
  | ended
  | broken
deriving Repr, DecidableEq

/-- The code of a close without a close frame. -/
def abnormalClosure : UInt16 := 1006

/-- What an act of the peer is for a session. A ping is answered without it. -/
def Act.input? : Act → Option Session.Input
  | text t => some (.message t)
  | binary octets => some (.binary octets)
  | ping _ => none
  | close (some (code, reason)) => some (.closed code reason)
  | close none => some (.closed Session.normalClosure "")
  | garbage => some (.closed abnormalClosure "read failed")
  | leave => some (.closed abnormalClosure "connection dropped")

/-- The peer acts on a connection. -/
def act (a : Act) (l : Link) (h : Host) : Link × Host :=
  let l : Link := match a with
    | .ping octets => { l with pings := l.pings ++ [octets] }
    | .garbage | .leave => { l with broken := true }
    | _ => l
  (l, match a.input? with
    | some i => h.input l.session i
    | none => h)

/-- What the peer hears next, without waiting. -/
def next? (l : Link) (s : Session) : Option (Heard × Link) :=
  if l.broken then some (.broken, l)
  else
    match l.pings, s.sent[l.heard]? with
    | octets :: pings, _ => some (.pong octets, { l with pings := pings })
    | [], some sent => some (.frame sent.frame, { l with heard := l.heard + 1 })
    | [], none => if s.isClosed then some (.ended, l) else none

/-- What the peer hears next; it waits until something is due, and hears nothing if nothing is. -/
def hear? (l : Link) (h : Host) : Option (Heard × Link × Host) := do
  let s ← h.session? l.session
  match l.next? s with
  | some (heard, l) => some (heard, l, h)
  | none =>
    let time ← s.nextTime?
    let h := h.advance (time - s.now)
    let (heard, l) ← l.next? (← h.session? l.session)
    some (heard, l, h)

end Link

end Understudy
