import Understudy.Registry
import Understudy.Session.Clock

/-!
# Understudy.Stage

A registry, and the conversations that its answers have begun.

Every request first reaches the sessions that are there, in the order in which they began, and is
then answered from the registry; if the answer is a conversation, it begins as a new session.
Sessions are known by their number, also when they are closed. A stage watches those that it may
have to tell of requests: a session is watched from its beginning on, until the stage finds that it
is closed.
-/

namespace Understudy

/-- A registry and its sessions. -/
structure Stage where
  registry : Registry
  /-- All sessions that have begun, in order. -/
  sessions : List Session
  /-- The numbers of the sessions that requests reach, in order. -/
  watched : List Nat
  /-- The close timeout of new sessions. -/
  closeTimeout : Nat
  /-- The time at which new sessions begin. -/
  now : Nat

namespace Stage

/-- A stage without expectations and sessions. -/
def empty (closeTimeout : Nat) : Stage := ⟨.empty, [], [], closeTimeout, 0⟩

/-- Lets a session take a step. -/
def step (s : Stage) (number : Nat) (input : Session.Input) : Stage :=
  { s with sessions := s.sessions.modify number (·.step input) }

/-- Whether the session with a number has closed. -/
def isClosed (s : Stage) (number : Nat) : Bool := s.sessions[number]?.all Session.isClosed

/-- Watches closed sessions no longer. -/
def prune (s : Stage) : Stage := { s with watched := s.watched.filter fun n => !s.isClosed n }

/-- How many sessions have begun and not closed, as far as the stage watches them. -/
def liveSessions (s : Stage) : Nat := s.prune.watched.length

/-- Lets a request reach the sessions that are watched. -/
def notify (s : Stage) (request : Request) : Stage :=
  s.prune.watched.foldl (fun s number => s.step number (.request request)) s.prune

/-- Begins a session, and answers with its number. -/
def startSession (s : Stage) (script : Script) : Response × Stage :=
  (.switching s.sessions.length,
    { s with
      sessions := s.sessions ++ [Session.start script s.closeTimeout s.now]
      watched := s.watched ++ [s.sessions.length] })

/-- Answers a request with the next entry of the registry. A conversation begins a session. -/
def answer (s : Stage) (request : Request) : Response × Stage :=
  match s.registry.next? request.method request.path with
  | none => (.notFound, s)
  | some (entry, registry) =>
    let s := { s with registry := registry }
    match entry.answer request with
    | .response response => (response, s)
    | .conversation script => s.startSession script

/-- Answers a request, of which the sessions hear first. -/
def dispatch (s : Stage) (request : Request) : Response × Stage := (s.notify request).answer request

/-- Lets every session send what is due. -/
def settle (s : Stage) : Stage := { s with sessions := s.sessions.map Session.settle }

/-- Lets milliseconds pass for every session. -/
def advance (s : Stage) (milliseconds : Nat) : Stage :=
  { s with
    sessions := s.sessions.map (·.advance milliseconds)
    now := s.now + milliseconds }

/-- What is counted of the sessions. -/
def events (s : Stage) : List String :=
  s.sessions.flatMap fun session => "created" :: session.events.map Session.Event.name

end Stage

end Understudy
