import Understudy.Collection.Service
import Understudy.Handshake
import Understudy.Host.Address
import Understudy.Metrics
import Understudy.Settings
import Understudy.Stage

/-!
# Understudy.Host

A server: settings, and whoever answers its requests.

A host starts by taking its address and stops by giving it back; its counts, its expectations and
its collection live through both. It answers every request with one response, and keeps what
happened as observations. Which addresses and ports there are to take is not for the host to say:
`start` is told what the system gives.
-/

namespace Understudy

/-! ### Who answers -/

/-- Whoever answers requests. -/
inductive Responder where
  /-- Expectations, and the conversations that came of them. -/
  | expectations (stage : Stage)
  | collection (service : Collection.Service)
  /-- Any function; the stage holds its conversations. -/
  | custom (answer : Request → Entry.Answer) (stage : Stage)

namespace Responder

/-- The name under which requests are counted. -/
def name : Responder → String
  | expectations _ => "mock"
  | collection _ => "crud"
  | custom _ _ => "custom"

/-- The conversations of whoever answers. -/
def stage? : Responder → Option Stage
  | expectations stage => some stage
  | collection _ => none
  | custom _ stage => some stage

/-- Changes the conversations. -/
def onStage (f : Stage → Stage) : Responder → Responder
  | expectations stage => expectations (f stage)
  | collection service => collection service
  | custom answer stage => custom answer (f stage)

/-- Answers a request. -/
def respond (request : Request) : Responder → Except Collection.Fault Response × Responder
  | expectations stage =>
    let (response, stage) := stage.dispatch request
    (.ok response, expectations stage)
  | collection service =>
    let (response, service) := service.dispatch request
    (response, collection service)
  | custom answer stage =>
    match answer request with
    | .response response => (.ok response, custom answer stage)
    | .conversation script =>
      let (response, stage) := stage.startSession script
      (.ok response, custom answer stage)

/-- What was counted by whoever answers. -/
def observations : Responder → List Observation
  | expectations stage => stage.events.map .session
  | collection service => service.record.reverse.map fun entry => .collection entry.1 entry.2.name
  | custom _ stage => stage.events.map .session

end Responder

/-! ### The host -/

/-- A server. -/
structure Host where
  settings : Settings
  responder : Responder
  /-- The port while the server is running. -/
  port? : Option UInt16 := none
  /-- How many requests it received. -/
  requests : Nat := 0
  /-- What it counted of requests, in order. -/
  record : List Observation := []

namespace Host

/-- Why a host does not start. -/
inductive StartError where
  | alreadyStarted
  | cannotBind (address : String)
deriving Repr, DecidableEq

/-- A host that answers from expectations. -/
def ofSettings (s : Settings) : Host where
  settings := s
  responder := .expectations (.empty s.closeTimeout)

/-- Whether a host listens. -/
def isRunning (h : Host) : Bool := h.port?.isSome

/-- The port of the host, or zero if it is not running. -/
def port (h : Host) : UInt16 := h.port?.getD 0

/-- The address of a path on a host. -/
def url (h : Host) (path : String) : String :=
  "http://" ++ h.settings.host ++ ":" ++ toString h.port.toNat ++ path

/-- Starts the host. `given` is the port that the system gives for its address, if it gives one. -/
def start (h : Host) (given : Option UInt16) : Except StartError Host :=
  if h.isRunning then .error .alreadyStarted
  else
    match given with
    | some port => .ok { h with port? := some port }
    | none => .error (.cannotBind h.settings.address)

/-- The port that a machine gives whose networks are all down, of which `free` is a free one. It
lets every numeric address be taken, since it does not know which are its own, but no reserved
port. -/
def givenPort? (s : Settings) (free : UInt16) : Option UInt16 :=
  if !Address.isNumeric s.host then none
  else if s.port = 0 then some free
  else if s.port < Address.firstFreePort then none
  else some s.port

/-- Stops to listen. What has been registered stays. -/
def stop (h : Host) : Host := { h with port? := none }

/-- The registry of a host, if it answers by expectations. -/
def registry? (h : Host) : Option Registry :=
  match h.responder with
  | .expectations stage => some stage.registry
  | _ => none

/-- Puts another registry in place of the one that the host has. -/
def withRegistry (h : Host) (r : Registry) : Host :=
  match h.responder with
  | .expectations stage => { h with responder := .expectations { stage with registry := r } }
  | _ => h

/-- How many resources the host has stored, if it stores any. -/
def stored? (h : Host) : Option Nat :=
  match h.responder with
  | .collection service => some service.collection.size
  | _ => none

/-- Answers a request. A fault is answered too, with its text. -/
def respond (h : Host) (request : Request) : Response × Host :=
  let (result, responder) := h.responder.respond request
  let response := match result with
    | .ok response => response
    | .error fault =>
      (⟨500, [], .empty, none⟩ : Response).withText (fault.heading ++ fault.reason?.getD "")
  (response,
    { h with
      responder := responder
      requests := h.requests + 1
      record := h.record ++ [.request h.responder.name response.status] })

/-- Lets a session take a step, and send what is due. -/
def input (h : Host) (number : Nat) (i : Session.Input) : Host :=
  { h with responder := h.responder.onStage fun stage => (stage.step number i).settle }

/-- Lets milliseconds pass. -/
def advance (h : Host) (milliseconds : Nat) : Host :=
  { h with responder := h.responder.onStage fun stage => stage.advance milliseconds }

/-- The session with a number. -/
def session? (h : Host) (number : Nat) : Option Session :=
  h.responder.stage?.bind fun stage => stage.sessions[number]?

/-- Everything that was counted. -/
def observations (h : Host) : List Observation := h.record ++ h.responder.observations

end Host

end Understudy
