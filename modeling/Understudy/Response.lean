import Understudy.Request

/-!
# Understudy.Response

Responses, before they are sent.

The delay of a response is carried along until it is sent, and it counts in microseconds: a wait that
is shorter than a millisecond is still one, and only a wait of zero is none. Messages of a session
wait by the clock of the session, which counts in milliseconds, and so do their delays.
-/

namespace Understudy

/-- The body of a response. -/
inductive Body where
  | empty
  | full (octets : Bytes)
  /-- Sent in chunks. -/
  | chunked (octets : Bytes)
  /-- The connection changes its protocol and belongs to a session from now on. -/
  | session (number : Nat)
deriving Repr, DecidableEq

/-- The octets of a body that has some. -/
def Body.octets? : Body → Option Bytes
  | full octets => some octets
  | chunked octets => some octets
  | empty => none
  | session _ => none

/-- A response. `delay` is how long the body waits, in microseconds, and is never zero. -/
structure Response where
  status : UInt16
  headers : Headers := []
  body : Body := .empty
  delay : Option Nat := none
deriving Repr, DecidableEq

namespace Response

/-- The response that says that nothing is there. -/
def notFound : Response := ⟨404, [], .empty, none⟩

/-- The response that hands the connection to a session. -/
def switching (number : Nat) : Response := ⟨101, [], .session number, none⟩

/-- The response with another body. -/
def withBody (r : Response) (octets : Bytes) : Response :=
  ⟨r.status, r.headers, .full octets, r.delay⟩

/-- The response with a text as its body. -/
def withText (r : Response) (text : String) : Response := r.withBody (Utf8.encode text)

/-- The response with another body, to be sent in chunks. -/
def withChunkedBody (r : Response) (octets : Bytes) : Response :=
  ⟨r.status, r.headers, .chunked octets, r.delay⟩

/-- The response with more headers after its own. -/
def withHeaders (r : Response) (headers : List (String × String)) : Response :=
  ⟨r.status, r.headers ++ headers, r.body, r.delay⟩

/-- The response with another delay; a delay of zero is none. -/
def withDelay (r : Response) (delay : Option Nat) : Response :=
  ⟨r.status, r.headers, r.body, delay.filter (· ≠ 0)⟩

/-- The value of the first header with a name, in letters of either case. -/
def header? (r : Response) (name : String) : Option String := r.headers.get? name

/-- The body as text, if there is one. -/
def bodyText? (r : Response) : Option String := r.body.octets?.map Utf8.decodeLossy

end Response

end Understudy
