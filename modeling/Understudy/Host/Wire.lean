import Understudy.Host

/-!
# Understudy.Host.Wire

Requests and responses on a connection.

A request reaches whoever answers without its fragment, and with every header value that is not
visible text as the empty one. A response leaves with a status that can be sent, with those of its
headers that can be sent, and with a header that says how its body is framed; some statuses, and the
answer to a `HEAD` request, have no body.
-/

namespace Understudy

namespace Wire

/-! ### Requests -/

/-- A request as it comes from a connection. -/
structure Arrival where
  method : String
  target : String
  headers : RawHeaders := []
  body : Bytes := []
deriving Repr, DecidableEq

/-- The request as it is answered. -/
def Arrival.request (a : Arrival) : Request where
  method := a.method
  path := String.ofList (a.target.toList.takeWhile (· ≠ '#'))
  headers := .ofPairs (a.headers.map fun header =>
    (Ascii.lower header.1, (RawHeaders.visible? header.2).getD ""))
  body := a.body

/-! ### Responses -/

/-- Whether a character can stand in the name of a header. -/
def isTokenChar (c : Char) : Bool :=
  c.isAlphanum ||
    ['!', '#', '$', '%', '&', '\'', '*', '+', '-', '.', '^', '_', '\x60', '|', '~'].contains c

/-- Whether a header can be sent. -/
def canSend (header : String × String) : Bool :=
  !header.1.isEmpty && header.1.toList.all isTokenChar &&
    header.2.toList.all fun c => c = '\t' || (' ' ≤ c && c ≠ '\x7f')

/-- The status that is sent: one that is not a status becomes 500. -/
def sentStatus (status : UInt16) : UInt16 := if 100 ≤ status ∧ status ≤ 999 then status else 500

/-- Whether a response with a status never has a body. -/
def isBodiless (status : UInt16) : Bool := status < 200 || status = 204 || status = 304

/-- A response as it leaves on a connection. -/
structure Departure where
  status : UInt16
  headers : List (String × String)
  /-- The octets after the headers, if there can be any. -/
  body : Option Bytes
  /-- The chunks that the body is sent in, if it is. -/
  chunks : Option (List Bytes) := none
  /-- The session that the connection belongs to from now on. -/
  session : Option Nat := none
deriving Repr, DecidableEq

/-- The header that says how a body is framed. -/
def framing (head : Bool) (status : UInt16) : Body → List (String × String)
  | .full octets => length octets
  | .empty => length []
  | .chunked _ => if isBodiless status then [] else [("transfer-encoding", "chunked")]
  | .session _ => []
where
  length (octets : Bytes) : List (String × String) :=
    if isBodiless status || (head && octets.isEmpty) then []
    else [("content-length", toString octets.length)]

/-- A response as it leaves, in answer to a `HEAD` request or another one. -/
def depart (maxChunkSize : Nat) (head : Bool) (r : Response) : Departure :=
  let status := sentStatus r.status
  let headers := (r.headers.filter canSend).map (fun header => (Ascii.lower header.1, header.2)) ++
    framing head status r.body
  if head || isBodiless status then ⟨status, headers, none, none, none⟩
  else
    match r.body with
    | .chunked octets =>
      ⟨status, headers, some octets, some (Chunks.split maxChunkSize octets), none⟩
    | body => ⟨status, headers, some (body.octets?.getD []), none, none⟩

/-- The answer to a request that should have asked for a WebSocket. -/
def notAnUpgrade : Response :=
  (⟨400, [], .empty, none⟩ : Response).withText "Expected a WebSocket upgrade request"

/-- Answers a request on a connection. A session begins only if the request asks for a WebSocket,
and is closed at once otherwise. -/
def exchange (a : Arrival) (h : Host) : Departure × Host :=
  let (response, h) := h.respond a.request
  let h := h.advance ((response.delay.getD 0) / 1000)
  let head := a.method = "HEAD"
  let depart := depart h.settings.maxChunkSize head
  match response.body with
  | .session number =>
    match Handshake.isAsked a.headers, Handshake.answer? a.headers with
    | true, some answer =>
      (⟨sentStatus response.status, Handshake.replyHeaders answer, none, none, some number⟩,
        h.input number .opened)
    | _, _ => (depart notAnUpgrade, h.input number (.closed 1002 "not an upgrade request"))
  | _ => (depart response, h)

end Wire

end Understudy
