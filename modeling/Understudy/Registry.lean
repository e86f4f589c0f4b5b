import Understudy.Queues
import Understudy.Response
import Understudy.Script

/-!
# Understudy.Registry

Answers that wait for requests.

A registry holds entries under keys, in the order in which they were registered; the entries under
one key are its queue. A request takes the first entry of the queue of its own method, or else of
`any`. An entry that repeats stays where it is, and any other one is gone once it is taken.
-/

namespace Understudy

/-- Where status, headers and body of an answer come from. The body may depend on the request. -/
structure Provider where
  status : UInt16
  headers : Headers
  body : Request → String

/-- A provider that always gives the same body. -/
def Provider.fixed (status : UInt16) (headers : Headers) (body : String) : Provider :=
  ⟨status, headers, fun _ => body⟩

/-- The answer of an entry. -/
inductive Reply where
  | provided (provider : Provider)
  /-- Fragments of one body that is sent in chunks. -/
  | chunked (status : UInt16) (fragments : List String)
  /-- The connection becomes a conversation. -/
  | conversation (script : Script)

/-- An answer that waits. The headers are sent after those of the reply, and the delay is that of a
response, in microseconds. A conversation has neither. -/
structure Entry where
  reply : Reply
  headers : Headers
  delay : Option Nat
  repeats : Bool

namespace Entry

/-- What a request gets: a response, or the script of a conversation. -/
inductive Answer where
  | response (response : Response)
  | conversation (script : Script)

/-- What a request gets of an entry. The headers of the entry come after those of the reply. -/
def answer (e : Entry) (request : Request) : Answer :=
  match e.reply with
  | .provided p =>
    .response ((((⟨p.status, p.headers, .empty, none⟩ : Response).withHeaders e.headers).withText
      (p.body request)).withDelay e.delay)
  | .chunked status fragments =>
    .response ((((⟨status, [], .empty, none⟩ : Response).withHeaders e.headers).withChunkedBody
      (Utf8.encode (String.join fragments))).withDelay e.delay)
  | .conversation script => .conversation script

end Entry

/-- Entries under keys, in the order of registration. -/
structure Registry where
  entries : Queues RequestKey Entry

namespace Registry

/-- No entries. -/
def empty : Registry := ⟨[]⟩

/-- The entries under a key, in order. -/
def queue (r : Registry) (key : RequestKey) : List Entry :=
  Queues.queue r.entries key

/-- How many entries are under a key. -/
def pending (r : Registry) (key : RequestKey) : Nat := (r.queue key).length

/-- Whether no entries are left. -/
def isEmpty (r : Registry) : Bool := r.entries.isEmpty

/-- Puts an entry at the end of the queue of a key. -/
def register (r : Registry) (key : RequestKey) (entry : Entry) : Registry :=
  ⟨Queues.push r.entries key entry⟩

/-- Drops the first entry under a key. -/
def dropFirst (r : Registry) (key : RequestKey) : Registry := ⟨Queues.dropFirst r.entries key⟩

/-- Takes the first entry under a key. -/
def serve? (r : Registry) (key : RequestKey) : Option (Entry × Registry) :=
  match r.queue key with
  | [] => none
  | e :: _ => some (e, if e.repeats then r else r.dropFirst key)

/-- Takes the first entry under the first of some keys that has one. -/
def serveFirst? (r : Registry) : List RequestKey → Option (Entry × Registry)
  | [] => none
  | key :: keys =>
    match r.serve? key with
    | some found => some found
    | none => r.serveFirst? keys

/-- Takes the entry that a request gets. -/
def next? (r : Registry) (method path : String) : Option (Entry × Registry) :=
  r.serveFirst? (RequestKey.lookupOrder method path)

/-! ### Queues -/

@[simp] theorem queue_empty (key : RequestKey) : empty.queue key = [] := rfl

@[simp] theorem queue_register (r : Registry) (key other : RequestKey) (entry : Entry) :
    (r.register key entry).queue other =
      if key = other then r.queue other ++ [entry] else r.queue other :=
  Queues.queue_push _ _ _ _

@[simp] theorem queue_dropFirst (r : Registry) (key other : RequestKey) :
    (r.dropFirst key).queue other =
      if key = other then (r.queue other).tail else r.queue other :=
  Queues.queue_dropFirst _ _ _

end Registry

end Understudy
