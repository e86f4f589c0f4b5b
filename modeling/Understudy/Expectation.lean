import Understudy.Json.Printer
import Understudy.Registry

/-!
# Understudy.Expectation

Expectations: what is answered to which requests.

An expectation is described by clauses. The last clause about the method, the path, the delay or the
reply counts, and headers add up in order; without a clause it accepts every method at the root and
answers 200 with an empty body. It is then registered once, some number of times, or for good.
-/

namespace Understudy

/-- What is answered to which requests. -/
structure Expectation where
  method : Method := .any
  path : String := "/"
  headers : Headers := []
  /-- How long the body of a response waits, in microseconds. -/
  delay : Option Nat := none
  reply : Reply := .provided (.fixed 200 [] "")

namespace Expectation

/-- A part of the description. -/
inductive Clause where
  | method (method : Method)
  | path (path : String)
  | header (name value : String)
  | delay (microseconds : Nat)
  | reply (provider : Provider)
  /-- A JSON document, which also says that it is one in a header. -/
  | json (status : UInt16) (document : Json)
  | chunks (status : UInt16) (fragments : List String)
  | conversation (script : Script)

/-- The expectation with another clause. A header comes after the others, and of everything else
only the last word counts. -/
def add (e : Expectation) : Clause → Expectation
  | .method m => { e with method := m }
  | .path path => { e with path := path }
  | .header name value => { e with headers := e.headers ++ [(name, value)] }
  | .delay microseconds => { e with delay := some microseconds }
  | .reply provider => { e with reply := .provided provider }
  | .json status document =>
    { e with
      headers := e.headers ++ [("Content-Type", "application/json")]
      reply := .provided (.fixed status [] document.text) }
  | .chunks status fragments => { e with reply := .chunked status fragments }
  | .conversation script => { e with reply := .conversation script }

/-- The expectation that clauses describe. -/
def ofClauses (clauses : List Clause) : Expectation :=
  clauses.foldl add { method := .any, path := "/" }

/-- What an expectation is registered under. -/
def key (e : Expectation) : RequestKey := ⟨e.method, e.path⟩

/-- What is registered for an expectation. A conversation is an upgrade, and neither headers nor a
delay have a place in it. -/
def entry (e : Expectation) (repeats : Bool) : Entry :=
  match e.reply with
  | .conversation script => ⟨.conversation script, [], none, repeats⟩
  | reply => ⟨reply, e.headers, e.delay, repeats⟩

/-- How often an expectation is met. -/
inductive Quota where
  | times (n : Nat)
  | always
deriving Repr, DecidableEq

/-- The entries that are registered for an expectation: one for each time, or one that repeats. -/
def entries (e : Expectation) : Quota → List Entry
  | .times n => List.replicate n (e.entry false)
  | .always => [e.entry true]

/-- Registers an expectation. -/
def register (e : Expectation) (quota : Quota) (r : Registry) : Registry :=
  (e.entries quota).foldl (fun r entry => r.register e.key entry) r

end Expectation

end Understudy
