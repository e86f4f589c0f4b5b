import Understudy.Collection

/-!
# Understudy.Collection.Service

A collection behind requests: the method chooses the operation, and every request is recorded with
its outcome.
-/

namespace Understudy

namespace Collection

/-- How a request went. -/
inductive Outcome where
  | ok
  | notFound
  | error
  | unsupported
deriving Repr, DecidableEq

/-- The outcome as metrics name it. -/
def Outcome.name : Outcome → String
  | ok => "ok"
  | notFound => "not_found"
  | error => "error"
  | unsupported => "unsupported"

/-- What a request with a method does, if anything. -/
inductive Verb where
  | create
  | read
  | update
  | delete
deriving Repr, DecidableEq

/-- The verb of a method, in upper case. -/
def Verb.ofMethod? (method : String) : Option Verb :=
  if method = "POST" ∨ method = "PUT" then some create
  else if method = "PATCH" then some update
  else if method = "GET" then some read
  else if method = "DELETE" then some delete
  else none

/-- Answers a request. After a fault the collection is what it was before. -/
def answer (rules : Rules) (request : Request) (c : Collection) :
    Except Fault Response × Collection :=
  match Verb.ofMethod? (Ascii.upper request.method) with
  | some .create =>
    let (response, c) := c.create rules request.path request.bodyText
    (.ok response, c)
  | some .update =>
    match c.patch rules request.path request.bodyText with
    | .ok (response, c) => (.ok response, c)
    | .error e => (.error e, c)
  | some .read => (.ok (c.get rules request.path), c)
  | some .delete =>
    let (response, c) := c.delete rules request.path
    (.ok response, c)
  | none => (.ok ⟨405, [], .empty, none⟩, c)

/-- How a request has ended. -/
def outcome (request : Request) (answer : Except Fault Response) : Outcome :=
  if (Verb.ofMethod? (Ascii.upper request.method)).isNone then .unsupported
  else
    match answer with
    | .error _ => .error
    | .ok response => if response.status = 404 then .notFound else .ok

/-- A collection, and the verbs and outcomes of the requests to it, the latest first. -/
structure Service where
  rules : Rules := .json
  collection : Collection := .empty
  record : List (String × Outcome) := []

/-- Answers a request and takes down how it has ended. -/
def Service.dispatch (s : Service) (request : Request) : Except Fault Response × Service :=
  let (response, collection) := answer s.rules request s.collection
  (response,
    ⟨s.rules, collection, (Ascii.upper request.method, outcome request response) :: s.record⟩)

end Collection

end Understudy
