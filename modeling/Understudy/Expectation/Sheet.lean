import Understudy.Expectation
import Understudy.Yaml.Record

/-!
# Understudy.Expectation.Sheet

Expectations that are written down.

A sheet lists expectations, and is read from a YAML document or, which is the same, from JSON. It is
checked as a whole before any of it is registered, so a sheet that is refused changes nothing. An
entry of a sheet is a list of clauses and a quota; a conversation counts before chunks, and chunks
before a body.
-/

namespace Understudy

namespace Sheet

/-! ### Entries -/

/-- A body that is written down. -/
inductive Content where
  | text (text : String)
  | document (document : Json)

/-- A message for some milliseconds later. -/
structure Timed where
  delay : Nat
  message : String
deriving Repr, DecidableEq

/-- A reply to a message. -/
structure Answer where
  trigger : String
  message : String
  always : Bool
deriving Repr, DecidableEq

/-- A conversation that is written down. -/
structure Conversation where
  opening : List String
  timed : List Timed
  answers : List Answer
deriving Repr, DecidableEq

/-- An expectation that is written down. -/
structure Item where
  method : Method
  path : String
  status : UInt16
  body : Option Content
  /-- In the order of their names. -/
  headers : List (String × String)
  chunks : Option (List String)
  conversation : Option Conversation
  /-- In milliseconds. -/
  delay : Option Nat
  /-- How often it is met; without a number it is for good. -/
  times : Option Nat

end Sheet

/-- Expectations that are written down. -/
structure Sheet where
  items : List Sheet.Item

namespace Sheet

/-! ### Reading -/

/-- A method, in letters of either case. -/
def decodeMethod (n : Yaml.Node) : Yaml.Decoder Method := do
  (Method.parse (← n.text)).toOption

/-- The body that a node writes. -/
def Content.decode (n : Yaml.Node) : Yaml.Decoder Content := do
  match ← n.json with
  | .string t => return .text t
  | d => return .document d

/-- Headers in the order of their names. Of several values under one name the last one stays. -/
def decodeHeaders (n : Yaml.Node) : Yaml.Decoder (List (String × String)) := do
  let headers ← (← n.named).mapM fun field => do return (field.1, ← field.2.text)
  return Keyed.ofList headers

/-- The message for later that a node writes. -/
def Timed.decode (n : Yaml.Node) : Yaml.Decoder Timed := do
  let r ← n.record ["delay_ms", "message"]
  return ⟨← r.required "delay_ms" Yaml.Node.word64, ← r.required "message" Yaml.Node.text⟩

/-- The reply that a node writes. -/
def Answer.decode (n : Yaml.Node) : Yaml.Decoder Answer := do
  let r ← n.record ["on", "emit", "always"]
  return ⟨← r.required "on" Yaml.Node.text, ← r.required "emit" Yaml.Node.text,
    ← r.withDefault "always" false Yaml.Node.truth⟩

/-- Takes a conversation from a node. -/
def Conversation.decode (n : Yaml.Node) : Yaml.Decoder Conversation := do
  let r ← n.record ["open", "timed", "replies"]
  return ⟨← r.withDefault "open" [] (Yaml.Node.list Yaml.Node.text),
    ← r.withDefault "timed" [] (Yaml.Node.list Timed.decode),
    ← r.withDefault "replies" [] (Yaml.Node.list Answer.decode)⟩

/-- The expectation that a node writes. -/
def Item.decode (n : Yaml.Node) : Yaml.Decoder Item := do
  let r ← n.record
    ["method", "path", "status", "body", "headers", "chunks", "websocket", "delay_ms", "times"]
  return {
    method := ← r.withDefault "method" .any decodeMethod
    path := ← r.required "path" Yaml.Node.text
    status := ← r.withDefault "status" 200 Yaml.Node.word16
    body := ← r.optional "body" Content.decode
    headers := ← r.withDefault "headers" [] decodeHeaders
    chunks := ← r.optional "chunks" (Yaml.Node.list Yaml.Node.text)
    conversation := ← r.optional "websocket" Conversation.decode
    delay := ← r.optional "delay_ms" Yaml.Node.word64
    times := ← r.optional "times" Yaml.Node.word64 }

/-- Takes a sheet from a node. -/
def decode (n : Yaml.Node) : Yaml.Decoder Sheet := do
  let r ← n.record ["expectations"]
  return ⟨← r.withDefault "expectations" [] (Yaml.Node.list Item.decode)⟩

/-! ### Checking -/

/-- What is wrong with an item. -/
inductive Wrong where
  | path (path : String)
  | status (status : UInt16)
  | neverServed
deriving Repr, DecidableEq

/-- Which item is wrong, counted from zero, and how. -/
structure Fault where
  index : Nat
  wrong : Wrong
deriving Repr, DecidableEq

/-- The fault in words. -/
def Fault.message (f : Fault) : String :=
  "Expectation #" ++ toString f.index ++
    match f.wrong with
    | .path path => " has path '" ++ path ++ "'; paths must start with '/'"
    | .status status => " has invalid status " ++ toString status.toNat
    | .neverServed => " has times: 0 and would never be served"

/-- The first thing that is wrong with an item. -/
def Item.wrong? (i : Item) : Option Wrong :=
  if i.path.toList.head? ≠ some '/' then some (.path i.path)
  else if i.status < 100 ∨ 599 < i.status then some (.status i.status)
  else if i.times = some 0 then some .neverServed
  else none

/-- The first fault of items, of which the first one has an index. -/
def faultFrom? : Nat → List Item → Option Fault
  | _, [] => none
  | index, i :: rest =>
    match i.wrong? with
    | some wrong => some ⟨index, wrong⟩
    | none => faultFrom? (index + 1) rest

/-- The first fault of a sheet, if it has one. -/
def fault? (s : Sheet) : Option Fault := faultFrom? 0 s.items

/-- Reads a sheet. -/
def read (text : String) : Except (Yaml.Refusal Fault) Sheet :=
  match Yaml.decode? decode text with
  | none => .error .malformed
  | some s =>
    match s.fault? with
    | some fault => .error (.invalid fault)
    | none => .ok s

/-! ### Registering -/

/-- What a conversation says, in the parts of a script. -/
def Conversation.cues (c : Conversation) : List Script.Cue :=
  .opening (c.opening.map Message.ofText) ::
    c.timed.map (fun t => .wait t.delay (.ofText t.message)) ++
    c.answers.map fun a =>
      .reply (.message a.trigger) (.ofText a.message) (if a.always then .always else .once)

/-- The script of a conversation. -/
def Conversation.script (c : Conversation) : Script := .ofCues c.cues

/-- What an item answers: of several bodies a conversation goes first, and then fragments. -/
def Item.replyClause (i : Item) : Expectation.Clause :=
  match i.conversation, i.chunks, i.body with
  | some c, _, _ => .conversation c.script
  | none, some fragments, _ => .chunks i.status fragments
  | none, none, some (.text text) => .reply (.fixed i.status [] text)
  | none, none, some (.document document) => .json i.status document
  | none, none, none => .reply (.fixed i.status [] "")

/-- What an item says, in the clauses of an expectation. Its delay is in milliseconds. -/
def Item.clauses (i : Item) : List Expectation.Clause :=
  [.method i.method, .path i.path, i.replyClause] ++
    i.headers.map (fun header => .header header.1 header.2) ++
    (i.delay.map fun ms => .delay (ms * 1000)).toList

/-- The expectation of an item. -/
def Item.expectation (i : Item) : Expectation := .ofClauses i.clauses

/-- How often the expectation of an item is met. -/
def Item.quota (i : Item) : Expectation.Quota :=
  match i.times with
  | some n => .times n
  | none => .always

/-- Registers the expectations of a sheet in order. -/
def register (s : Sheet) (r : Registry) : Registry :=
  s.items.foldl (fun r i => i.expectation.register i.quota r) r

/-- Reads a sheet and registers what is on it: how many expectations that are, and the registry
afterwards. -/
def load (text : String) (r : Registry) : Except (Yaml.Refusal Fault) (Nat × Registry) :=
  match read text with
  | .error e => .error e
  | .ok s => .ok (s.items.length, s.register r)

/-! ### Writing -/

/-- A number as a document. -/
def numberJson (n : Nat) : Json := .number (.ofInt n)

/-- Texts as a document. -/
def textsJson (texts : List String) : Json := .array (texts.map .string)

/-- A body as a document. -/
def Content.toJson : Content → Json
  | text t => .string t
  | document d => d

/-- A message for later as a document. -/
def Timed.toJson (t : Timed) : Json :=
  .object [("delay_ms", numberJson t.delay), ("message", .string t.message)]

/-- A reply as a document. -/
def Answer.toJson (a : Answer) : Json :=
  .object [("always", .bool a.always), ("emit", .string a.message), ("on", .string a.trigger)]

/-- A conversation as a document. -/
def Conversation.toJson (c : Conversation) : Json :=
  .object [("open", textsJson c.opening),
    ("replies", .array (c.answers.map Answer.toJson)), ("timed", .array (c.timed.map Timed.toJson))]

/-- An item as a document: fields that say nothing are left out. -/
def Item.toJson (i : Item) : Json :=
  .object <|
    (i.body.map fun body => ("body", body.toJson)).toList ++
    (i.chunks.map fun fragments => ("chunks", textsJson fragments)).toList ++
    (i.delay.map fun ms => ("delay_ms", numberJson ms)).toList ++
    (if i.headers.isEmpty then []
      else [("headers", .object (i.headers.map fun header => (header.1, .string header.2)))]) ++
    [("method", .string i.method.name), ("path", .string i.path),
      ("status", numberJson i.status.toNat)] ++
    (i.times.map fun n => ("times", numberJson n)).toList ++
    (i.conversation.map fun c => ("websocket", c.toJson)).toList

/-- A sheet as a document. -/
def toJson (s : Sheet) : Json := .object [("expectations", .array (s.items.map Item.toJson))]

end Sheet

end Understudy
