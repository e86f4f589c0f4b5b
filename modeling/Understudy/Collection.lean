import Understudy.AttributeSet.Document
import Understudy.AttributeSet.Query
import Understudy.Json.Patch
import Understudy.Json.Printer
import Understudy.Response

/-!
# Understudy.Collection

Collections of resources that are created, read, patched and deleted.

A resource is a body under a key, the set of its attributes. A path is a query that selects the
resources whose keys satisfy it, and every operation is stated on the resources in order:

* `create` gives the body the attributes of its path and of itself, and puts it in place of a
  resource with the same key, or at the end.
* `get` answers the bodies that are selected.
* `delete` drops them.
* `patch` changes each of them. If one of the changes is not possible, nothing is changed.

How paths, bodies and patches are read, and how several bodies are written, are the `Rules` of a
collection. Of a patch nothing is known but what it makes of a document.
-/

namespace Understudy

namespace Collection

/-- What a patch makes of a document: another one, or words for why it does not apply. -/
abbrev Change := Json → Except String Json

/-- How a collection reads paths, bodies and patches, and writes several bodies as one. -/
structure Rules where
  /-- The attributes that a path asks for, or gives. -/
  ofPath : String → AttributeSet
  /-- The attributes of a body. -/
  ofBody : String → AttributeSet
  /-- One text for several bodies. -/
  compose : List String → String
  /-- The change that a text describes, if it is a patch. -/
  ofPatch? : String → Option Change

namespace Rules

/-- Writes bodies as the items of an array. -/
def bracketed (bodies : List String) : String := "[" ++ String.intercalate "," bodies ++ "]"

/-- Writes bodies with a text between them. -/
def separated (separator : String) (bodies : List String) : String :=
  String.intercalate separator bodies

/-- The rules for JSON documents, with some way to write several of them and to read patches. -/
def documents (compose : List String → String) (ofPatch? : String → Option Change) : Rules :=
  ⟨AttributeSet.ofPath, AttributeSet.ofBody, compose, ofPatch?⟩

/-- The rules for JSON documents, with several of them in a JSON array, and JSON patches. -/
def json : Rules := documents bracketed Json.Patch.change?

/-- The key of a body that is created under a path. -/
def key (rules : Rules) (path body : String) : AttributeSet :=
  (AttributeSet.merge [rules.ofPath path, rules.ofBody body]).presentOnly

end Rules

/-- A body under a key. -/
structure Resource where
  key : AttributeSet
  body : String
deriving DecidableEq

/-- Whether the key of a resource satisfies the query of a path. -/
def Resource.selectedBy (rules : Rules) (path : String) (r : Resource) : Bool :=
  r.key.satisfies (rules.ofPath path)

/-- Why a collection cannot answer a request. -/
inductive Fault where
  /-- A patch, or the body that it should change, is not JSON. -/
  | malformedJson
  /-- A patch does not apply, for a reason. -/
  | malformedPatch (reason : String)
deriving Repr, DecidableEq

/-- How the text of a fault begins. -/
def Fault.heading : Fault → String
  | malformedJson => "Malformed JSON: "
  | malformedPatch _ => "Malformed JSON patch: "

/-- What follows the heading. Where a text is not JSON, the words of its reader are left out. -/
def Fault.reason? : Fault → Option String
  | malformedJson => none
  | malformedPatch reason => some reason

/-- Puts a body under its key: in place of the body that is there, or at the end. -/
def put (new : Resource) : List Resource → List Resource
  | [] => [new]
  | r :: rest =>
    if r.key.equivalent new.key then ⟨r.key, new.body⟩ :: rest else r :: put new rest

/-- Puts resources one after the other. -/
def putAll (resources new : List Resource) : List Resource :=
  new.foldl (fun resources r => put r resources) resources

end Collection

/-- Resources, the oldest first. -/
structure Collection where
  resources : List Collection.Resource
deriving DecidableEq

namespace Collection

/-- No resources. -/
def empty : Collection := ⟨[]⟩

/-- How many resources there are. -/
def size (c : Collection) : Nat := c.resources.length

/-- Whether there are none. -/
def isEmpty (c : Collection) : Bool := c.resources.isEmpty

/-! ### Selecting -/

/-- The resources that a path selects, in order. -/
def selected (rules : Rules) (path : String) (c : Collection) : List Resource :=
  c.resources.filter (·.selectedBy rules path)

/-- The resources that a path does not select, in order. -/
def others (rules : Rules) (path : String) (c : Collection) : List Resource :=
  c.resources.filter fun r => !r.selectedBy rules path

/-- The text of some bodies: a single one as it is, and several composed. -/
def Rules.write (rules : Rules) : List String → String
  | [body] => body
  | bodies => rules.compose bodies

/-! ### Operations -/

/-- Creates a resource, in place of one with the same key. -/
def create (rules : Rules) (path body : String) (c : Collection) : Response × Collection :=
  ((⟨202, [], .empty, none⟩ : Response).withText body,
    ⟨put ⟨rules.key path body, body⟩ c.resources⟩)

/-- Answers the bodies that a path selects, if there are some. -/
def get (rules : Rules) (path : String) (c : Collection) : Response :=
  match c.selected rules path with
  | [] => .notFound
  | rs => (⟨200, [], .empty, none⟩ : Response).withText (rules.write (rs.map (·.body)))

/-- Drops the resources that a path selects. -/
def delete (rules : Rules) (path : String) (c : Collection) : Response × Collection :=
  match c.selected rules path with
  | [] => (.notFound, c)
  | _ => (⟨200, [], .empty, none⟩, ⟨c.others rules path⟩)

/-- Applies a patch to a body, which has to be a document. -/
def patchBody (change : Change) (body : String) : Except Fault String :=
  match Json.parse? body with
  | none => .error .malformedJson
  | some document =>
    match change document with
    | .error reason => .error (.malformedPatch reason)
    | .ok document => .ok document.text

/-- The key of a resource after its body has changed: the attributes that its path gave it, those
that the addressing query asks for, and those of the new body, each over the ones before. -/
def rekey (rules : Rules) (path : String) (r : Resource) (body : String) : AttributeSet :=
  (AttributeSet.merge [r.key.withoutKeysOf (rules.ofBody r.body), (rules.ofPath path).presentOnly,
    rules.ofBody body]).presentOnly

/-- Applies a patch to a resource that a path selects. -/
def patchResource (rules : Rules) (path : String) (change : Change) (r : Resource) :
    Except Fault Resource :=
  match patchBody change r.body with
  | .error e => .error e
  | .ok body => .ok ⟨rekey rules path r body, body⟩

/-- Applies a patch to resources in order, up to the first one that fails. -/
def patchResources (rules : Rules) (path : String) (change : Change) :
    List Resource → Except Fault (List Resource)
  | [] => .ok []
  | r :: rest =>
    match patchResource rules path change r with
    | .error e => .error e
    | .ok r =>
      match patchResources rules path change rest with
      | .error e => .error e
      | .ok rest => .ok (r :: rest)

/-- Patches the resources that a path selects. They leave their places, and go where their new keys
put them. -/
def patch (rules : Rules) (path text : String) (c : Collection) :
    Except Fault (Response × Collection) :=
  match c.selected rules path with
  | [] => .ok (.notFound, c)
  | rs =>
    match rules.ofPatch? text with
    | none => .error .malformedJson
    | some change =>
      match patchResources rules path change rs with
      | .error e => .error e
      | .ok updated =>
        .ok ((⟨202, [], .empty, none⟩ : Response).withText (rules.write (updated.map (·.body))),
          ⟨putAll (c.others rules path) updated⟩)

end Collection

end Understudy
