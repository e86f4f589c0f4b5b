import Mathlib.Data.List.Nodup
import Understudy.Json.Value

/-!
# Understudy.Proofs.Json.Leaves

The leaves of a document.

A text, a number or a truth value that is reached through objects alone (`Reaches`) is a leaf, and
the field names on the way are its path. `scalars` lists the leaves with what they say, all of them
and nothing else (`mem_scalars`). In a canonical document no two fields of an object have one name,
and so each leaf has a path of its own (`nodup_scalars`).
-/

namespace Understudy

namespace Json

/-! ### Leaves -/

/-- A value inside a document that is reached through objects alone, and the names on the way. -/
inductive Reaches : Json → List String → Json → Prop
  | here (j : Json) : Reaches j [] j
  | field {fields : List (String × Json)} {name : String} {value : Json} {path : List String}
      {leaf : Json} : (name, value) ∈ fields → Reaches value path leaf →
      Reaches (.object fields) (name :: path) leaf

/-- What a text, a number or a truth value says. -/
def scalarText? : Json → Option String
  | bool b => some (if b then "true" else "false")
  | number n => some (String.ofList n.text)
  | string s => some s
  | null | array _ | object _ => none

mutual

/-- The paths to the texts, numbers and truth values of a document, and what these say. -/
def scalars : Json → List (List String × String)
  | object fields => fieldScalars fields
  | null => []
  | array _ => []
  | bool b => [([], if b then "true" else "false")]
  | number n => [([], String.ofList n.text)]
  | string s => [([], s)]

/-- The scalars in the values of fields, with the names of the fields in front. -/
def fieldScalars : List (String × Json) → List (List String × String)
  | [] => []
  | (name, value) :: rest =>
    (scalars value).map (fun leaf => (name :: leaf.1, leaf.2)) ++ fieldScalars rest

end

/-- The scalars of fields are those of their values, a name further down. -/
theorem mem_fieldScalars {fields : List (String × Json)} {path : List String} {text : String} :
    (path, text) ∈ fieldScalars fields ↔
      ∃ name value rest, path = name :: rest ∧ (name, value) ∈ fields ∧
        (rest, text) ∈ scalars value := by
  induction fields with
  | nil =>
    rw [fieldScalars]
    exact iff_of_false List.not_mem_nil fun ⟨_, _, _, _, h, _⟩ => absurd h List.not_mem_nil
  | cons field fields ih =>
    obtain ⟨name, value⟩ := field
    rw [fieldScalars, List.mem_append, List.mem_map, ih]
    constructor
    · rintro (⟨⟨rest, text⟩, hleaf, heq⟩ | ⟨name', value', rest, hpath, hfield, hleaf⟩)
      · cases heq
        exact ⟨name, value, rest, rfl, List.mem_cons_self, hleaf⟩
      · exact ⟨name', value', rest, hpath, List.mem_cons_of_mem _ hfield, hleaf⟩
    · rintro ⟨name', value', rest, hpath, hfield, hleaf⟩
      rcases List.mem_cons.mp hfield with heq | hfield
      · cases heq
        exact Or.inl ⟨(rest, text), hleaf, by rw [hpath]⟩
      · exact Or.inr ⟨name', value', rest, hpath, hfield, hleaf⟩

mutual

/-- A scalar of a document is reached in it. -/
theorem reaches_of_mem_scalars : (j : Json) → {path : List String} → {text : String} →
    (path, text) ∈ scalars j → ∃ leaf, j.Reaches path leaf ∧ leaf.scalarText? = some text
  | null, _, _, h | array _, _, _, h => absurd h List.not_mem_nil
  | bool b, _, _, h => by
    cases List.mem_singleton.mp h
    exact ⟨_, .here _, rfl⟩
  | number n, _, _, h => by
    cases List.mem_singleton.mp h
    exact ⟨_, .here _, rfl⟩
  | string s, _, _, h => by
    cases List.mem_singleton.mp h
    exact ⟨_, .here _, rfl⟩
  | object fields, _, _, h => by
    rw [scalars] at h
    obtain ⟨name, value, rest, rfl, hfield, hleaf⟩ := mem_fieldScalars.mp h
    obtain ⟨leaf, hreaches, htext⟩ := reaches_of_mem_field fields hfield hleaf
    exact ⟨leaf, .field hfield hreaches, htext⟩

theorem reaches_of_mem_field : (fields : List (String × Json)) → {name : String} → {value : Json} →
    (name, value) ∈ fields → {path : List String} → {text : String} →
    (path, text) ∈ scalars value → ∃ leaf, value.Reaches path leaf ∧ leaf.scalarText? = some text
  | [], _, _, h, _, _, _ => absurd h List.not_mem_nil
  | (name, value) :: rest, name', value', h, path, text, hleaf => by
    by_cases heq : (name', value') = (name, value)
    · cases heq
      exact reaches_of_mem_scalars value hleaf
    · exact reaches_of_mem_field rest ((List.mem_cons.mp h).resolve_left heq) hleaf

end

/-- The leaves of a document are the texts, numbers and truth values that are reached in it. -/
theorem mem_scalars {j : Json} {path : List String} {text : String} :
    (path, text) ∈ j.scalars ↔ ∃ leaf, j.Reaches path leaf ∧ leaf.scalarText? = some text := by
  constructor
  · exact reaches_of_mem_scalars j
  · rintro ⟨leaf, hreaches, htext⟩
    induction hreaches with
    | here j =>
      cases j with
      | bool | number | string =>
        cases htext
        exact List.mem_cons_self
      | null | array | object => cases htext
    | field hfield hreaches ih =>
      rw [scalars]
      exact mem_fieldScalars.mpr ⟨_, _, _, rfl, hfield, ih htext⟩

mutual

/-- In a canonical document no two leaves have one path. -/
theorem nodup_scalars : (j : Json) → j.Canonical → (j.scalars.map Prod.fst).Nodup
  | null, _ | array _, _ => List.nodup_nil
  | bool _, _ | number _, _ | string _, _ => List.nodup_singleton _
  | object fields, h => nodup_fieldScalars fields h.1 h.2

/-- The scalars of fields are at different paths. -/
theorem nodup_fieldScalars : (fields : List (String × Json)) → Keyed.Sorted fields →
    CanonicalFields fields → ((fieldScalars fields).map Prod.fst).Nodup
  | [], _, _ => List.nodup_nil
  | (name, value) :: rest, hsorted, hcanonical => by
    obtain ⟨hbelow, hrest⟩ := List.pairwise_cons.mp hsorted
    have hvalue := nodup_scalars value hcanonical.1
    have hfields := nodup_fieldScalars rest hrest hcanonical.2
    rw [fieldScalars, List.map_append, List.map_map]
    -- the paths begin with the name of the field, and no two fields have one name
    refine List.nodup_append.mpr ⟨?_, hfields, ?_⟩
    · have hcons := hvalue.map (f := List.cons name) fun _ _ h => (List.cons.inj h).2
      rwa [List.map_map] at hcons
    · intro path hpath other hother heq
      obtain ⟨leaf, -, rfl⟩ := List.mem_map.mp hpath
      obtain ⟨⟨path', text⟩, hmem, rfl⟩ := List.mem_map.mp hother
      obtain ⟨name', value', _, rfl, hfield, -⟩ := mem_fieldScalars.mp hmem
      have hlt : name < name' := hbelow _ hfield
      exact String.lt_irrefl _ ((List.cons.inj heq).1 ▸ hlt)

end

end Json

end Understudy
