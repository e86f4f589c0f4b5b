import Understudy.AttributeSet.Document
import Understudy.Proofs.AttributeSet.WrittenQuery
import Understudy.Proofs.Json.Canonical
import Understudy.Proofs.Json.Grammar
import Understudy.Proofs.Json.Leaves

/-!
# Understudy.Proofs.AttributeSet.Flattening

The attributes of a document are its leaves.

Flattening makes an attribute of each leaf of a document (`leaves_eq`). Its name is the path to the
leaf with points between the names on it, and as long as no name is empty or has a point itself, the
path can be told from it (`joined_inj`). Then no leaf takes the place of another one, and the set
has as many attributes as the document has leaves (`attributes_of_object`).
-/

namespace Understudy

namespace Json

/-- Whether no name of a field that is reached through objects alone is empty or has a point. -/
def PlainNames (j : Json) : Prop :=
  ∀ path leaf, j.Reaches path leaf → ∀ name ∈ path, name ≠ "" ∧ '.' ∉ name.toList

/-- The names of an object are plain if those of its fields and of their values are. -/
theorem plainNames_object {fields : List (String × Json)} :
    (object fields).PlainNames ↔
      ∀ field ∈ fields, (field.1 ≠ "" ∧ '.' ∉ field.1.toList) ∧ field.2.PlainNames := by
  constructor
  · intro h field hfield
    refine ⟨h _ _ (.field hfield (.here _)) _ List.mem_cons_self, fun path leaf hreaches => ?_⟩
    exact fun name hname => h _ _ (.field hfield hreaches) name (List.mem_cons_of_mem _ hname)
  · intro h path leaf hreaches name hname
    cases hreaches with
    | here => cases hname
    | field hfield hreaches =>
      obtain ⟨hplain, hvalue⟩ := h _ hfield
      rcases List.mem_cons.mp hname with rfl | hname
      · exact hplain
      · exact hvalue _ _ hreaches name hname

/-- In anything but an object no names are reached. -/
theorem plainNames_of_not_object {j : Json} (h : ∀ fields, j ≠ .object fields) : j.PlainNames := by
  intro path leaf hreaches name hname
  cases hreaches with
  | here => cases hname
  | field => exact absurd rfl (h _)

end Json

namespace Text

variable {α : Type} [DecidableEq α]

/-- Parts that were joined with a separator are found again. -/
theorem fields_intercalate {sep : α} {parts : List (List α)} (hne : parts ≠ [])
    (h : ∀ part ∈ parts, sep ∉ part) : fields sep ([sep].intercalate parts) = parts := by
  induction parts with
  | nil => exact absurd rfl hne
  | cons part parts ih =>
    obtain ⟨hpart, hparts⟩ := List.forall_mem_cons.mp h
    cases parts with
    | nil =>
      rw [List.intercalate_singleton]
      exact fields_of_not_mem hpart
    | cons next parts =>
      rw [List.intercalate_cons_cons, List.append_assoc, List.singleton_append,
        fields_append_cons, fields_of_not_mem hpart, ih (List.cons_ne_nil _ _) hparts]
      rfl

end Text

namespace AttributeSet

/-! ### Names -/

/-- The name of a path: the names on it with points between them. -/
def joined (path : List String) : String := ".".intercalate path

theorem joined_cons_cons (first next : String) (path : List String) :
    joined (first :: next :: path) = joined ((first ++ "." ++ next) :: path) := by
  cases path with
  | nil => simp [joined]
  | cons other path => simp [joined, ← String.toList_inj, String.toList_intercalate]

/-- Names that are not empty are put together along a path as they are joined. -/
theorem foldl_fieldName {outer : String} (houter : outer ≠ "") {path : List String}
    (h : ∀ name ∈ path, name ≠ "") : path.foldl fieldName outer = joined (outer :: path) := by
  induction path generalizing outer with
  | nil => simp [joined]
  | cons name path ih =>
    obtain ⟨hname, hpath⟩ := List.forall_mem_cons.mp h
    have hinner : outer ++ "." ++ name ≠ "" := by simp
    rw [List.foldl_cons, fieldName, if_neg houter, ih hinner hpath, joined_cons_cons]

theorem foldl_fieldName_root {path : List String} (h : ∀ name ∈ path, name ≠ "") :
    path.foldl fieldName "" = joined path := by
  cases path with
  | nil => rfl
  | cons name path =>
    obtain ⟨hname, hpath⟩ := List.forall_mem_cons.mp h
    rw [List.foldl_cons, fieldName, if_pos rfl, foldl_fieldName hname hpath]

/-- A path can be told from its name if none of the names on it has a point. -/
theorem joined_inj {path other : List String} (hne : path ≠ []) (hne' : other ≠ [])
    (h : ∀ name ∈ path, '.' ∉ name.toList) (h' : ∀ name ∈ other, '.' ∉ name.toList)
    (heq : joined path = joined other) : path = other := by
  have hfields {path : List String} (hne : path ≠ []) (h : ∀ name ∈ path, '.' ∉ name.toList) :
      Text.fields '.' (joined path).toList = path.map String.toList := by
    rw [joined, String.toList_intercalate]
    exact Text.fields_intercalate (by simpa using hne) (by simpa using h)
  have hmap := hfields hne h
  rw [heq, hfields hne' h'] at hmap
  exact (List.map_injective_iff.mpr fun _ _ => String.toList_inj.mp) hmap.symm

/-! ### Attributes -/

/-- The attribute of a leaf. -/
def ofLeaf (leaf : List String × String) : Attribute := ⟨joined leaf.1, .literal leaf.2, .present⟩

mutual

/-- Flattening makes an attribute of each leaf. -/
theorem leaves_eq : (j : Json) → (outer : String) →
    leaves outer j =
      j.scalars.map fun leaf => ⟨leaf.1.foldl fieldName outer, .literal leaf.2, .present⟩
  | .null, _ | .array _, _ | .bool _, _ | .number _, _ | .string _, _ => rfl
  | .object fields, outer => by
    rw [leaves, fieldLeaves_eq fields outer]
    rfl

theorem fieldLeaves_eq : (fields : List (String × Json)) → (outer : String) →
    fieldLeaves outer fields = (Json.fieldScalars fields).map fun leaf =>
      ⟨leaf.1.foldl fieldName outer, .literal leaf.2, .present⟩
  | [], _ => rfl
  | (name, value) :: rest, outer => by
    rw [fieldLeaves, leaves_eq value, fieldLeaves_eq rest, Json.fieldScalars, List.map_append,
      List.map_map]
    rfl

end

theorem nodup_names (s : AttributeSet) : (s.toList.map (·.name)).Nodup := by
  have hnames : s.toList.map (·.name) = s.entries.map Prod.fst := by
    rw [toList, List.map_map]
    rfl
  rw [hnames, List.Nodup, List.pairwise_map]
  refine s.sorted.imp ?_
  intro a b hlt heq
  rw [heq] at hlt
  exact String.lt_irrefl _ hlt

/-- Attributes under distinct names are all in the set that is made of them. -/
theorem toList_ofList_perm {as : List Attribute} (h : (as.map (·.name)).Nodup) :
    (ofList as).toList.Perm as := by
  have hmem (a : Attribute) (ha : a ∈ as) : a ∈ (ofList as).toList := by
    rw [mem_toList, get?_ofList, last?]
    cases hfind : as.reverse.find? fun b => b.name = a.name with
    | none =>
      rw [List.find?_eq_none] at hfind
      exact absurd (decide_eq_true rfl) (hfind a (List.mem_reverse.mpr ha))
    | some b =>
      have hb : b ∈ as := List.mem_reverse.mp (List.mem_of_find?_eq_some hfind)
      have hname : b.name = a.name := by simpa using List.find?_some hfind
      rw [List.inj_on_of_nodup_map h hb ha hname]
      rfl
  have hset : (ofList as).toList.Nodup := List.Nodup.of_map _ (nodup_names _)
  rw [List.perm_ext_iff_of_nodup hset (List.Nodup.of_map _ h)]
  exact fun a => ⟨mem_of_mem_ofList, hmem a⟩

/-! ### Objects -/

/-- The names of the leaves of a canonical object are distinct if its names of fields are plain. -/
theorem nodup_joined {fields : List (String × Json)} (hcanonical : (Json.object fields).Canonical)
    (hplain : (Json.object fields).PlainNames) :
    ((Json.object fields).scalars.map fun leaf => joined leaf.1).Nodup := by
  have hpath {leaf : List String × String} (h : leaf ∈ (Json.object fields).scalars) :
      leaf.1 ≠ [] ∧ ∀ name ∈ leaf.1, '.' ∉ name.toList := by
    obtain ⟨path, text⟩ := leaf
    obtain ⟨value, hreaches, htext⟩ := Json.mem_scalars.mp h
    refine ⟨?_, fun name hname => (hplain path value hreaches name hname).2⟩
    rintro rfl
    cases hreaches
    cases htext
  refine (Json.nodup_scalars _ hcanonical).of_map _ |>.map_on ?_
  intro leaf hleaf other hother heq
  obtain ⟨hne, hpoints⟩ := hpath hleaf
  obtain ⟨hne', hpoints'⟩ := hpath hother
  have hsame : leaf.1 = other.1 := joined_inj hne hne' hpoints hpoints' heq
  exact List.inj_on_of_nodup_map (Json.nodup_scalars _ hcanonical) hleaf hother hsame

/-- A text that spells an object has the attributes of its leaves. -/
theorem toList_ofBody_perm {text : String} {fields : List (String × Json)}
    (hparse : Json.parse? text = some (.object fields))
    (hplain : (Json.object fields).PlainNames) :
    (ofBody text).toList.Perm ((Json.object fields).scalars.map ofLeaf) := by
  have hcanonical := Json.canonical_of_parse? hparse
  have hleaves : fieldLeaves "" fields = (Json.object fields).scalars.map ofLeaf := by
    rw [fieldLeaves_eq]
    refine List.map_congr_left fun leaf hleaf => ?_
    obtain ⟨value, hreaches, -⟩ := (Json.mem_scalars (j := .object fields)).mp hleaf
    have hnames : ∀ name ∈ leaf.1, name ≠ "" := fun name hname =>
      (hplain leaf.1 value hreaches name hname).1
    rw [foldl_fieldName_root hnames]
    rfl
  have hnames : ((fieldLeaves "" fields).map (·.name)).Nodup := by
    rw [hleaves, List.map_map]
    exact nodup_joined hcanonical hplain
  rw [ofBody, hparse, ← hleaves]
  exact toList_ofList_perm hnames

/-- **Flattening.** A text that spells an object, nested no deeper than the reader goes and with
plain names of fields, has

* exactly one attribute for each text, number or truth value that is reached through objects alone,
  present with what it says as a literal value, under its path with points between the names;
* no other attribute, and no two of these have one name.

Every other text has no attributes. -/
theorem attributes_of_object (text : String) :
    (∀ fields, Json.Spells text (.object fields) →
      (Json.object fields).depth ≤ Json.Reader.maxDepth →
      let document := (Json.object fields).canonical
      document.PlainNames →
      (ofBody text).toList.Perm (document.scalars.map ofLeaf) ∧
      (ofBody text).size = document.scalars.length ∧
      (document.scalars.map fun leaf => joined leaf.1).Nodup ∧
      ∀ path said, (path, said) ∈ document.scalars ↔
        ∃ leaf, document.Reaches path leaf ∧ leaf.scalarText? = some said) ∧
    ((¬ ∃ fields, Json.Spells text (.object fields) ∧
      (Json.object fields).depth ≤ Json.Reader.maxDepth) → ofBody text = empty) := by
  refine ⟨?_, ?_⟩
  · intro fields hspells hdepth document hplain
    have hparse : Json.parse? text = some document := by
      rw [Json.parse?, Json.read?_eq_some_iff.mpr ⟨hspells, hdepth⟩, Option.map_some]
    have hcanonical : document.Canonical := Json.canonical_of_parse? hparse
    have hperm := toList_ofBody_perm hparse hplain
    refine ⟨hperm, ?_, nodup_joined hcanonical hplain, fun _ _ => Json.mem_scalars⟩
    have hlength := hperm.length_eq
    rwa [toList, List.length_map, List.length_map] at hlength
  · intro hno
    rw [ofBody]
    cases hread : Json.read? text with
    | none => rw [Json.parse?, hread, Option.map_none]
    | some written =>
      rw [Json.parse?, hread, Option.map_some]
      cases written with
      | object fields => exact absurd ⟨fields, Json.read?_eq_some_iff.mp hread⟩ hno
      | null | bool | number | string | array => rfl

/-- A star, a null and an array among the values: the star is a literal, and the others have no
attributes. A text that spells an array has none at all. -/
theorem attributes_of_object_nested :
    let document : Json := .object [
      ("a", .object [("b", .string "*"), ("c", .array [.object [("d", .bool true)]])]),
      ("e", .null), ("f", .bool false), ("g", .number (.int (-3) (by decide)))]
    let array : Json := .array [document]
    document.canonical.PlainNames ∧
    (ofBody document.text).toList.Perm [⟨"a.b", .literal "*", .present⟩,
      ⟨"f", .literal "false", .present⟩, ⟨"g", .literal "-3", .present⟩] ∧
    (ofBody document.text).size = 3 ∧ ofBody array.text = empty := by
  intro document array
  have hcanonical : document.canonical = document := by rfl
  have hplain : document.PlainNames := by
    have hnone {j : Json} (h : ∀ fields, j ≠ .object fields) := Json.plainNames_of_not_object h
    simp [document, Json.plainNames_object, hnone]
  have hspells : Json.Spells document.text document := Json.spells_text (by decide)
  have hleaves : document.scalars.map ofLeaf = [⟨"a.b", .literal "*", .present⟩,
      ⟨"f", .literal "false", .present⟩, ⟨"g", .literal "-3", .present⟩] := by decide +kernel
  obtain ⟨hperm, hsize, -⟩ :=
    (attributes_of_object document.text).1 _ hspells (by decide) (hcanonical.symm ▸ hplain)
  rw [hcanonical] at hperm hsize
  refine ⟨hcanonical.symm ▸ hplain, hleaves ▸ hperm, hsize, ?_⟩
  -- what spells an array does not spell an object
  refine (attributes_of_object array.text).2 ?_
  rintro ⟨fields, hfields, -⟩
  have harray : Json.Spells array.text array := Json.spells_text (by decide)
  have htokens := Option.some.inj (harray.symm.trans hfields)
  cases (List.cons.inj htokens).1

end AttributeSet

end Understudy
