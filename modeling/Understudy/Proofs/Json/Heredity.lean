import Understudy.Json.Patch
import Understudy.Proofs.Json.Canonical

/-!
# Understudy.Proofs.Json.Heredity

What patches keep.

A patch puts together parts of a document and of its own values, and nothing else. So it keeps every
property that a document has exactly if its parts have it (`Hereditary`): the step lemmas say so of
what one operation does at one step of a pointer, and `Hereditary.patch` of a whole patch. Being
canonical is such a property, and having no floats is another.
-/

namespace Understudy

namespace Json

/-- The value that an operation puts into a document. -/
def Operation.put? : Operation → Option Json
  | .add _ value | .replace _ value => some value
  | _ => none

theorem Pointer.lt_of_itemIndex? {step : String} {length i : Nat}
    (h : itemIndex? step length = some i) : i < length := by
  obtain ⟨k, -, hk⟩ := Option.bind_eq_some_iff.mp h
  split at hk
  · next hlt =>
    cases hk
    exact hlt
  · cases hk

theorem orElse_eq_ok {α : Type} {value? : Option α} {obstacle : Obstacle} {a : α}
    (h : orElse value? obstacle = .ok a) : value? = some a := by
  cases value? with
  | none => cases h
  | some b =>
    cases h
    rfl

/-- A property that a document has exactly if all its parts have it, where the fields of each object
also have a shape that is kept when one is put or dropped. -/
structure Hereditary (P : Json → Prop) (shape : List (String × Json) → Prop) : Prop where
  array_iff : ∀ {items}, P (.array items) ↔ ∀ item ∈ items, P item
  object_iff : ∀ {fields}, P (.object fields) ↔ shape fields ∧ ∀ field ∈ fields, P field.2
  shape_insert : ∀ {fields name value}, shape fields → shape (Keyed.insert name value fields)
  shape_erase : ∀ {fields name}, shape fields → shape (Keyed.erase name fields)

namespace Hereditary

open Pointer

variable {P : Json → Prop} {shape : List (String × Json) → Prop} (h : Hereditary P shape)
include h

/-! ### Parts -/

theorem child? {step : String} {j part : Json} (hj : P j) (hpart : child? step j = some part) :
    P part := by
  cases j with
  | array items =>
    obtain ⟨i, -, hi⟩ := Option.bind_eq_some_iff.mp hpart
    exact h.array_iff.mp hj part (List.mem_of_getElem? hi)
  | object fields => exact (h.object_iff.mp hj).2 _ (Keyed.mem_of_get? hpart)
  | _ => cases hpart

theorem follow? {steps : List String} {j part : Json} (hj : P j)
    (hpart : follow? steps j = some part) : P part := by
  induction steps generalizing j with
  | nil =>
    cases hpart
    exact hj
  | cons step steps ih =>
    obtain ⟨child, hchild, hpart⟩ := Option.bind_eq_some_iff.mp hpart
    exact ih (h.child? hj hchild) hpart

/-! ### Changes at one step -/

theorem insert_field {fields : List (String × Json)} {value : Json} (hfields : P (.object fields))
    (hvalue : P value) (step : String) : P (.object (Keyed.insert step value fields)) := by
  obtain ⟨hshape, hparts⟩ := h.object_iff.mp hfields
  refine h.object_iff.mpr ⟨h.shape_insert hshape, fun field hfield => ?_⟩
  rcases Keyed.mem_insert hfield with rfl | hfield
  · exact hvalue
  · exact hparts field hfield

/-- What is hereditary stays when a child is replaced. -/
theorem replaceChild {step : String} {value j : Json} (hj : P j) (hvalue : P value) :
    P (replaceChild step value j) := by
  cases j with
  | array items =>
    rw [Pointer.replaceChild]
    split
    · refine h.array_iff.mpr fun item hitem => ?_
      rcases List.mem_or_eq_of_mem_set hitem with hitem | rfl
      · exact h.array_iff.mp hj item hitem
      · exact hvalue
    · exact hj
  | object fields => exact h.insert_field hj hvalue step
  | _ => exact hj

/-- What is hereditary stays when a child is added. -/
theorem addChild? {step : String} {value j j' : Json} (hj : P j) (hvalue : P value)
    (hadd : addChild? step value j = some j') : P j' := by
  cases j with
  | array items =>
    have hitems := h.array_iff.mp hj
    rw [Pointer.addChild?] at hadd
    split at hadd
    · cases hadd
      refine h.array_iff.mpr fun item hitem => ?_
      rcases List.mem_append.mp hitem with hitem | hitem
      · exact hitems item hitem
      · exact List.mem_singleton.mp hitem ▸ hvalue
    · obtain ⟨i, hi, rfl⟩ := Option.map_eq_some_iff.mp hadd
      refine h.array_iff.mpr fun item hitem => ?_
      have hle : i ≤ items.length := Nat.le_of_lt_succ (lt_of_itemIndex? hi)
      rcases (List.mem_insertIdx hle).mp hitem with rfl | hitem
      · exact hvalue
      · exact hitems item hitem
  | object fields =>
    cases hadd
    exact h.insert_field hj hvalue step
  | _ => cases hadd

/-- What is hereditary stays when a child is removed. -/
theorem removeChild? {step : String} {j j' : Json} (hj : P j)
    (hremove : removeChild? step j = some j') : P j' := by
  cases j with
  | array items =>
    obtain ⟨i, -, rfl⟩ := Option.map_eq_some_iff.mp hremove
    exact h.array_iff.mpr fun item hitem =>
      h.array_iff.mp hj item (List.mem_of_mem_eraseIdx hitem)
  | object fields =>
    obtain ⟨-, -, rfl⟩ := Option.map_eq_some_iff.mp hremove
    obtain ⟨hshape, hparts⟩ := h.object_iff.mp hj
    exact h.object_iff.mpr ⟨h.shape_erase hshape, fun field hfield =>
      hparts field (List.mem_filter.mp hfield).1⟩
  | _ => cases hremove

/-! ### Changes at the end of a pointer -/

/-- What is hereditary stays when a part is changed to one that has it. -/
theorem change? {f : Json → Option Json}
    (hf : ∀ {part part'}, P part → f part = some part' → P part') {steps : List String}
    {j j' : Json} (hj : P j) (hchange : change? f steps j = some j') : P j' := by
  induction steps generalizing j j' with
  | nil => exact hf hj hchange
  | cons step steps ih =>
    simp only [Pointer.change?, Option.bind_eq_bind, Option.bind_eq_some_iff] at hchange
    obtain ⟨part, hpart, part', hpart', heq⟩ := hchange
    cases heq
    exact h.replaceChild hj (ih (h.child? hj hpart) hpart')

theorem add? {p : Pointer} {value j j' : Json} (hj : P j) (hvalue : P value)
    (hadd : p.add? value j = some j') : P j' := by
  unfold Pointer.add? at hadd
  split at hadd
  · cases hadd
    exact hvalue
  · exact h.change? (fun hpart hadd => h.addChild? hpart hvalue hadd) hj hadd

theorem remove? {p : Pointer} {j j' : Json} (hj : P j) (hremove : p.remove? j = some j') :
    P j' := by
  unfold Pointer.remove? at hremove
  split at hremove
  · cases hremove
  · exact h.change? h.removeChild? hj hremove

theorem replace? {p : Pointer} {value j j' : Json} (hj : P j) (hvalue : P value)
    (hreplace : p.replace? value j = some j') : P j' :=
  h.change? (fun _ heq => Option.some.inj heq ▸ hvalue) hj hreplace

/-! ### Patches -/

/-- What is hereditary stays when an operation is done with values that have it. -/
theorem operation {op : Operation} (hop : ∀ value ∈ op.put?, P value) {j j' : Json} (hj : P j)
    (happly : op.apply j = .ok j') : P j' := by
  -- every operation is made of changes at the end of a pointer, or leaves the document alone
  cases op with
  | add path value => exact h.add? hj (hop value rfl) (orElse_eq_ok happly)
  | remove path => exact h.remove? hj (orElse_eq_ok happly)
  | replace path value => exact h.replace? hj (hop value rfl) (orElse_eq_ok happly)
  | move source path =>
    rw [Operation.apply] at happly
    split at happly
    · cases happly
    · split at happly
      · next value rest hvalue hrest =>
        exact h.add? (h.remove? hj hrest) (h.follow? hj hvalue) (orElse_eq_ok happly)
      · cases happly
  | copy source path =>
    rw [Operation.apply] at happly
    split at happly
    · next value hvalue => exact h.add? hj (h.follow? hj hvalue) (orElse_eq_ok happly)
    · cases happly
  | test path value =>
    rw [Operation.apply] at happly
    split at happly
    · split at happly
      · cases happly
        exact hj
      · cases happly
    · cases happly

/-- **What a patch keeps.** A document that a patch applies to keeps every hereditary property that
the values of the patch have. -/
theorem patch {patch : Patch} (hpatch : ∀ op ∈ patch, ∀ value ∈ op.put?, P value) {j j' : Json}
    (hj : P j) (happly : patch.apply j = .ok j') : P j' := by
  -- the position of the first operation only matters for errors
  have hfrom : ∀ index, patch.applyFrom index j = .ok j' → P j' := by
    clear happly
    induction patch generalizing j with
    | nil =>
      intro _ happly
      cases happly
      exact hj
    | cons op ops ih =>
      intro index happly
      obtain ⟨hop, hops⟩ := List.forall_mem_cons.mp hpatch
      rw [Patch.applyFrom] at happly
      split at happly
      · next hstep => exact ih hops (h.operation hop hj hstep) _ happly
      · cases happly
  exact hfrom 0 happly

end Hereditary

/-! ### Being canonical, and having no floats -/

theorem hereditary_canonical : Hereditary Canonical Keyed.Sorted where
  array_iff := canonicalItems_iff
  object_iff := and_congr_right fun _ => canonicalFields_iff
  shape_insert := fun hsorted => hsorted.insert _ _
  shape_erase := fun hsorted => hsorted.erase _

theorem itemsIntegral_iff {items : List Json} :
    itemsIntegral items = true ↔ ∀ item ∈ items, item.isIntegral = true := by
  induction items with
  | nil => exact iff_of_true rfl fun _ h => absurd h List.not_mem_nil
  | cons item items ih => rw [itemsIntegral, Bool.and_eq_true, List.forall_mem_cons, ih]

theorem fieldsIntegral_iff {fields : List (String × Json)} :
    fieldsIntegral fields = true ↔ ∀ field ∈ fields, field.2.isIntegral = true := by
  induction fields with
  | nil => exact iff_of_true rfl fun _ h => absurd h List.not_mem_nil
  | cons field fields ih => rw [fieldsIntegral, Bool.and_eq_true, List.forall_mem_cons, ih]

theorem hereditary_integral : Hereditary (fun j => j.isIntegral = true) fun _ => True where
  array_iff := itemsIntegral_iff
  object_iff := fieldsIntegral_iff.trans (and_iff_right trivial).symm
  shape_insert := fun _ => trivial
  shape_erase := fun _ => trivial

/-! ### The values of a patch -/

/-- An operation reads its values in canonical form. -/
theorem Operation.canonical_of_ofValues? {op : String} {values : List Json} {operation : Operation}
    (h : ofValues? op values = some operation) : ∀ value ∈ operation.put?, value.Canonical := by
  unfold ofValues? at h
  split at h
  · obtain ⟨path, -, h⟩ := Option.bind_eq_some_iff.mp h
    split at h <;> cases h
    nofun
  · next first second =>
    split at h
    · obtain ⟨path, -, rfl⟩ := Option.map_eq_some_iff.mp h
      -- only these operations have a value, and it was made canonical as it was read
      rintro _ ⟨⟩
      exact canonical_canonical second
    split at h
    · obtain ⟨path, -, rfl⟩ := Option.map_eq_some_iff.mp h
      rintro _ ⟨⟩
      exact canonical_canonical second
    split at h
    · obtain ⟨path, -, rfl⟩ := Option.map_eq_some_iff.mp h
      nofun
    · obtain ⟨source, -, h⟩ := Option.bind_eq_some_iff.mp h
      obtain ⟨path, -, h⟩ := Option.bind_eq_some_iff.mp h
      split at h
      · cases h
        nofun
      · split at h <;> cases h
        nofun
  · cases h

/-- The values of an operation are canonical. -/
theorem Operation.canonical_of_ofJson? {j : Json} {operation : Operation}
    (h : ofJson? j = some operation) : ∀ value ∈ operation.put?, value.Canonical := by
  unfold ofJson? at h
  split at h
  · obtain ⟨op, -, h⟩ := Option.bind_eq_some_iff.mp h
    split at h
    · obtain ⟨names, -, h⟩ := Option.bind_eq_some_iff.mp h
      obtain ⟨values, -, h⟩ := Option.bind_eq_some_iff.mp h
      exact canonical_of_ofValues? h
    · cases h
  · exact canonical_of_ofValues? h
  · cases h

/-- What a list of results holds comes from a member. -/
theorem mem_of_mapM {α β : Type} {f : α → Option β} {as : List α} {bs : List β}
    (h : as.mapM f = some bs) {b : β} (hb : b ∈ bs) : ∃ a ∈ as, f a = some b := by
  induction as generalizing bs with
  | nil =>
    cases h
    cases hb
  | cons a as ih =>
    rw [List.mapM_cons] at h
    obtain ⟨b', hb', h⟩ := Option.bind_eq_some_iff.mp h
    obtain ⟨bs', hbs', h⟩ := Option.bind_eq_some_iff.mp h
    cases h
    rcases List.mem_cons.mp hb with rfl | hb
    · exact ⟨a, List.mem_cons_self, hb'⟩
    · obtain ⟨a', ha', heq⟩ := ih hbs' hb
      exact ⟨a', List.mem_cons_of_mem _ ha', heq⟩

theorem Patch.canonical_of_parse? {text : String} {patch : Patch} (h : parse? text = some patch) :
    ∀ op ∈ patch, ∀ value ∈ op.put?, value.Canonical := by
  intro op hop
  unfold Patch.parse? at h
  split at h
  · obtain ⟨item, -, hitem⟩ := mem_of_mapM h hop
    exact Operation.canonical_of_ofJson? hitem
  · cases h

end Json

end Understudy
