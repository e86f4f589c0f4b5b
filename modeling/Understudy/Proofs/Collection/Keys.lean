import Understudy.Proofs.AttributeSet.View
import Understudy.Proofs.Collection.Operations

/-!
# Understudy.Proofs.Collection.Keys

The keys of stored resources.

Both ways to make a key end in the same way: the attributes of the body come last, over all others,
and what is not present with a literal value is dropped. The attributes of a body are never dropped,
since a document only has literal ones. So each resource that is put *fits*: its key can be a key,
and describes its body (`fits_of_union`). Putting resources keeps the keys distinct, and dropping
some keeps everything. `WellKeyed` collects this, and `keys_of_runs` has it for all runs.
-/

namespace Understudy

namespace AttributeSet

/-! ### The attributes of a body -/

mutual

/-- The attributes of a value are present, and literal. -/
theorem literal_of_mem_leaves {name : String} {document : Json} {a : Attribute}
    (ha : a ∈ leaves name document) : a.kind = .present ∧ ∃ text, a.value = .literal text := by
  cases document with
  | null => cases ha
  | bool b =>
    rw [List.mem_singleton.mp ha]
    exact ⟨rfl, _, rfl⟩
  | number n =>
    rw [List.mem_singleton.mp ha]
    exact ⟨rfl, _, rfl⟩
  | string s =>
    rw [List.mem_singleton.mp ha]
    exact ⟨rfl, _, rfl⟩
  | array items => cases ha
  | object fields =>
    rw [leaves] at ha
    exact literal_of_mem_fieldLeaves ha

/-- The attributes of fields are present, and literal. -/
theorem literal_of_mem_fieldLeaves {outer : String} {fields : List (String × Json)}
    {a : Attribute} (ha : a ∈ fieldLeaves outer fields) :
    a.kind = .present ∧ ∃ text, a.value = .literal text := by
  cases fields with
  | nil => cases ha
  | cons field rest =>
    obtain ⟨name, value⟩ := field
    rw [fieldLeaves] at ha
    rcases List.mem_append.mp ha with ha | ha
    · exact literal_of_mem_leaves ha
    · exact literal_of_mem_fieldLeaves ha

end

theorem isKey_empty : empty.IsKey := by
  intro a ha
  cases ha

theorem isKey_ofList {as : List Attribute}
    (h : ∀ a ∈ as, a.kind = .present ∧ ∃ text, a.value = .literal text) :
    (ofList as).IsKey := by
  intro a ha
  exact h a (mem_of_mem_ofList ha)

/-- A body has no other attributes than a key can have. -/
theorem isKey_ofBody (body : String) : (ofBody body).IsKey := by
  unfold ofBody
  split
  · unfold ofDocument
    split
    · exact isKey_ofList fun a ha => literal_of_mem_fieldLeaves ha
    · exact isKey_empty
  · exact isKey_empty

end AttributeSet

namespace Collection

open AttributeSet (ofPath ofBody)

/-! ### Resources that fit -/

/-- A resource whose key describes its body. -/
structure Resource.Fits (r : Resource) : Prop where
  isKey : r.key.IsKey
  describes : ∀ a ∈ (ofBody r.body).toList, a ∈ r.key.toList

theorem fits_of_union (s : AttributeSet) (body : String) :
    (⟨(s.union (ofBody body)).presentOnly, body⟩ : Resource).Fits where
  isKey := AttributeSet.isKey_presentOnly _
  describes := fun _ ha => (AttributeSet.isKey_ofBody body).mem_presentOnly_union s ha

/-- Every condition on a field of the body holds. -/
theorem Resource.Fits.satisfies {r : Resource} (hr : r.Fits) {query : AttributeSet}
    (h : ∀ a ∈ query.toList, a ∈ (ofBody r.body).toList) : r.key.satisfies query = true := by
  have hquery : query.IsKey := fun a ha => AttributeSet.isKey_ofBody r.body a (h a ha)
  exact hquery.satisfies fun a ha => hr.describes a (h a ha)

section Rules

variable {rules : Rules} (hbody : rules.ofBody = ofBody)
include hbody

theorem fits_key (path body : String) : (⟨rules.key path body, body⟩ : Resource).Fits := by
  rw [Rules.key, AttributeSet.merge_pair, hbody]
  exact fits_of_union _ body

theorem fits_patchResource {path : String} {change : Change} {r u : Resource}
    (h : patchResource rules path change r = .ok u) : u.Fits := by
  obtain ⟨body, -, rfl⟩ := patchResource_eq_ok.mp h
  rw [rekey, AttributeSet.merge_triple, hbody]
  exact fits_of_union _ body

end Rules

/-! ### Collections of them -/

/-- What holds of a collection at every point of a run. -/
structure WellKeyed (c : Collection) : Prop where
  distinct : (c.resources.map (·.key)).Nodup
  fits : ∀ r ∈ c.resources, r.Fits

theorem stored_of_fits {rs : List Resource} (h : ∀ r ∈ rs, r.Fits) : Stored rs :=
  fun r hr => (h r hr).isKey

theorem WellKeyed.stored {c : Collection} (hc : c.WellKeyed) : Stored c.resources :=
  stored_of_fits hc.fits

theorem wellKeyed_empty : empty.WellKeyed where
  distinct := List.nodup_nil
  fits := fun _ hr => by cases hr

/-- Dropping resources. -/
theorem WellKeyed.sublist {c : Collection} (hc : c.WellKeyed) {rs : List Resource}
    (h : rs.Sublist c.resources) : (⟨rs⟩ : Collection).WellKeyed where
  distinct := (h.map _).nodup hc.distinct
  fits := fun r hr => hc.fits r (h.subset hr)

/-- Putting resources that fit. -/
theorem WellKeyed.putAll {c : Collection} (hc : c.WellKeyed) {new : List Resource}
    (h : ∀ r ∈ new, r.Fits) : (⟨Collection.putAll c.resources new⟩ : Collection).WellKeyed where
  distinct := nodup_keys_putAll (stored_of_fits h) hc.stored hc.distinct
  fits := fun r hr => (mem_putAll (stored_of_fits h) hc.stored hr).elim (h r) (hc.fits r)

/-- Every operation keeps a collection well keyed. -/
theorem WellKeyed.apply {rules : Rules} (hbody : rules.ofBody = ofBody) {c : Collection}
    (hc : c.WellKeyed) (op : Operation) : (op.apply rules c).WellKeyed := by
  cases op with
  | create path body =>
    have hnew : ∀ r ∈ [(⟨rules.key path body, body⟩ : Resource)], r.Fits := by
      intro r hr
      rw [List.mem_singleton.mp hr]
      exact fits_key hbody path body
    exact hc.putAll hnew
  | patch path text =>
    rw [Operation.apply]
    split
    · rename_i response d h
      rcases patch_eq_ok h with ⟨-, -, rfl⟩ | ⟨change, us, -, -, hus, -, rfl⟩
      · exact hc
      · -- what was selected is dropped, and its patched form is put after the others
        refine (hc.sublist (others_sublist rules path c)).putAll fun u hu => ?_
        obtain ⟨r, -, hr⟩ := exists_of_patchResources hus hu
        exact fits_patchResource hbody hr
    · exact hc
  | get path => exact hc
  | delete path =>
    have hrest := hc.sublist (others_sublist rules path c)
    rw [← delete_resources] at hrest
    exact hrest
  | clear => exact wellKeyed_empty

theorem WellKeyed.after {rules : Rules} (hbody : rules.ofBody = ofBody) {c : Collection}
    (hc : c.WellKeyed) (ops : List Operation) : (c.after rules ops).WellKeyed := by
  induction ops generalizing c with
  | nil => exact hc
  | cons op ops ih => exact ih (hc.apply hbody op)

/-- A body that is created is there, under its key. -/
theorem WellKeyed.mem_create {rules : Rules} (hbody : rules.ofBody = ofBody) {c : Collection}
    (hc : c.WellKeyed) (path body : String) :
    ⟨rules.key path body, body⟩ ∈ (c.create rules path body).2.resources :=
  self_mem_put (fits_key hbody path body).isKey hc.stored

/-- **Keys.** After every sequence of operations on a collection of JSON documents:

* the key of each resource has present attributes with literal values, and no others;
* the keys of two resources differ in a name or a value;
* each attribute of a body is in its key, and so every query for some of them selects the body;
* a body that is created next is stored under its key. -/
theorem keys_of_runs (compose : List String → String) (ofPatch? : String → Option Change)
    (ops : List Operation) :
    let rules : Rules := .documents compose ofPatch?
    let c := empty.after rules ops
    (∀ r ∈ c.resources, ∀ a ∈ r.key.toList,
      a.kind = .present ∧ ∃ text, a.value = .literal text) ∧
    (c.resources.map (·.key)).Pairwise (fun k l => k.equivalent l = false) ∧
    (∀ r ∈ c.resources, ∀ a ∈ (ofBody r.body).toList, a ∈ r.key.toList) ∧
    (∀ r ∈ c.resources, ∀ query : AttributeSet,
      (∀ a ∈ query.toList, a ∈ (ofBody r.body).toList) → r.key.satisfies query = true) ∧
    ∀ path body, ⟨rules.key path body, body⟩ ∈ (c.create rules path body).2.resources := by
  intro rules c
  have hc : c.WellKeyed := wellKeyed_empty.after rfl ops
  refine ⟨fun r hr => (hc.fits r hr).isKey, ?_, fun r hr => (hc.fits r hr).describes,
    fun r hr query h => (hc.fits r hr).satisfies h, hc.mem_create rfl⟩
  have hkeys : ∀ k ∈ c.resources.map (·.key), k.IsKey := by
    intro k hk
    obtain ⟨r, hr, rfl⟩ := List.mem_map.mp hk
    exact (hc.fits r hr).isKey
  refine hc.distinct.imp_of_mem fun hk hl hne => ?_
  rw [Bool.eq_false_iff, Ne, (hkeys _ hk).equivalent_iff (hkeys _ hl)]
  exact hne

end Collection

end Understudy
