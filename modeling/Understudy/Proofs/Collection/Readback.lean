import Understudy.Proofs.Collection.Keys

/-!
# Understudy.Proofs.Collection.Readback

What a path selects after it has addressed a patch.

The new key of a resource has the attributes that the addressing query asks for, unless the new body
gives one of them another value. So a query that only asks for literal values still selects what it
has patched (`satisfies_rekey`). It selects nothing else: the resources that it did not select have
not changed, and none of them has the key of one that it selects (`putAll_others`). The patched
resources are therefore what a `get` of the same path answers, in the order in which they were
patched. Nothing is assumed of what a patch does to a document.
-/

namespace Understudy

namespace AttributeSet

/-! ### Queries for literal values -/

/-- A path asks for literal values only if all its conditions do. -/
theorem isKey_ofPath {path : String}
    (h : ∀ a ∈ conditions (splitPath path.toList).2,
      a.kind = .present ∧ ∃ text, a.value = .literal text) : (ofPath path).IsKey := by
  refine isKey_ofList ?_
  intro a ha
  rcases List.mem_cons.mp ha with rfl | ha
  · exact ⟨rfl, _, rfl⟩
  · exact h a ha

/-- Attributes of a key stay under another key that is put over it and agrees on them. -/
theorem IsKey.mem_union_of_agrees {s t : AttributeSet} (ht : t.IsKey) {a : Attribute}
    (ha : a ∈ s.toList) (hkind : a.kind = .present)
    (hagrees : ∀ b ∈ t.toList, b.name = a.name → b.value = a.value) :
    a ∈ (s.union t).toList := by
  rw [mem_toList] at ha
  rw [mem_toList, get?_union]
  cases hget : t.get? a.name with
  | none => exact ha
  | some found =>
    have hb : (⟨a.name, found.1, found.2⟩ : Attribute) ∈ t.toList := mem_toList.mpr hget
    have hvalue : found.1 = a.value := hagrees _ hb rfl
    have hpresent : found.2 = .present := (ht _ hb).1
    rw [Option.some_or, hkind, ← hvalue, ← hpresent]

end AttributeSet

namespace Collection

open AttributeSet (ofPath ofBody conditions splitPath)

/-! ### Keys after a patch -/

/-- Whether a body gives none of the attributes of a query another value. -/
def Allows (rules : Rules) (path body : String) : Prop :=
  ∀ a ∈ (rules.ofPath path).toList, ∀ b ∈ (rules.ofBody body).toList,
    b.name = a.name → b.value = a.value

instance (rules : Rules) (path body : String) : Decidable (Allows rules path body) :=
  inferInstanceAs (Decidable (∀ a ∈ (rules.ofPath path).toList, ∀ b ∈ (rules.ofBody body).toList,
    b.name = a.name → b.value = a.value))

section Rules

variable {rules : Rules} {path : String}

/-- The addressing query still selects what it has patched. -/
theorem satisfies_rekey (hbody : rules.ofBody = ofBody) (hpath : (rules.ofPath path).IsKey)
    {r : Resource} {body : String} (hallows : Allows rules path body) :
    (rekey rules path r body).satisfies (rules.ofPath path) = true := by
  refine hpath.satisfies ?_
  intro a ha
  have hnew : (rules.ofBody body).IsKey := by
    rw [hbody]
    exact AttributeSet.isKey_ofBody body
  have hasked : a ∈ ((r.key.withoutKeysOf (rules.ofBody r.body)).union
      (rules.ofPath path).presentOnly).toList := by
    rw [hpath.presentOnly_eq]
    exact AttributeSet.mem_toList_union.mpr (Or.inr ha)
  have hkept : a ∈ (((r.key.withoutKeysOf (rules.ofBody r.body)).union
      (rules.ofPath path).presentOnly).union (rules.ofBody body)).toList :=
    hnew.mem_union_of_agrees hasked (hpath a ha).1 (hallows a ha)
  rw [rekey, AttributeSet.merge_triple]
  exact AttributeSet.mem_toList_presentOnly.mpr ⟨hkept, hpath a ha⟩

theorem selectedBy_of_patchResources (hbody : rules.ofBody = ofBody)
    (hpath : (rules.ofPath path).IsKey) {change : Change} {rs us : List Resource}
    (hus : patchResources rules path change rs = .ok us)
    (hallows : ∀ u ∈ us, Allows rules path u.body) :
    ∀ u ∈ us, u.selectedBy rules path = true := by
  intro u hu
  obtain ⟨r, -, hr⟩ := exists_of_patchResources hus hu
  obtain ⟨body, -, rfl⟩ := patchResource_eq_ok.mp hr
  exact satisfies_rekey hbody hpath (hallows _ hu)

/-! ### Resources after a patch -/

/-- Resources that a path selects do not take the place of those that it does not select. -/
theorem putAll_others {c : Collection} (hc : Stored c.resources) {us : List Resource}
    (hstored : Stored us) (hdistinct : (us.map (·.key)).Nodup)
    (hus : ∀ u ∈ us, u.selectedBy rules path = true) :
    putAll (c.others rules path) us = c.others rules path ++ us := by
  refine putAll_of_fresh hstored (hc.sublist (others_sublist rules path c)) hdistinct ?_
  intro r hr u hu heq
  have hno : r.selectedBy rules path = false := selectedBy_of_mem_others hr
  rw [Resource.selectedBy, heq] at hno
  have hyes := hus u hu
  rw [Resource.selectedBy, hno] at hyes
  cases hyes

theorem selected_append (c : Collection) {us : List Resource}
    (hus : ∀ u ∈ us, u.selectedBy rules path = true) :
    (⟨c.others rules path ++ us⟩ : Collection).selected rules path = us := by
  have hothers : (c.others rules path).filter (·.selectedBy rules path) = [] := by
    rw [List.filter_eq_nil_iff]
    intro r hr
    simp [selectedBy_of_mem_others hr]
  rw [selected, List.filter_append, hothers, List.filter_eq_self.mpr hus, List.nil_append]

/-- What the path selects makes no difference to the others. -/
theorem others_append (c : Collection) {us : List Resource}
    (hus : ∀ u ∈ us, u.selectedBy rules path = true) :
    (⟨c.others rules path ++ us⟩ : Collection).others rules path = c.others rules path := by
  have hnone : us.filter (fun u => !u.selectedBy rules path) = [] := by
    rw [List.filter_eq_nil_iff]
    intro u hu
    simp [hus u hu]
  have hall : (c.others rules path).filter (fun r => !r.selectedBy rules path) =
      c.others rules path := by
    rw [List.filter_eq_self]
    intro r hr
    simp [selectedBy_of_mem_others hr]
  rw [others, List.filter_append, hnone, hall, List.append_nil]

end Rules

/-- **Reading a patch back.** After any operations on a collection of JSON documents, let a path ask
for literal values only, and let a patch that it addresses go through, whatever it makes of
documents. If the new keys differ, and no new body gives an attribute of the path another value,
then afterwards

* the same path is answered with what the patch has answered;
* it selects the patched resources, in the same order;
* the resources that it did not select are all there, unchanged and in their order. -/
theorem get_after_patch (compose : List String → String) (ofPatch? : String → Option Change)
    (ops : List Operation) (path text : String) {response : Response} {d : Collection}
    (hquery : ∀ a ∈ conditions (splitPath path.toList).2,
      a.kind = .present ∧ ∃ value, a.value = .literal value)
    (hpatch : (empty.after (.documents compose ofPatch?) ops).patch (.documents compose ofPatch?)
      path text = .ok (response, d))
    (hstatus : response.status = 202) :
    let rules : Rules := .documents compose ofPatch?
    let c := empty.after rules ops
    ∃ change us, rules.ofPatch? text = some change ∧
      patchResources rules path change (c.selected rules path) = .ok us ∧
      ((us.map (·.key)).Nodup → (∀ u ∈ us, Allows rules path u.body) →
        d.get rules path = ⟨200, response.headers, response.body, response.delay⟩ ∧
        d.selected rules path = us ∧
        d.others rules path = c.others rules path ∧
        d.resources = c.others rules path ++ us) := by
  intro rules c
  have hc : Stored c.resources := (wellKeyed_empty.after rfl ops).stored
  rcases patch_eq_ok hpatch with ⟨-, rfl, -⟩ | ⟨change, us, hne, hparse, hus, rfl, rfl⟩
  · -- a path that selects nothing is answered with another status
    cases hstatus
  · refine ⟨change, us, hparse, hus, ?_⟩
    intro hdistinct hallows
    have hbody : rules.ofBody = ofBody := rfl
    have hpath : (rules.ofPath path).IsKey := AttributeSet.isKey_ofPath hquery
    -- a path that asks for literal values only is in the new key of everything it selects
    have hselected : ∀ u ∈ us, u.selectedBy rules path = true :=
      selectedBy_of_patchResources hbody hpath hus hallows
    have hnonempty : us ≠ [] := by
      intro hnil
      have hlength := length_of_patchResources hus
      rw [hnil, List.length_nil, eq_comm, List.length_eq_zero_iff] at hlength
      exact hne hlength
    have hresources : putAll (c.others rules path) us = c.others rules path ++ us :=
      putAll_others hc (stored_of_patchResources hus) hdistinct hselected
    rw [show putAll ((empty.after _ ops).others (.documents compose ofPatch?) path) us = _ from
      hresources]
    exact ⟨get_of_selected (selected_append c hselected) hnonempty,
      selected_append c hselected, others_append c hselected, rfl⟩

/-- Two of three resources are patched, and the path that has addressed the patch answers both. -/
theorem get_after_patch_several :
    let rules : Rules := .documents Rules.bracketed Json.Patch.change?
    let ops : List Operation := [.create "/items" "\x7b\"kind\":\"pod\",\"n\":1\x7d",
      .create "/items" "\x7b\"kind\":\"job\",\"n\":2\x7d",
      .create "/items" "\x7b\"kind\":\"pod\",\"n\":3\x7d"]
    let c := empty.after rules ops
    let path := "/items?kind=pod"
    let text := "[\x7b\"op\":\"copy\",\"from\":\"/kind\",\"path\":\"/was\"\x7d]"
    (∀ a ∈ conditions (splitPath path.toList).2,
      a.kind = .present ∧ ∃ value, a.value = .literal value) ∧
    ∃ response d, c.patch rules path text = .ok (response, d) ∧ response.status = 202 ∧
      d.get rules path = ⟨200, response.headers, response.body, response.delay⟩ ∧
      (d.selected rules path).map (·.body) =
        ["\x7b\"kind\":\"pod\",\"n\":1,\"was\":\"pod\"\x7d",
          "\x7b\"kind\":\"pod\",\"n\":3,\"was\":\"pod\"\x7d"] := by
  intro rules ops c path text
  have hquery : ∀ a ∈ conditions (splitPath path.toList).2,
      a.kind = .present ∧ ∃ value, a.value = .literal value := by
    have hconditions : conditions (splitPath path.toList).2 =
        [⟨"kind", .literal "pod", .present⟩] := by decide +kernel
    rw [hconditions]
    intro a ha
    rw [List.mem_singleton.mp ha]
    exact ⟨rfl, _, rfl⟩
  have hstatus : (c.patch rules path text).toOption.map (·.1.status) = some 202 := by
    decide +kernel
  have hchanged : ((rules.ofPatch? text).bind fun change =>
      (patchResources rules path change (c.selected rules path)).toOption.map fun us =>
        (us.map (·.body), decide (us.map (·.key)).Nodup,
          decide (∀ u ∈ us, Allows rules path u.body))) =
      some (["\x7b\"kind\":\"pod\",\"n\":1,\"was\":\"pod\"\x7d",
        "\x7b\"kind\":\"pod\",\"n\":3,\"was\":\"pod\"\x7d"], true, true) := by
    decide +kernel
  refine ⟨hquery, ?_⟩
  -- what has been computed is kept as facts, and the values are forgotten
  clear_value ops path text
  obtain ⟨response, d, hpatch, hstatus⟩ := exists_patch_of_status hstatus
  obtain ⟨change, us, hparse, hus, hget⟩ :=
    get_after_patch Rules.bracketed Json.Patch.change? ops path text hquery hpatch hstatus
  rw [hparse, Option.bind_some, hus] at hchanged
  have hresult := Option.some.inj hchanged
  rw [Prod.mk.injEq, Prod.mk.injEq, decide_eq_true_eq, decide_eq_true_eq] at hresult
  obtain ⟨hbodies, hdistinct, hallows⟩ := hresult
  obtain ⟨hsame, hselected, -, -⟩ := hget hdistinct hallows
  refine ⟨response, d, hpatch, hstatus, hsame, ?_⟩
  rw [hselected]
  exact hbodies

end Collection

end Understudy
