import Understudy.Proofs.Collection.Conservation

/-!
# Understudy.Proofs.Collection.Removal

What becomes of an attribute that a patch takes out of a body.

The old key gives up every attribute of the old body, and the new body does not have this one. So it
can only be in the new key because the addressing path asks for it (`get?_rekey_of_removed`), and of
what a path asks for, a key takes the literal values alone. A bare name, a star and a negation leave
nothing behind: the resource is not found under the name any more. A condition `k=v` does, with the
value that it names, so that the path finds again what it has patched.
-/

namespace Understudy

namespace AttributeSet

open Attribute (Value)

/-- What a query does not ask for with a literal value is not in the part of it that a key takes. -/
theorem get?_presentOnly_eq_none {s : AttributeSet} {name : String}
    (h : ∀ text, s.get? name ≠ some (.literal text, .present)) :
    s.presentOnly.get? name = none := by
  cases hget : s.presentOnly.get? name with
  | none => rfl
  | some found =>
    obtain ⟨text, rfl⟩ := (isKey_presentOnly s).literal_of_get? hget
    exact absurd (get?_presentOnly_eq_some_iff.mp hget) (h text)

theorem holds_eq_false_of_contains {s : AttributeSet} {name : String}
    (h : s.contains name = false) (wanted : Value) : s.holds name wanted = false := by
  rw [holds, contains_eq_false_iff.mp h]

end AttributeSet

namespace Collection

open AttributeSet (ofPath ofBody)
open Attribute (Value)

section Rules

variable {rules : Rules} {path : String}

/-- A path that asks for an attribute does not select a resource without it. -/
theorem selectedBy_eq_false_of_lacking {r : Resource} {name : String}
    (hlacking : r.key.contains name = false) {wanted : Value}
    (hwanted : (rules.ofPath path).get? name = some (wanted, .present)) :
    r.selectedBy rules path = false := by
  rw [Bool.eq_false_iff]
  intro hselected
  have hholds := AttributeSet.holds_of_satisfies hselected hwanted
  rw [AttributeSet.holds_eq_false_of_contains hlacking] at hholds
  cases hholds

/-- A resource with a literal value is only selected by paths that ask for this value or any. -/
theorem agrees_of_selectedBy {r : Resource} {name text : String}
    (hhas : r.key.get? name = some (.literal text, .present)) {wanted : Value}
    (hwanted : (rules.ofPath path).get? name = some (wanted, .present))
    (hselected : r.selectedBy rules path = true) : wanted.agrees (.literal text) = true := by
  have hholds := AttributeSet.holds_of_satisfies hselected hwanted
  rw [AttributeSet.holds, hhas] at hholds
  rw [Value.agrees_comm]
  exact hholds

/-- An attribute that only the old body has is in the new key as the addressing path asks for it. -/
theorem get?_rekey_of_removed (hbody : rules.ofBody = ofBody) {r : Resource} (hr : r.key.IsKey)
    {name body : String} (hold : (ofBody r.body).contains name = true)
    (hnew : (ofBody body).contains name = false) :
    (rekey rules path r body).get? name = (rules.ofPath path).presentOnly.get? name := by
  have hgone : (ofBody body).get? name = none := AttributeSet.contains_eq_false_iff.mp hnew
  have hcarried : (r.key.withoutKeysOf (ofBody r.body)).get? name = none := by
    rw [AttributeSet.get?_withoutKeysOf, if_pos hold]
  rw [rekey_eq_union hbody hr, AttributeSet.get?_union, AttributeSet.get?_union, hgone,
    Option.none_or, hcarried, Option.or_none]

end Rules

/-- **What a patch takes away.** After any operations on a collection of JSON documents, let a patch
go through that addresses some resources, and let a patched one have lost an attribute: its old body
had the name, and its new body does not.

* If the addressing path does not ask for the name with a literal value, whether it has a bare name,
  a star, a negation or nothing on it, then the name is not in the new key. No path that requires it
  selects the resource, or whatever is stored under its key.
* If the path does ask for a literal value, the new key has the name with that value, and a path
  that requires the name selects the resource only if it asks for this value or for any. -/
theorem removed_attributes (compose : List String → String) (ofPatch? : String → Option Change)
    (ops : List Operation) (path text : String) {response : Response} {d : Collection}
    (hpatch : (empty.after (.documents compose ofPatch?) ops).patch (.documents compose ofPatch?)
      path text = .ok (response, d))
    (hstatus : response.status = 202) :
    let rules : Rules := .documents compose ofPatch?
    let c := empty.after rules ops
    ∃ change us, rules.ofPatch? text = some change ∧
      patchResources rules path change (c.selected rules path) = .ok us ∧
      us.length = (c.selected rules path).length ∧
      ∀ r u, (r, u) ∈ (c.selected rules path).zip us → ∀ name,
        (ofBody r.body).contains name = true → (ofBody u.body).contains name = false →
        ((∀ value, (ofPath path).get? name ≠ some (.literal value, .present)) →
          u.key.contains name = false ∧
          ∀ other wanted, (ofPath other).get? name = some (wanted, .present) →
            u.selectedBy rules other = false ∧ ∀ s ∈ d.selected rules other, s.key ≠ u.key) ∧
        ∀ value, (ofPath path).get? name = some (.literal value, .present) →
          u.key.get? name = some (.literal value, .present) ∧
          ∀ other wanted, (ofPath other).get? name = some (wanted, .present) →
            u.selectedBy rules other = true → wanted.agrees (.literal value) = true := by
  intro rules c
  have hc : c.WellKeyed := wellKeyed_empty.after rfl ops
  rcases patch_eq_ok hpatch with ⟨-, rfl, -⟩ | ⟨change, us, -, hparse, hus, -, -⟩
  · -- a path that selects nothing is answered with another status
    cases hstatus
  · refine ⟨change, us, hparse, hus, length_of_patchResources hus, ?_⟩
    intro r u hru name hold hnew
    obtain ⟨hr, hu⟩ := patchResource_of_mem_zip hus hru
    have hkey : r.key.IsKey := (hc.fits r (List.mem_filter.mp hr).1).isKey
    obtain ⟨body, -, rfl⟩ := patchResource_eq_ok.mp hu
    -- the old body had the name, and the new one does not: only the path can put it into the key
    have hget : (rekey rules path r body).get? name = (ofPath path).presentOnly.get? name :=
      get?_rekey_of_removed rfl hkey hold hnew
    refine ⟨fun hunasked => ?_, fun value hasked => ?_⟩
    · have hlacking : (rekey rules path r body).contains name = false := by
        rw [AttributeSet.contains, hget, AttributeSet.get?_presentOnly_eq_none hunasked]
        rfl
      refine ⟨hlacking, fun other wanted hwanted =>
        ⟨selectedBy_eq_false_of_lacking hlacking hwanted, ?_⟩⟩
      rintro s hs hsame
      have hno : s.selectedBy rules other = false :=
        selectedBy_eq_false_of_lacking (hsame ▸ hlacking) hwanted
      rw [(List.mem_filter.mp hs).2] at hno
      cases hno
    · have hhas : (rekey rules path r body).get? name = some (.literal value, .present) := by
        rw [hget, AttributeSet.get?_presentOnly_eq_some_iff, hasked]
      exact ⟨hhas, fun other wanted hwanted => agrees_of_selectedBy hhas hwanted⟩

/-- The bare name of the path leaves nothing of `owner` behind, and its condition `id=1` keeps the
value that it asks for. -/
theorem removed_attributes_mixed :
    let rules : Rules := .documents Rules.bracketed Json.Patch.change?
    let ops : List Operation := [.create "/items" "\x7b\"id\":1,\"owner\":\"ann\",\"v\":2\x7d",
      .create "/items" "\x7b\"id\":1\x7d"]
    let c := empty.after rules ops
    let path := "/items?owner&id=1"
    let text := "[\x7b\"op\":\"remove\",\"path\":\"/owner\"\x7d," ++
      "\x7b\"op\":\"remove\",\"path\":\"/id\"\x7d]"
    ∃ response d, c.patch rules path text = .ok (response, d) ∧ response.status = 202 ∧
      ∃ change u, patchResources rules path change (c.selected rules path) = .ok [u] ∧
        u.body = "\x7b\"v\":2\x7d" ∧
        u.key.contains "owner" = false ∧ u.selectedBy rules "/items?owner" = false ∧
        u.key.get? "id" = some (.literal "1", .present) := by
  intro rules ops c path text
  let body := "\x7b\"id\":1,\"owner\":\"ann\",\"v\":2\x7d"
  have hselected : c.selected rules path = [⟨rules.key "/items" body, body⟩] := by decide +kernel
  have hold : (ofBody body).contains "owner" = true ∧ (ofBody body).contains "id" = true := by
    decide +kernel
  have howner : (ofPath path).get? "owner" = some (.wildcard, .present) := by decide +kernel
  have hid : (ofPath path).get? "id" = some (.literal "1", .present) := by decide +kernel
  have hother : (ofPath "/items?owner").get? "owner" = some (.wildcard, .present) := by
    decide +kernel
  have hstatus : (c.patch rules path text).toOption.map (·.1.status) = some 202 := by
    decide +kernel
  have hchanged : ((rules.ofPatch? text).bind fun change =>
      (patchResources rules path change (c.selected rules path)).toOption.map fun us =>
        us.map fun u => (u.body, (ofBody u.body).contains "owner", (ofBody u.body).contains "id")) =
      some [("\x7b\"v\":2\x7d", false, false)] := by
    decide +kernel
  -- what has been computed is kept as facts, and the values are forgotten
  clear_value body ops path text
  obtain ⟨response, d, hpatch, hstatus⟩ := exists_patch_of_status hstatus
  obtain ⟨change, us, hparse, hus, hlength, hremoved⟩ :=
    removed_attributes Rules.bracketed Json.Patch.change? ops path text hpatch hstatus
  rw [hparse, Option.bind_some, hus] at hchanged
  obtain ⟨u, rfl⟩ : ∃ u, us = [u] := by
    rw [hselected] at hlength
    exact List.length_eq_one_iff.mp hlength
  obtain ⟨hbody, hnew⟩ := Prod.mk.inj (List.cons.inj (Option.some.inj hchanged)).1
  obtain ⟨hnoOwner, hnoId⟩ := Prod.mk.inj hnew
  have hpair : (⟨rules.key "/items" body, body⟩, u) ∈ (c.selected rules path).zip [u] := by
    rw [hselected]
    exact .head []
  obtain ⟨hgone, -⟩ := hremoved _ u hpair "owner" hold.1 hnoOwner
  obtain ⟨-, hkept⟩ := hremoved _ u hpair "id" hold.2 hnoId
  obtain ⟨hlacking, hlost⟩ := hgone fun value hvalue => by
    rw [howner] at hvalue
    cases hvalue
  exact ⟨response, d, hpatch, hstatus, change, u, hus, hbody, hlacking,
    (hlost "/items?owner" .wildcard hother).1, (hkept "1" hid).1⟩

/-- A patch takes `owner` out of a body, and its path asks for the value that `owner` had. The
resource is still found under the name, and what is found does not have it. -/
theorem removed_attribute_found :
    let body := "\x7b\"id\":1,\"owner\":\"ann\"\x7d"
    let new := "\x7b\"id\":1\x7d"
    let c := (empty.create .json "/items" body).2
    let path := "/items?owner=ann"
    let text := "[\x7b\"op\":\"remove\",\"path\":\"/owner\"\x7d]"
    let u : Resource := ⟨rekey .json path ⟨Rules.json.key "/items" body, body⟩ new, new⟩
    (c.patch .json path text).toOption.map (fun result => (result.1.status, result.2)) =
      some (202, ⟨[u]⟩) ∧
    (ofBody body).contains "owner" = true ∧ (ofBody new).contains "owner" = false ∧
    (ofPath "/items?owner").get? "owner" = some (.wildcard, .present) ∧
    u.key.contains "owner" = true ∧ u.selectedBy .json "/items?owner" = true ∧
    (⟨[u]⟩ : Collection).get .json "/items?owner" =
      ⟨200, [], .full (Utf8.encode new), none⟩ := by
  decide +kernel

end Collection

end Understudy
