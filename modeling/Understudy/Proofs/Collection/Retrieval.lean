import Understudy.Proofs.AttributeSet.WrittenQuery
import Understudy.Proofs.Collection.Keys

/-!
# Understudy.Proofs.Collection.Retrieval

A body is found under its own fields.

The key that `create` gives a body under a base path has the path and the attributes of the body,
and nothing else (`key_eq_union`). A query that is written for some of these attributes, in any way
that the form of queries allows, wants no more than the key has (`meets_wanted`): the values are the
same, or a star was read as the wildcard. So the path selects the resource, and with it every
operation that the path addresses acts on it.
-/

namespace Understudy

namespace AttributeSet

open Attribute (Value)

/-! ### Base paths -/

/-- A path without a query asks for itself. -/
theorem ofPath_base {base : String} (h : '?' ∉ base.toList) :
    ofPath base = ofList [⟨pathName, .literal (baseName base.toList), .present⟩] := by
  rw [ofPath, splitPath, Text.cut_eq_none h]
  rfl

theorem get?_ofPath_base {base : String} (h : '?' ∉ base.toList) (name : String) :
    (ofPath base).get? name =
      if pathName = name then some (.literal (baseName base.toList), .present) else none := by
  rw [ofPath_base h, get?_ofList, last?_cons]
  rfl

theorem isKey_ofPath_base {base : String} (h : '?' ∉ base.toList) : (ofPath base).IsKey := by
  rw [ofPath_base h]
  refine isKey_ofList ?_
  intro a ha
  rw [List.mem_singleton.mp ha]
  exact ⟨rfl, _, rfl⟩

/-! ### Meeting what is wanted -/

theorem agrees_ofText (text : String) : (Value.literal text).agrees (.ofText text) = true := by
  unfold Value.ofText
  split
  · rfl
  · simp

/-- A key meets the condition that is written for one of its attributes. -/
theorem IsKey.meets_wanted {s : AttributeSet} (hs : s.IsKey) {a : Attribute} (ha : a ∈ s.toList) :
    s.meets (wanted a) = true := by
  obtain ⟨-, text, hvalue⟩ := hs a ha
  refine meets_of_agrees ha rfl rfl ?_
  rw [wanted, hvalue]
  exact agrees_ofText text

theorem satisfies_ofList {s : AttributeSet} {as : List Attribute}
    (h : ∀ a ∈ as, s.meets a = true) : s.satisfies (ofList as) = true :=
  satisfies_iff.mpr fun a ha => h a (mem_of_mem_ofList ha)

end AttributeSet

namespace Collection

open AttributeSet (ofPath ofBody pathName baseName Asks escaped asks_escaped written)

/-! ### Keys of created resources -/

section Rules

variable {rules : Rules} (hpath : rules.ofPath = ofPath) (hbody : rules.ofBody = ofBody)
include hpath hbody

/-- Under a base path, nothing of the path or the body is left out of a key. -/
theorem key_eq_union {base : String} (hbase : '?' ∉ base.toList) (body : String) :
    rules.key base body = (ofPath base).union (ofBody body) := by
  have hkey : ((ofPath base).union (ofBody body)).IsKey :=
    (AttributeSet.isKey_ofPath_base hbase).union (AttributeSet.isKey_ofBody body)
  rw [Rules.key, AttributeSet.merge_pair, hpath, hbody, hkey.presentOnly_eq]

/-- The path is in the key, unless the body has an attribute of that name. -/
theorem path_mem_key {base body : String} (hbase : '?' ∉ base.toList)
    (hname : (ofBody body).contains pathName = false) :
    ⟨pathName, .literal (baseName base.toList), .present⟩ ∈ (rules.key base body).toList := by
  have hnone : (ofBody body).get? pathName = none := AttributeSet.contains_eq_false_iff.mp hname
  rw [key_eq_union hpath hbody hbase, AttributeSet.mem_toList, AttributeSet.get?_union, hnone,
    Option.none_or, AttributeSet.get?_ofPath_base hbase, if_pos rfl]

/-- A query that is written for some attributes of a body selects what is created from it. -/
theorem selectedBy_of_asks {base body : String} (hbase : '?' ∉ base.toList)
    (hname : (ofBody body).contains pathName = false) (slashes : Nat)
    {pairs : List (String × String)}
    (hpairs : ∀ pair ∈ pairs, ∃ a ∈ (ofBody body).toList, Asks pair a) :
    (⟨rules.key base body, body⟩ : Resource).selectedBy rules
      (written base slashes pairs) = true := by
  have hfits : (⟨rules.key base body, body⟩ : Resource).Fits := fits_key hbody base body
  have hasks : ∀ pair ∈ pairs, ∃ a, Asks pair a := by
    intro pair hpair
    obtain ⟨a, -, ha⟩ := hpairs pair hpair
    exact ⟨a, ha⟩
  rw [Resource.selectedBy, hpath, AttributeSet.ofPath_written hbase slashes hasks]
  refine AttributeSet.satisfies_ofList ?_
  intro a ha
  rcases List.mem_cons.mp ha with rfl | ha
  · -- the path of a query is literal, also where it is a star
    refine AttributeSet.meets_of_agrees (path_mem_key hpath hbody hbase hname) rfl rfl ?_
    rw [Attribute.Value.agrees_literal, decide_eq_true_iff]
  · obtain ⟨pair, hpair, rfl⟩ := List.mem_map.mp ha
    obtain ⟨a, ha, hasks⟩ := hpairs pair hpair
    rw [AttributeSet.condition_of_asks hasks]
    exact hfits.isKey.meets_wanted (hfits.describes a ha)

end Rules

/-! ### Finding them -/

/-- Resources with distinct keys are selected once each. -/
theorem selected_eq_singleton {rules : Rules} {path : String} {c : Collection}
    (hc : (c.resources.map (·.key)).Nodup) {r : Resource} (hr : r ∈ c.selected rules path)
    (h : ∀ u ∈ c.selected rules path, u = r) : c.selected rules path = [r] := by
  have hnodup : ((c.selected rules path).map (·.key)).Nodup :=
    (List.filter_sublist.map _).nodup hc
  cases hsel : c.selected rules path with
  | nil =>
    rw [hsel] at hr
    cases hr
  | cons u us =>
    rw [hsel] at h hnodup
    obtain rfl : u = r := h u (.head us)
    cases us with
    | nil => rfl
    | cons v us =>
      obtain rfl : v = u := h v (.tail u (.head us))
      simp at hnodup

/-- **Created resources are found.** After any operations on a collection of JSON documents, let a
body without an attribute `path` be created under a base path. A query for some attributes of the
body, with any way to write their names and values as fields of a form, and any slashes at the end
of the base, selects the new resource:

* `get` finds it, and if nothing else is selected, its answer is the body, octet for octet;
* `delete` drops it;
* `patch` addresses it: whatever goes through has patched its body, among the results. -/
theorem created_is_found (compose : List String → String) (ofPatch? : String → Option Change)
    (ops : List Operation) (base body : String) (slashes : Nat) (pairs : List (String × String))
    (hbase : '?' ∉ base.toList) (hname : (ofBody body).contains pathName = false)
    (hpairs : ∀ pair ∈ pairs, ∃ a ∈ (ofBody body).toList, Asks pair a) :
    let rules : Rules := .documents compose ofPatch?
    let c := ((empty.after rules ops).create rules base body).2
    let r : Resource := ⟨rules.key base body, body⟩
    let path := written base slashes pairs
    r ∈ c.selected rules path ∧
    (c.get rules path).status = 200 ∧
    ((∀ u ∈ c.selected rules path, u = r) →
      c.get rules path = ⟨200, [], .full (Utf8.encode body), none⟩) ∧
    (c.delete rules path).1.status = 200 ∧
    r ∉ (c.delete rules path).2.resources ∧
    ∀ text response d, c.patch rules path text = .ok (response, d) →
      response.status = 202 ∧
      ∃ change us new, rules.ofPatch? text = some change ∧
        patchResources rules path change (c.selected rules path) = .ok us ∧
        patchBody change body = .ok new ∧ ⟨rekey rules path r new, new⟩ ∈ us ∧
        d.resources = putAll (c.others rules path) us := by
  intro rules c r path
  have hyes : r.selectedBy rules path = true :=
    selectedBy_of_asks rfl rfl hbase hname slashes hpairs
  have hcreated : r ∈ c.resources := (wellKeyed_empty.after rfl ops).mem_create rfl base body
  have hr : r ∈ c.selected rules path := List.mem_filter.mpr ⟨hcreated, hyes⟩
  have hne : c.selected rules path ≠ [] := List.ne_nil_of_mem hr
  -- keys are distinct, so a resource that is selected alone is the answer
  have hc : c.WellKeyed := (wellKeyed_empty.after rfl ops).apply rfl (.create base body)
  refine ⟨hr, ?_, ?_, delete_status hne, ?_, ?_⟩
  · rw [get_of_selected rfl hne]
    rfl
  · intro hall
    rw [get_of_selected (selected_eq_singleton hc.distinct hr hall) (List.cons_ne_nil r [])]
    rfl
  · rw [delete_resources]
    intro hothers
    rw [selectedBy_of_mem_others hothers] at hyes
    cases hyes
  · intro text response d hpatch
    rcases patch_eq_ok hpatch with ⟨hnil, -, -⟩ | ⟨change, us, -, hparse, hus, rfl, rfl⟩
    · exact absurd hnil hne
    · obtain ⟨u, hu, hpatched⟩ := exists_patchResources hus hr
      obtain ⟨new, hnew, rfl⟩ := patchResource_eq_ok.mp hpatched
      exact ⟨rfl, change, us, new, hparse, hus, hnew, hu, rfl⟩

/-- One of two bodies is found by two of its fields; the value of the first one is a star. -/
theorem created_is_found_escaped :
    let rules : Rules := .documents Rules.bracketed Json.Patch.change?
    let body := "\x7b\"a&b=!\":\"*\",\"größe\":\"1+1 = 50%\",\"n\":1\x7d"
    let before : List Operation := [.create "/items" "\x7b\"a&b=!\":\"*\",\"größe\":\"1 1\"\x7d"]
    let c := ((empty.after rules before).create rules "/items" body).2
    let path := "/items//?a%26b%3d%21=%2a&gr%c3%b6%c3%9fe=1%2b1%20%3d%2050%25"
    c.size = 2 ∧ c.get rules path = ⟨200, [], .full (Utf8.encode body), none⟩ := by
  intro rules body before c path
  let asked : List Attribute := [⟨"a&b=!", .literal "*", .present⟩,
    ⟨"größe", .literal "1+1 = 50%", .present⟩]
  have hpath : path = written "/items" 2 (asked.map escaped) := by decide +kernel
  have hasked : ∀ a ∈ asked, a ∈ (ofBody body).toList := by decide +kernel
  have hname : (ofBody body).contains pathName = false := by decide +kernel
  have hone : c.selected rules path = [⟨rules.key "/items" body, body⟩] := by decide +kernel
  have hsize : c.size = 2 := by decide +kernel
  refine ⟨hsize, ?_⟩
  -- the path is what the conditions are written as
  rw [hpath] at hone ⊢
  have hpairs : ∀ pair ∈ asked.map escaped, ∃ a ∈ (ofBody body).toList, Asks pair a := by
    intro pair hpair
    obtain ⟨a, ha, rfl⟩ := List.mem_map.mp hpair
    exact ⟨a, hasked a ha, asks_escaped a⟩
  obtain ⟨-, -, hget, -⟩ :=
    created_is_found Rules.bracketed Json.Patch.change? before "/items" body 2 _ (by decide)
      hname hpairs
  refine hget ?_
  intro u hu
  exact List.mem_singleton.mp (hone ▸ hu)

end Collection

end Understudy
