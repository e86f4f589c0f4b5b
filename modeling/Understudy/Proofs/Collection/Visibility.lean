import Understudy.Proofs.Collection.Retrieval

/-!
# Understudy.Proofs.Collection.Visibility

Which paths lead to a body that was created.

A path without a query asks for one attribute, `path`, and the fields of a body share their names
with it. In the key of a created body the fields come last, so a field `path` takes the place of the
path that the body was created under: the body has moved `home`. It is found at its home and at no
other path without a query (`selectedBy_base_iff`), and that is its own path unless a field says
otherwise.
-/

namespace Understudy

namespace AttributeSet

/-- A path without a query selects what has it as the attribute `path`. -/
theorem satisfies_ofPath_base {path : String} (h : '?' ∉ path.toList) (s : AttributeSet) :
    s.satisfies (ofPath path) = s.holds pathName (.literal (baseName path.toList)) := by
  rw [ofPath_base h, satisfies_singleton]
  rfl

end AttributeSet

namespace Collection

open AttributeSet (ofPath ofBody pathName baseName)

/-! ### Homes -/

/-- The path of a body that is created under a base path: what its own field `path` says, or else
the base. -/
def home (base body : String) : String :=
  match (ofBody body).get? pathName with
  | some (value, _) => value.text
  | none => baseName base.toList

/-- A body stays where it is created, unless its field `path` says otherwise. -/
theorem home_eq_iff {base body : String} :
    home base body = baseName base.toList ↔
      ∀ a ∈ (ofBody body).toList, a.name = pathName →
        a.value = .literal (baseName base.toList) := by
  unfold home
  cases hget : (ofBody body).get? pathName with
  | none =>
    refine iff_of_true rfl ?_
    intro a ha hname
    rw [AttributeSet.mem_toList, hname, hget] at ha
    cases ha
  | some found =>
    obtain ⟨text, rfl⟩ := (AttributeSet.isKey_ofBody body).literal_of_get? hget
    constructor
    · rintro (heq : text = baseName base.toList) a ha hname
      rw [AttributeSet.mem_toList, hname, hget] at ha
      obtain ⟨hvalue, -⟩ := Prod.mk.inj (Option.some.inj ha)
      rw [← hvalue, heq]
    · intro h
      have hfield : (⟨pathName, .literal text, .present⟩ : Attribute) ∈ (ofBody body).toList :=
        AttributeSet.mem_toList.mpr hget
      exact Attribute.Value.literal.inj (h _ hfield rfl)

section Rules

variable {rules : Rules} (hpath : rules.ofPath = ofPath) (hbody : rules.ofBody = ofBody)
include hpath hbody

theorem get?_key_path {base : String} (hbase : '?' ∉ base.toList) (body : String) :
    (rules.key base body).get? pathName = some (.literal (home base body), .present) := by
  rw [key_eq_union hpath hbody hbase, AttributeSet.get?_union, AttributeSet.get?_ofPath_base hbase,
    if_pos rfl, home]
  cases hget : (ofBody body).get? pathName with
  | none => rfl
  | some found =>
    obtain ⟨text, rfl⟩ := (AttributeSet.isKey_ofBody body).literal_of_get? hget
    rfl

/-- A path without a query selects a created body exactly if it is its home. -/
theorem selectedBy_base_iff {base path : String} (hbase : '?' ∉ base.toList)
    (hquery : '?' ∉ path.toList) (body : String) :
    (⟨rules.key base body, body⟩ : Resource).selectedBy rules path = true ↔
      home base body = baseName path.toList := by
  rw [Resource.selectedBy, hpath, AttributeSet.satisfies_ofPath_base hquery, AttributeSet.holds,
    get?_key_path hpath hbody hbase]
  exact decide_eq_true_iff

end Rules

/-! ### Visibility -/

/-- Whether a path leads to a resource: `get` and `delete` act on it. -/
structure LeadsTo (rules : Rules) (path : String) (c : Collection) (r : Resource) : Prop where
  selected : r ∈ c.selected rules path
  found : (c.get rules path).status = 200
  deleted : (c.delete rules path).1.status = 200
  dropped : r ∉ (c.delete rules path).2.resources

/-- A path that selects a resource leads to it. -/
theorem leadsTo_of_selected {rules : Rules} {path : String} {c : Collection} {r : Resource}
    (h : r ∈ c.selected rules path) : LeadsTo rules path c r := by
  have hne : c.selected rules path ≠ [] := List.ne_nil_of_mem h
  refine ⟨h, ?_, delete_status hne, ?_⟩
  · rw [get_of_selected rfl hne]
    rfl
  · rw [delete_resources]
    intro hothers
    have hyes : r.selectedBy rules path = true := (List.mem_filter.mp h).2
    rw [selectedBy_of_mem_others hothers] at hyes
    cases hyes

/-- **Created resources are visible.** After any operations on a collection of JSON documents, let a
body be created under a base path.

* If the body has no attribute `path`, or has its base there, then the base leads to it.
* In general, each path without a query that is the home of the body leads to it.
* All other paths without a query do not select it, and it stays when they are deleted. -/
theorem created_is_visible (compose : List String → String) (ofPatch? : String → Option Change)
    (ops : List Operation) (base body : String) (hbase : '?' ∉ base.toList) :
    let rules : Rules := .documents compose ofPatch?
    let c := ((empty.after rules ops).create rules base body).2
    let r : Resource := ⟨rules.key base body, body⟩
    ((∀ a ∈ (ofBody body).toList, a.name = pathName → a.value = .literal (baseName base.toList)) →
      LeadsTo rules base c r) ∧
    ∀ path, '?' ∉ path.toList →
      (home base body = baseName path.toList → LeadsTo rules path c r) ∧
      (home base body ≠ baseName path.toList →
        r ∉ c.selected rules path ∧ r ∈ (c.delete rules path).2.resources) := by
  intro rules c r
  have hr : r ∈ c.resources := (wellKeyed_empty.after rfl ops).mem_create rfl base body
  have hleads : ∀ path, '?' ∉ path.toList → home base body = baseName path.toList →
      LeadsTo rules path c r := by
    intro path hquery hhome
    have hyes : r.selectedBy rules path = true :=
      (selectedBy_base_iff rfl rfl hbase hquery body).mpr hhome
    exact leadsTo_of_selected (List.mem_filter.mpr ⟨hr, hyes⟩)
  refine ⟨fun hstays => hleads base hbase (home_eq_iff.mpr hstays), ?_⟩
  intro path hquery
  refine ⟨hleads path hquery, ?_⟩
  intro haway
  have hno : ¬ r.selectedBy rules path = true := by
    rw [selectedBy_base_iff rfl rfl hbase hquery]
    exact haway
  refine ⟨fun hsel => hno (List.mem_filter.mp hsel).2, ?_⟩
  rw [delete_resources]
  exact List.mem_filter.mpr ⟨hr, by simpa using hno⟩

/-- A field `path` may say what the path says. The slashes at the end of a path make no
difference. -/
theorem created_is_visible_named :
    let rules : Rules := .documents Rules.bracketed Json.Patch.change?
    let body := "\x7b\"path\":\"/items\",\"id\":1\x7d"
    let before : List Operation := [.create "/items" "\x7b\"id\":2\x7d"]
    let c := ((empty.after rules before).create rules "/items/" body).2
    LeadsTo rules "/items/" c ⟨rules.key "/items/" body, body⟩ ∧
    LeadsTo rules "/items" c ⟨rules.key "/items/" body, body⟩ ∧
    (c.delete rules "/items").2.resources = [] := by
  intro rules body before c
  have hfields : ∀ a ∈ (ofBody body).toList, a.name = pathName →
      a.value = .literal (baseName "/items/".toList) := by decide +kernel
  have hhome : home "/items/" body = baseName "/items".toList := by decide +kernel
  have hrest : (c.delete rules "/items").2.resources = [] := by decide +kernel
  obtain ⟨hbase, hpaths⟩ :=
    created_is_visible Rules.bracketed Json.Patch.change? before "/items/" body (by decide)
  exact ⟨hbase hfields, (hpaths "/items" (by decide)).1 hhome, hrest⟩

/-- A field `path` that says something else hides a body from the path that it is created under:
`get` does not find anything there, and `delete` keeps it. -/
theorem created_is_hidden :
    let body := "\x7b\"path\":\"/evil\",\"id\":1\x7d"
    let c := (empty.create .json "/items" body).2
    let r : Resource := ⟨Rules.json.key "/items" body, body⟩
    '?' ∉ "/items".toList ∧ c.resources = [r] ∧ c.get .json "/items" = .notFound ∧
    r ∉ c.selected .json "/items" ∧ c.delete .json "/items" = (.notFound, c) := by
  decide +kernel

end Collection

end Understudy
