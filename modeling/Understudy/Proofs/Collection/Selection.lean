import Understudy.Proofs.Collection.Operations

/-!
# Understudy.Proofs.Collection.Selection

One selection behind three operations.

`get`, `patch` and `delete` look at a collection through the resources that their path selects, and
each of them says 404 exactly if there are none. Deleting a path leaves the others, and none of
these is selected by the path any more. Another path selects of them what it did before, so it is
answered with what is left of its own selection (`selected_delete`). Nothing of this depends on how
paths and bodies are read, or on how several bodies are written.
-/

namespace Understudy

namespace Collection

variable {rules : Rules} {path : String} {c : Collection}

/-! ### Answers -/

/-- How a path is answered that selects some resources: a single body as it is, and several of them
composed in their order. -/
def listing (rules : Rules) : List Resource → Response
  | [] => .notFound
  | [r] => ⟨200, [], .full (Utf8.encode r.body), none⟩
  | r :: s :: rs =>
    ⟨200, [], .full (Utf8.encode (rules.compose (r.body :: s.body :: rs.map (·.body)))), none⟩

theorem get_eq_listing (rules : Rules) (path : String) (c : Collection) :
    c.get rules path = listing rules (c.selected rules path) := by
  rw [get]
  cases c.selected rules path with
  | nil => rfl
  | cons r rs => cases rs <;> rfl

theorem get_status_eq_iff : (c.get rules path).status = 404 ↔ c.selected rules path = [] := by
  rw [get]
  cases c.selected rules path with
  | nil => exact iff_of_true rfl rfl
  | cons r rs =>
    refine iff_of_false ?_ (List.cons_ne_nil r rs)
    show ¬ (200 : UInt16) = 404
    decide

theorem delete_status_eq_iff :
    (c.delete rules path).1.status = 404 ↔ c.selected rules path = [] := by
  by_cases hsel : c.selected rules path = []
  · rw [delete, hsel]
    exact iff_of_true rfl rfl
  · rw [delete_status hsel]
    exact iff_of_false (by decide) hsel

/-- Whatever its text, a patch can only be answered with 404 if its path selects nothing. -/
theorem patch_status_eq_iff {text : String} :
    (∃ response d, c.patch rules path text = .ok (response, d) ∧ response.status = 404) ↔
      c.selected rules path = [] := by
  constructor
  · rintro ⟨response, d, hpatch, hstatus⟩
    rcases patch_eq_ok hpatch with ⟨hnil, -, -⟩ | ⟨change, us, -, -, -, rfl, -⟩
    · exact hnil
    · exact absurd hstatus (by show ¬ (202 : UInt16) = 404; decide)
  · intro hnil
    exact ⟨.notFound, c, by rw [patch, hnil], rfl⟩

/-- Whether nothing is found at a path: every operation that it can address says so and changes
nothing. -/
structure Missing (rules : Rules) (path : String) (c : Collection) : Prop where
  get : c.get rules path = .notFound
  delete : c.delete rules path = (.notFound, c)
  patch : ∀ text, c.patch rules path text = .ok (.notFound, c)

theorem missing_of_selected (h : c.selected rules path = []) : Missing rules path c where
  get := by rw [Collection.get, h]
  delete := by rw [Collection.delete, h]
  patch := fun text => by rw [Collection.patch, h]

/-! ### After a deletion -/

/-- A path selects what it did, without what has been deleted. -/
theorem selected_delete (rules : Rules) (path other : String) (c : Collection) :
    (c.delete rules path).2.selected rules other =
      (c.selected rules other).filter fun r => !r.selectedBy rules path := by
  rw [selected, delete_resources, others, selected, List.filter_filter, List.filter_filter]
  exact List.filter_congr fun r _ => Bool.and_comm _ _

theorem selected_delete_self (rules : Rules) (path : String) (c : Collection) :
    (c.delete rules path).2.selected rules path = [] := by
  rw [selected_delete, selected, List.filter_filter, List.filter_eq_nil_iff]
  intro r _
  simp

theorem mem_delete_iff {r : Resource} (hr : r ∈ c.resources) :
    r ∈ (c.delete rules path).2.resources ↔ r ∉ c.selected rules path := by
  rw [delete_resources, others, selected, List.mem_filter, List.mem_filter, and_iff_right hr,
    and_iff_right hr, Bool.not_eq_true', Bool.eq_false_iff]

/-- **One selection.** For every way to read paths and bodies and to write several bodies, every
path and every collection:

* `get` lists the resources that the path selects, `delete` drops exactly these, and all others stay
  as they are and in their order;
* `get`, `delete`, and `patch` with any text are answered with 404 in the same collections;
* after the deletion nothing is found at the path, whichever operation addresses it;
* and every other path lists what it has selected before and the deleted path has not, in the same
  order. -/
theorem same_selection (rules : Rules) (path : String) (c : Collection) :
    let d := (c.delete rules path).2
    (c.get rules path = listing rules (c.selected rules path) ∧
      (∀ r ∈ c.resources, r ∈ d.resources ↔ r ∉ c.selected rules path) ∧
      (c.selected rules path ++ d.resources).Perm c.resources ∧
      d.resources.Sublist c.resources) ∧
    ((c.delete rules path).1.status = 404 ↔ (c.get rules path).status = 404) ∧
    (∀ text, (c.delete rules path).1.status = 404 ↔
      ∃ response e, c.patch rules path text = .ok (response, e) ∧ response.status = 404) ∧
    Missing rules path d ∧
    ∀ other, d.selected rules other =
        (c.selected rules other).filter (fun r => !r.selectedBy rules path) ∧
      d.get rules other = listing rules
        ((c.selected rules other).filter fun r => !r.selectedBy rules path) := by
  intro d
  have hothers : d.resources = c.others rules path := delete_resources rules path c
  refine ⟨⟨get_eq_listing rules path c, fun r hr => mem_delete_iff hr, ?_, ?_⟩, ?_, ?_, ?_, ?_⟩
  · rw [hothers]
    exact List.filter_append_perm (·.selectedBy rules path) c.resources
  · rw [hothers]
    exact others_sublist rules path c
  · rw [delete_status_eq_iff, get_status_eq_iff]
  · intro text
    rw [delete_status_eq_iff, patch_status_eq_iff]
  · exact missing_of_selected (selected_delete_self rules path c)
  · intro other
    have hselected := selected_delete rules path other c
    refine ⟨hselected, ?_⟩
    rw [get_eq_listing, hselected]

end Collection

end Understudy
