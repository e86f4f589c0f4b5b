import Understudy.Proofs.AttributeSet.Algebra
import Understudy.Proofs.Collection.Replacement

/-!
# Understudy.Proofs.Collection.Narrowing

A further condition narrows what a path selects.

What is written behind a path is read after all its other conditions (`ofPath_narrowed`). On a new
name it takes the place of none of them, so the path selects what it did, as far as that meets the
new condition (`selected_narrowed`). The conditions `k=v` and `k!=v` are read with the same name and
value, and a resource meets one of them exactly if it does not meet the other: whatever else the
path asks for, they divide between them what it selects.
-/

namespace Understudy

namespace AttributeSet

/-! ### Narrowed paths -/

/-- A path with a further condition behind it. -/
def narrowed (path further : String) : String :=
  path ++ (if '?' ∈ path.toList then "&" else "?") ++ further

/-- The conditions of a narrowed path: the further one comes last, and the base is the same. -/
theorem ofPath_narrowed (path : String) {further : String} (hne : further ≠ "")
    (h : '&' ∉ further.toList) :
    ofPath (narrowed path further) = (ofPath path).insert (condition further.toList) := by
  have hpart : further.toList ≠ [] := by simpa using hne
  rcases splitPath_cases path.toList with ⟨hnot, -⟩ | ⟨base, query, hlist, hbase, heq⟩
  · have hnarrowed : narrowed path further = path ++ "?" ++ further := by
      simp [narrowed, hnot]
    rw [hnarrowed, ofPath_append hnot, conditions_of_unbroken hpart h, ofPath_base hnot]
    rfl
  · have hnarrowed : (narrowed path further).toList =
        base ++ '?' :: (query ++ '&' :: further.toList) := by
      simp [narrowed, hlist]
    rw [ofPath, hnarrowed, splitPath, Text.cut_of_mem hbase, Option.getD_some, ofPath, heq]
    simp only [conditions_append, conditions_of_unbroken hpart h]
    rw [ofList, ← List.cons_append, add_append]
    rfl

/-- A condition on a new name is added to the others. -/
theorem satisfies_insert {query : AttributeSet} {a : Attribute} (hnew : query.get? a.name = none)
    (s : AttributeSet) : s.satisfies (query.insert a) = (s.satisfies query && s.meets a) := by
  have hinsert : query.insert a = query.union (ofList [a]) := add_eq_union query [a]
  have hrest : query.withoutKeysOf (ofList [a]) = query := by
    refine ext_get? fun name => ?_
    rw [get?_withoutKeysOf, contains, get?_ofList, last?_cons]
    by_cases hname : a.name = name
    · rw [← hname, hnew]
      exact ite_self none
    · rw [if_neg hname]
      rfl
  rw [hinsert, satisfies_union, hrest, satisfies_singleton]

end AttributeSet

namespace Collection

open AttributeSet (ofPath ofBody condition narrowed equation exclusion Spells)
open Attribute (Value)

/-- A path with a condition on a new name selects what the path does and the condition allows. -/
theorem selected_narrowed {rules : Rules} (hpath : rules.ofPath = ofPath) {path further : String}
    {a : Attribute} (hcondition : condition further.toList = a) (hne : further ≠ "")
    (hunbroken : '&' ∉ further.toList) (hnew : (ofPath path).get? a.name = none)
    (c : Collection) :
    c.selected rules (narrowed path further) =
      (c.selected rules path).filter fun r => r.key.meets a := by
  rw [selected, selected, List.filter_filter]
  refine List.filter_congr fun r _ => ?_
  rw [Resource.selectedBy, Resource.selectedBy, hpath,
    AttributeSet.ofPath_narrowed path hne hunbroken, hcondition, AttributeSet.satisfies_insert hnew,
    Bool.and_comm]

/-- **Conditions and their negations.** On any collection, let a path say nothing of a name. Then
the conditions `k=v` and `k!=v` on this name, behind the path, divide what it selects:

* `k=v` selects of it the resources whose key has the name with that value, or with any value if it
  is a star, and `k!=v` selects the others;
* no resource is selected by both, and together they are all that the path selects;
* a bare `k` with a name that is not empty selects exactly what `k!=*` does not;
* none of the three selects anything that the path does not, and each keeps the order. -/
theorem conditions_complement (compose : List String → String) (ofPatch? : String → Option Change)
    (c : Collection) (path : String)
    {k v star name value : String} (hname : Spells k name) (hvalue : Spells v value)
    (hstar : Spells star Value.star) (hnew : (ofPath path).get? name = none) :
    let rules : Rules := .documents compose ofPatch?
    let all := c.selected rules path
    let having := c.selected rules (narrowed path (equation (k, v)))
    let lacking := c.selected rules (narrowed path (exclusion (k, v)))
    let bare := c.selected rules (narrowed path k)
    having = all.filter (fun r => r.key.holds name (.ofText value)) ∧
    lacking = all.filter (fun r => !r.key.holds name (.ofText value)) ∧
    (∀ r ∈ having, r ∉ lacking) ∧
    (having ++ lacking).Perm all ∧
    having.Sublist all ∧ lacking.Sublist all ∧
    (name ≠ "" → bare.Sublist all ∧
      ∀ r ∈ all, r ∈ bare ↔ r ∉ c.selected rules (narrowed path (exclusion (k, star)))) := by
  intro rules all having lacking bare
  have hequation : equation (k, v) ≠ "" := by
    intro h
    have := congrArg String.toList h
    simp [AttributeSet.toList_equation] at this
  have hexclusion : ∀ w, exclusion (k, w) ≠ "" := by
    intro w h
    have := congrArg String.toList h
    simp [AttributeSet.toList_exclusion] at this
  -- all four selections are filters of the first one
  have hhaving : having = all.filter fun r => r.key.holds name (.ofText value) :=
    selected_narrowed rfl (AttributeSet.condition_equation hname hvalue) hequation
      (AttributeSet.equation_unbroken hname hvalue) hnew c
  have hlacking : lacking = all.filter fun r => !r.key.holds name (.ofText value) :=
    selected_narrowed rfl (AttributeSet.condition_exclusion hname hvalue) (hexclusion v)
      (AttributeSet.exclusion_unbroken hname hvalue) hnew c
  have hlackingAny : c.selected rules (narrowed path (exclusion (k, star))) =
      all.filter fun r => !r.key.holds name .wildcard :=
    selected_narrowed rfl (AttributeSet.condition_exclusion hname hstar) (hexclusion star)
      (AttributeSet.exclusion_unbroken hname hstar) hnew c
  refine ⟨hhaving, hlacking, ?_, ?_, ?_, ?_, ?_⟩
  · intro r hr hr'
    rw [hhaving, List.mem_filter] at hr
    rw [hlacking, List.mem_filter, hr.2] at hr'
    exact absurd hr'.2 (by decide)
  · rw [hhaving, hlacking]
    exact List.filter_append_perm _ all
  · rw [hhaving]
    exact List.filter_sublist
  · rw [hlacking]
    exact List.filter_sublist
  · intro hnonempty
    have hbare : bare = all.filter fun r => r.key.holds name .wildcard :=
      selected_narrowed rfl (AttributeSet.condition_bare hname) (hname.ne_empty hnonempty)
        hname.not_mem.1 hnew c
    refine ⟨?_, fun r hr => ?_⟩
    · rw [hbare]
      exact List.filter_sublist
    · rw [hbare, hlackingAny, List.mem_filter, List.mem_filter, and_iff_right hr, and_iff_right hr]
      simp

/-- Signs of a query stand in the name and in the value, and one resource has the name with another
value. -/
theorem conditions_complement_escaped :
    let rules : Rules := .documents Rules.bracketed Json.Patch.change?
    let c := empty.after rules
      [.create "/items" "\x7b\"a&b!=\":\"1 + 1\",\"kind\":\"pod\"\x7d",
        .create "/items" "\x7b\"a&b!=\":\"11\",\"kind\":\"pod\"\x7d",
        .create "/items" "\x7b\"kind\":\"pod\"\x7d",
        .create "/items" "\x7b\"a&b!=\":\"1 + 1\",\"kind\":\"job\"\x7d"]
    let path := "/items?kind=pod"
    let k := "a%26b%21%3d"
    let v := "1+%2b+1"
    let bodies := fun further => (c.selected rules (narrowed path further)).map (·.body)
    Spells k "a&b!=" ∧ Spells v "1 + 1" ∧ (ofPath path).get? "a&b!=" = none ∧
    narrowed path (exclusion (k, v)) = "/items?kind=pod&a%26b%21%3d!=1+%2b+1" ∧
    bodies (equation (k, v)) = ["\x7b\"a&b!=\":\"1 + 1\",\"kind\":\"pod\"\x7d"] ∧
    bodies (exclusion (k, v)) =
      ["\x7b\"a&b!=\":\"11\",\"kind\":\"pod\"\x7d", "\x7b\"kind\":\"pod\"\x7d"] := by
  intro rules c path k v bodies
  have hname : Spells k "a&b!=" := by decide +kernel
  have hvalue : Spells v "1 + 1" := by decide +kernel
  have hnew : (ofPath path).get? "a&b!=" = none := by decide +kernel
  -- one evaluation for both selections
  have hbodies : (let all := c.selected rules path
      let holds := fun r : Resource => r.key.holds "a&b!=" (.ofText "1 + 1")
      ((all.filter holds).map (·.body), (all.filter fun r => !holds r).map (·.body))) =
      (["\x7b\"a&b!=\":\"1 + 1\",\"kind\":\"pod\"\x7d"],
        ["\x7b\"a&b!=\":\"11\",\"kind\":\"pod\"\x7d", "\x7b\"kind\":\"pod\"\x7d"]) := by
    decide +kernel
  obtain ⟨hhaving, hlacking, -⟩ :=
    conditions_complement Rules.bracketed Json.Patch.change? c path hname hvalue
      AttributeSet.spells_star hnew
  obtain ⟨hfirst, hsecond⟩ := Prod.mk.inj hbodies
  refine ⟨hname, hvalue, hnew, by decide +kernel, ?_, ?_⟩
  · show (c.selected rules (narrowed path (equation (k, v)))).map (·.body) = _
    rw [hhaving]
    exact hfirst
  · show (c.selected rules (narrowed path (exclusion (k, v)))).map (·.body) = _
    rw [hlacking]
    exact hsecond

end Collection

end Understudy
