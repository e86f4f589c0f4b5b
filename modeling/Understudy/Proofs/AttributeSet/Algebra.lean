import Understudy.Proofs.AttributeSet.View

/-!
# Understudy.Proofs.AttributeSet.Algebra

The algebra of attribute sets.

Under `union` attribute sets are an idempotent monoid, because the answers under each name are one
under `Option.or`, with the second set asked first. The merge of several sets is their product, in
whatever groups they are merged (`merge_flatten`), and adding attributes is the union with the set
of them. `withoutKeysOf` and `presentOnly` keep some attributes of a set and change none, so what is
done by several of them in a row is done by one filter (`filter_filter`).

A union has the attributes of the second set, and those of the first one under other names
(`mem_toList_union`). So as a query it asks for all of these.
-/

namespace Understudy

namespace AttributeSet

variable (s t u : AttributeSet)

/-! ### Unions -/

theorem union_assoc : (s.union t).union u = s.union (t.union u) := by
  refine ext_get? fun name => ?_
  simp only [get?_union, Option.or_assoc]

@[simp] theorem union_empty : s.union empty = s := rfl

@[simp] theorem union_self : s.union s = s := by
  refine ext_get? fun name => ?_
  rw [get?_union, Option.or_self]

theorem add_eq_union (as : List Attribute) : s.add as = s.union (ofList as) := by
  refine ext_get? fun name => ?_
  rw [get?_add, get?_union, get?_ofList]

theorem contains_union (name : String) :
    (s.union t).contains name = (s.contains name || t.contains name) := by
  simp [contains, Bool.or_comm]

theorem get?_union_eq_ite (name : String) :
    (s.union t).get? name = if t.contains name then t.get? name else s.get? name := by
  rw [get?_union, contains]
  cases t.get? name <;> rfl

/-! ### Merging -/

theorem merge_cons (sets : List AttributeSet) : merge (s :: sets) = s.union (merge sets) := by
  have hfold : ∀ t : AttributeSet, sets.foldl union t = t.union (merge sets) := by
    induction sets with
    | nil => exact fun t => rfl
    | cons u sets ih =>
      intro t
      rw [List.foldl_cons, merge, List.foldl_cons, ih, ih, empty_union, union_assoc]
  rw [merge, List.foldl_cons, hfold, empty_union]

theorem merge_append (ss ts : List AttributeSet) :
    merge (ss ++ ts) = (merge ss).union (merge ts) := by
  induction ss with
  | nil => exact (empty_union _).symm
  | cons s ss ih => rw [List.cons_append, merge_cons, merge_cons, ih, union_assoc]

/-- It makes no difference how sets are grouped for merging. -/
theorem merge_flatten (groups : List (List AttributeSet)) :
    merge groups.flatten = merge (groups.map merge) := by
  induction groups with
  | nil => rfl
  | cons sets groups ih => rw [List.flatten_cons, merge_append, List.map_cons, merge_cons, ih]

/-! ### Keeping some attributes -/

theorem filter_filter (p q : Attribute → Bool) :
    (s.filter p).filter q = s.filter fun a => p a && q a := by
  refine ext_get? fun name => ?_
  simp only [get?_filter, Option.filter_filter]

theorem withoutKeysOf_withoutKeysOf :
    (s.withoutKeysOf t).withoutKeysOf u = s.withoutKeysOf (t.union u) := by
  rw [withoutKeysOf, withoutKeysOf, filter_filter, withoutKeysOf]
  simp only [contains_union, Bool.not_or]

theorem presentOnly_presentOnly : s.presentOnly.presentOnly = s.presentOnly := by
  rw [presentOnly, presentOnly, filter_filter]
  simp only [Bool.and_self]

theorem presentOnly_withoutKeysOf :
    (s.withoutKeysOf t).presentOnly = s.presentOnly.withoutKeysOf t := by
  rw [withoutKeysOf, presentOnly, presentOnly, withoutKeysOf, filter_filter, filter_filter]
  simp only [Bool.and_comm]

/-- What a second set overrides may be left out of the first one. -/
theorem withoutKeysOf_union : (s.withoutKeysOf t).union t = s.union t := by
  refine union_congr_left fun name hnone => ?_
  rw [get?_withoutKeysOf, contains, hnone]
  rfl

/-! ### Matching -/

theorem satisfies_union (stored : AttributeSet) :
    stored.satisfies (s.union t) =
      (stored.satisfies (s.withoutKeysOf t) && stored.satisfies t) := by
  rw [Bool.eq_iff_iff, Bool.and_eq_true, satisfies_iff, satisfies_iff, satisfies_iff]
  simp only [mem_toList_union, or_imp, forall_and]

/-- **Laws of attribute sets.** For all attribute sets, with attributes of both kinds and with
wildcards, and up to equality with the kinds:

* merging is associative, however many sets are grouped in whatever way, and idempotent, and the
  empty set makes no difference to it; under each name of the second set the merge of two has the
  attribute of that, and elsewhere the one of the first set;
* adding attributes merges the set of them, in which the last one under each name stays;
* names that a later set has may be dropped before merging, and dropping the names of two sets is
  dropping those of their merge;
* taking what is present with literal values is idempotent, and commutes with dropping names;
* a set satisfies a merge exactly if it satisfies the second set, and of the first one what the
  second set does not override. -/
theorem laws_of_sets (s t u stored : AttributeSet) (groups : List (List AttributeSet))
    (as : List Attribute) :
    (merge [merge [s, t], u] = merge [s, merge [t, u]] ∧
      merge groups.flatten = merge (groups.map merge) ∧
      merge [s, s] = s ∧ merge [empty, s] = s ∧ merge [s, empty] = s) ∧
    (∀ name, (merge [s, t]).get? name = if t.contains name then t.get? name else s.get? name) ∧
    (s.add as = merge [s, ofList as] ∧ ∀ name, (ofList as).get? name = last? as name) ∧
    merge [s.withoutKeysOf t, t] = merge [s, t] ∧
    (s.withoutKeysOf t).withoutKeysOf u = s.withoutKeysOf (merge [t, u]) ∧
    s.presentOnly.presentOnly = s.presentOnly ∧
    (s.withoutKeysOf t).presentOnly = s.presentOnly.withoutKeysOf t ∧
    stored.satisfies (merge [s, t]) =
      (stored.satisfies (s.withoutKeysOf t) && stored.satisfies t) := by
  simp only [merge_pair]
  exact ⟨⟨union_assoc s t u, merge_flatten groups, union_self s, empty_union s, union_empty s⟩,
    get?_union_eq_ite s t, ⟨add_eq_union s as, get?_ofList as⟩, withoutKeysOf_union s t,
    withoutKeysOf_withoutKeysOf s t u, presentOnly_presentOnly s, presentOnly_withoutKeysOf s t,
    satisfies_union s t stored⟩

end AttributeSet

end Understudy
