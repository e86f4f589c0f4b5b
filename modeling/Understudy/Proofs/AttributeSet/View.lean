import Understudy.AttributeSet

/-!
# Understudy.Proofs.AttributeSet.View

What the operations on attribute sets answer.

A set is known by its answers (`ext_get?`), so each operation has one lemma here that says what
`get?` answers after it. Of a list that is added, the last attribute under a name answers, and of
two sets the second one. A set that is filtered answers what it did, if the attribute has stayed.
Sets that can be keys have literal values alone, so what they satisfy is what they have.
-/

namespace Understudy

namespace Keyed

variable {α : Type}

/-- Filtering entries filters what is found. -/
theorem get?_filter {entries : List (String × α)} (hs : Sorted entries)
    (p : String × α → Bool) (name : String) :
    get? name (entries.filter p) = (get? name entries).filter fun a => p (name, a) := by
  induction entries with
  | nil => rfl
  | cons head rest ih =>
    obtain ⟨n, a⟩ := head
    obtain ⟨hlt, hrest⟩ := List.pairwise_cons.mp hs
    rw [List.filter_cons]
    by_cases hn : n = name
    · subst hn
      have hnone : get? n (rest.filter p) = none :=
        get?_eq_none_of_lt fun e he => hlt e (List.mem_filter.mp he).1
      by_cases hp : p (n, a) = true <;> simp [get?, hp, hnone, Option.filter]
    · by_cases hp : p (n, a) = true <;> simp [get?, hn, hp, ih hrest]

end Keyed

namespace AttributeSet

open Attribute (Value Kind)

/-! ### Attributes of a set -/

theorem mem_toList {s : AttributeSet} {a : Attribute} :
    a ∈ s.toList ↔ s.get? a.name = some (a.value, a.kind) := by
  constructor
  · intro ha
    obtain ⟨⟨name, value, kind⟩, he, rfl⟩ := List.mem_map.mp ha
    exact Keyed.get?_of_mem s.sorted he
  · intro ha
    exact List.mem_map.mpr ⟨(a.name, a.value, a.kind), Keyed.mem_of_get? ha, rfl⟩

/-- Sets with the same attributes are equal. -/
theorem ext_toList {s t : AttributeSet} (h : ∀ a, a ∈ s.toList ↔ a ∈ t.toList) : s = t := by
  refine ext_get? fun name => Option.ext fun found => ?_
  have hmem := h ⟨name, found.1, found.2⟩
  rwa [mem_toList, mem_toList] at hmem

theorem contains_eq_false_iff {s : AttributeSet} {name : String} :
    s.contains name = false ↔ s.get? name = none := by
  simp [contains]

/-- The attribute of a list that stays under a name. -/
def last? (as : List Attribute) (name : String) : Option (Value × Kind) :=
  (as.reverse.find? fun a => a.name = name).map fun a => (a.value, a.kind)

theorem last?_cons (a : Attribute) (as : List Attribute) (name : String) :
    last? (a :: as) name =
      (last? as name).or (if a.name = name then some (a.value, a.kind) else none) := by
  rw [last?, last?, List.reverse_cons, List.find?_append, List.find?_singleton]
  by_cases h : a.name = name
  · cases as.reverse.find? (fun a => decide (a.name = name)) <;> simp [h]
  · simp [h]

theorem last?_eq_none {as : List Attribute} {name : String} (h : ∀ a ∈ as, a.name ≠ name) :
    last? as name = none := by
  rw [last?, Option.map_eq_none_iff, List.find?_eq_none]
  intro a ha
  rw [decide_eq_true_iff]
  exact h a (List.mem_reverse.mp ha)

/-- A set says each name once, so its last word is its only one. -/
theorem last?_toList (s : AttributeSet) (name : String) : last? s.toList name = s.get? name := by
  unfold last?
  cases hfind : s.toList.reverse.find? fun a => a.name = name with
  | none =>
    rw [List.find?_eq_none] at hfind
    cases hget : s.get? name with
    | none => rfl
    | some found =>
      have hmem : (⟨name, found.1, found.2⟩ : Attribute) ∈ s.toList := mem_toList.mpr hget
      exact absurd (decide_eq_true rfl) (hfind _ (List.mem_reverse.mpr hmem))
  | some a =>
    have hname : a.name = name := by simpa using List.find?_some hfind
    have hmem : a ∈ s.toList := List.mem_reverse.mp (List.mem_of_find?_eq_some hfind)
    rw [mem_toList, hname] at hmem
    exact hmem.symm

/-! ### What the operations answer -/

theorem get?_add (s : AttributeSet) (as : List Attribute) (name : String) :
    (s.add as).get? name = (last? as name).or (s.get? name) := by
  induction as generalizing s with
  | nil => rfl
  | cons a as ih =>
    rw [add_cons, ih, get?_insert, last?_cons, Option.or_assoc]
    by_cases h : a.name = name <;> simp [h]

theorem get?_ofList (as : List Attribute) (name : String) :
    (ofList as).get? name = last? as name := by
  rw [ofList, get?_add, get?_empty, Option.or_none]

/-- A set says nothing that was not said. -/
theorem mem_of_mem_ofList {as : List Attribute} {a : Attribute} (h : a ∈ (ofList as).toList) :
    a ∈ as := by
  rw [mem_toList, get?_ofList, last?, Option.map_eq_some_iff] at h
  obtain ⟨b, hfind, heq⟩ := h
  have hname : b.name = a.name := by simpa using List.find?_some hfind
  have hmem : b ∈ as := List.mem_reverse.mp (List.mem_of_find?_eq_some hfind)
  obtain ⟨hvalue, hkind⟩ := Prod.mk.inj heq
  cases a
  cases b
  cases hname
  cases hvalue
  cases hkind
  exact hmem

@[simp] theorem get?_union (s t : AttributeSet) (name : String) :
    (s.union t).get? name = (t.get? name).or (s.get? name) := by
  rw [union, get?_add, last?_toList]

/-- Under another set, only the names that it does not have make a difference. -/
theorem union_congr_left {s t u : AttributeSet}
    (h : ∀ name, u.get? name = none → s.get? name = t.get? name) : s.union u = t.union u := by
  refine ext_get? fun name => ?_
  rw [get?_union, get?_union]
  cases hget : u.get? name with
  | some found => rfl
  | none => rw [h name hget]

theorem get?_filter (p : Attribute → Bool) (s : AttributeSet) (name : String) :
    (s.filter p).get? name =
      (s.get? name).filter fun found => p ⟨name, found.1, found.2⟩ :=
  Keyed.get?_filter s.sorted _ name

theorem mem_toList_filter {p : Attribute → Bool} {s : AttributeSet} {a : Attribute} :
    a ∈ (s.filter p).toList ↔ a ∈ s.toList ∧ p a = true := by
  rw [mem_toList, mem_toList, get?_filter, Option.filter_eq_some_iff]

@[simp] theorem get?_withoutKeysOf (s other : AttributeSet) (name : String) :
    (s.withoutKeysOf other).get? name =
      if other.contains name then none else s.get? name := by
  rw [withoutKeysOf, get?_filter]
  by_cases h : other.contains name = true
  · cases s.get? name <;> simp [h]
  · cases s.get? name <;> simp [h]

/-- A union has the attributes of the second set, and those of the first one under other names. -/
theorem mem_toList_union {s t : AttributeSet} {a : Attribute} :
    a ∈ (s.union t).toList ↔ a ∈ (s.withoutKeysOf t).toList ∨ a ∈ t.toList := by
  rw [mem_toList, mem_toList, mem_toList, get?_union, get?_withoutKeysOf, contains]
  cases t.get? a.name <;> simp

/-! ### Merging -/

@[simp] theorem empty_union (s : AttributeSet) : empty.union s = s := by
  refine ext_get? fun name => ?_
  rw [get?_union, get?_empty, Option.or_none]

theorem merge_pair (s t : AttributeSet) : merge [s, t] = s.union t := by
  show (empty.union s).union t = s.union t
  rw [empty_union]

theorem merge_triple (s t u : AttributeSet) : merge [s, t, u] = (s.union t).union u := by
  show ((empty.union s).union t).union u = (s.union t).union u
  rw [empty_union]

/-! ### Matching -/

theorem satisfies_iff {s query : AttributeSet} :
    s.satisfies query = true ↔ ∀ a ∈ query.toList, s.meets a = true :=
  List.all_eq_true

theorem satisfies_singleton (s : AttributeSet) (a : Attribute) :
    s.satisfies (ofList [a]) = s.meets a :=
  Bool.and_true _

/-- A set meets a condition for the name of one of its attributes, if the values agree. -/
theorem meets_of_agrees {s : AttributeSet} {a wanted : Attribute} (ha : a ∈ s.toList)
    (hname : wanted.name = a.name) (hkind : wanted.kind = .present)
    (hvalue : a.value.agrees wanted.value = true) : s.meets wanted = true := by
  rw [mem_toList] at ha
  rw [meets, hkind]
  simp only [holds, hname, ha, hvalue]

/-- A set that satisfies a query has what the query wants present. -/
theorem holds_of_satisfies {s query : AttributeSet} (h : s.satisfies query = true) {name : String}
    {wanted : Value} (hwanted : query.get? name = some (wanted, .present)) :
    s.holds name wanted = true :=
  satisfies_iff.mp h ⟨name, wanted, .present⟩ (mem_toList.mpr hwanted)

/-! ### Keys -/

/-- Whether a set can be the key of a resource: every attribute is present, and has a literal
value. -/
def IsKey (s : AttributeSet) : Prop :=
  ∀ a ∈ s.toList, a.kind = .present ∧ ∃ text, a.value = .literal text

theorem mem_toList_presentOnly {s : AttributeSet} {a : Attribute} :
    a ∈ s.presentOnly.toList ↔
      a ∈ s.toList ∧ a.kind = .present ∧ ∃ text, a.value = .literal text := by
  have hvalue : a.value.isWildcard = false ↔ ∃ text, a.value = .literal text := by
    cases a.value <;> simp [Value.isWildcard]
  rw [presentOnly, mem_toList_filter, ← hvalue]
  simp

theorem get?_presentOnly_eq_some_iff {s : AttributeSet} {name text : String} :
    s.presentOnly.get? name = some (.literal text, .present) ↔
      s.get? name = some (.literal text, .present) := by
  have hmem := @mem_toList_presentOnly s ⟨name, .literal text, .present⟩
  rw [mem_toList, mem_toList] at hmem
  exact hmem.trans (and_iff_left ⟨rfl, text, rfl⟩)

theorem isKey_presentOnly (s : AttributeSet) : s.presentOnly.IsKey :=
  fun _ ha => (mem_toList_presentOnly.mp ha).2

theorem IsKey.literal_of_get? {s : AttributeSet} (hs : s.IsKey) {name : String}
    {found : Value × Kind} (h : s.get? name = some found) :
    ∃ text, found = (.literal text, .present) := by
  obtain ⟨value, kind⟩ := found
  have hmem : (⟨name, value, kind⟩ : Attribute) ∈ s.toList := mem_toList.mpr h
  obtain ⟨rfl, text, rfl⟩ := hs _ hmem
  exact ⟨text, rfl⟩

/-- A set that could be a key already keeps all its attributes. -/
theorem IsKey.presentOnly_eq {s : AttributeSet} (hs : s.IsKey) : s.presentOnly = s := by
  refine ext_toList fun a => ?_
  rw [mem_toList_presentOnly]
  exact ⟨And.left, fun ha => ⟨ha, hs a ha⟩⟩

theorem IsKey.withoutKeysOf {s : AttributeSet} (hs : s.IsKey) (other : AttributeSet) :
    (s.withoutKeysOf other).IsKey :=
  fun _ ha => hs _ (mem_toList_filter.mp ha).1

theorem IsKey.union {s t : AttributeSet} (hs : s.IsKey) (ht : t.IsKey) : (s.union t).IsKey := by
  intro a ha
  rcases mem_toList_union.mp ha with ha | ha
  · exact hs.withoutKeysOf t a ha
  · exact ht a ha

/-- A set that can be a key is kept where it comes last. -/
theorem IsKey.mem_presentOnly_union {t : AttributeSet} (ht : t.IsKey) (s : AttributeSet)
    {a : Attribute} (ha : a ∈ t.toList) : a ∈ (s.union t).presentOnly.toList :=
  mem_toList_presentOnly.mpr ⟨mem_toList_union.mpr (Or.inr ha), ht a ha⟩

/-- Keys that are shown with the same names and values are the same. -/
theorem IsKey.equivalent_iff {s t : AttributeSet} (hs : s.IsKey) (ht : t.IsKey) :
    s.equivalent t = true ↔ s = t := by
  -- a key is restored from its names and values, since every kind is the same
  have hrestore {u : AttributeSet} (hu : u.IsKey) :
      (u.entries.map fun e => (e.1, e.2.1)).map (fun e => (e.1, e.2, Kind.present)) =
        u.entries := by
    rw [List.map_map]
    conv => rhs; rw [← List.map_id u.entries]
    refine List.map_congr_left fun e he => ?_
    have hkind : e.2.2 = .present := (hu _ (List.mem_map.mpr ⟨e, he, rfl⟩)).1
    simp only [Function.comp, id, ← hkind]
  constructor
  · intro h
    have hnames : (s.entries.map fun e => (e.1, e.2.1)) =
        t.entries.map fun e => (e.1, e.2.1) := by simpa [equivalent] using h
    have hentries : s.entries = t.entries := by
      rw [← hrestore hs, ← hrestore ht, hnames]
    cases s
    cases t
    simpa using hentries
  · rintro rfl
    simp [equivalent]

/-- A set that holds every condition of a query, and only wants what is present, satisfies it. -/
theorem IsKey.satisfies {s query : AttributeSet} (hquery : query.IsKey)
    (h : ∀ a ∈ query.toList, a ∈ s.toList) : s.satisfies query = true := by
  refine satisfies_iff.mpr fun a ha => ?_
  obtain ⟨hkind, text, hvalue⟩ := hquery a ha
  refine meets_of_agrees (h a ha) rfl hkind ?_
  rw [hvalue, Value.agrees_literal, decide_eq_true_iff]

/-- What a query asks for with a literal value is in every key that satisfies it. -/
theorem IsKey.get?_of_asked {s query : AttributeSet} (hs : s.IsKey)
    (h : s.satisfies query = true) {name : String} {found : Value × Kind}
    (hasked : query.presentOnly.get? name = some found) : s.get? name = some found := by
  obtain ⟨text, rfl⟩ := (isKey_presentOnly query).literal_of_get? hasked
  have hholds := holds_of_satisfies h (get?_presentOnly_eq_some_iff.mp hasked)
  unfold holds at hholds
  cases hget : s.get? name with
  | none =>
    rw [hget] at hholds
    cases hholds
  | some other =>
    -- both values are literal, so they agree only if they are the same
    obtain ⟨value, rfl⟩ := hs.literal_of_get? hget
    rw [hget] at hholds
    have heq : value = text := by simpa using hholds
    rw [heq]

end AttributeSet

end Understudy
