import Understudy.Proofs.AttributeSet.View
import Understudy.Proofs.Collection.Operations

/-!
# Understudy.Proofs.Collection.Distinction

What queries can tell of keys.

A set that can be a key is a query for all its attributes, and the keys that satisfy it are those
that have them (`IsKey.satisfies_iff`). So between keys `satisfies` is the inclusion of their
attributes: an order. If two keys answer every query alike, they answer alike to each other, and so
they are the same (`IsKey.eq_iff_forall_satisfies`). A resource is overwritten by one with its key;
what is lost then is a body that no query could have told from the new one.

All of this is wrong of sets in general: a wildcard agrees with values that the set does not have,
and a set that wants an attribute absent and has it under the same name does not satisfy itself.
-/

namespace Understudy

namespace AttributeSet

variable {s t u : AttributeSet}

/-- A key satisfies another one exactly if it has all its attributes. -/
theorem IsKey.satisfies_iff (hs : s.IsKey) (ht : t.IsKey) :
    s.satisfies t = true ↔ t.toList ⊆ s.toList := by
  refine ⟨fun h a ha => ?_, fun h => ht.satisfies fun a ha => h ha⟩
  rw [mem_toList] at ha ⊢
  rw [← ht.presentOnly_eq] at ha
  exact hs.get?_of_asked h ha

theorem IsKey.satisfies_self (hs : s.IsKey) : s.satisfies s = true :=
  hs.satisfies fun _ ha => ha

theorem IsKey.satisfies_trans (hs : s.IsKey) (ht : t.IsKey) (hu : u.IsKey)
    (hst : s.satisfies t = true) (htu : t.satisfies u = true) : s.satisfies u = true := by
  rw [hs.satisfies_iff ht] at hst
  rw [ht.satisfies_iff hu] at htu
  exact (hs.satisfies_iff hu).mpr fun a ha => hst (htu ha)

theorem IsKey.satisfies_antisymm (hs : s.IsKey) (ht : t.IsKey) (hst : s.satisfies t = true)
    (hts : t.satisfies s = true) : s = t := by
  rw [hs.satisfies_iff ht] at hst
  rw [ht.satisfies_iff hs] at hts
  exact ext_toList fun a => ⟨fun ha => hts ha, fun ha => hst ha⟩

/-- Keys that no query tells apart are the same; each of the two is a query that would do. -/
theorem IsKey.eq_iff_forall_satisfies (hs : s.IsKey) (ht : t.IsKey) :
    s = t ↔ ∀ query, s.satisfies query = t.satisfies query := by
  constructor
  · rintro rfl query
    rfl
  · intro h
    refine hs.satisfies_antisymm ht ?_ ?_
    · rw [h]
      exact ht.satisfies_self
    · rw [← h]
      exact hs.satisfies_self

end AttributeSet

namespace Collection

/-- **Keys and queries.** Among sets that can be keys:

* one satisfies another exactly if it has each of its names with the same value; so every key
  satisfies itself, what satisfies a key satisfies all that it satisfies, and keys that satisfy each
  other agree in their names and values;
* two keys agree in their names and values exactly if every query, with conditions of whatever kind
  and with wildcards, is satisfied by both or by neither of them;
* of resources with distinct keys, one that is put takes the place of exactly that resource whose
  key no query tells from the new one. -/
theorem keys_distinguished {s t u : AttributeSet} (hs : s.IsKey) (ht : t.IsKey) (hu : u.IsKey) :
    (s.satisfies t = true ↔ t.toList ⊆ s.toList) ∧
    s.satisfies s = true ∧
    (s.satisfies t = true → t.satisfies u = true → s.satisfies u = true) ∧
    (s.satisfies t = true → t.satisfies s = true → s.equivalent t = true) ∧
    (s.equivalent t = true ↔ ∀ query, s.satisfies query = t.satisfies query) ∧
    ∀ (rs : List Resource) (body : String), (rs.map (·.key)).Nodup → (∀ r ∈ rs, r.key.IsKey) →
      ∀ r ∈ rs, r ∉ put ⟨s, body⟩ rs ↔
        r ≠ ⟨s, body⟩ ∧ ∀ query, r.key.satisfies query = s.satisfies query := by
  have hequivalent := hs.equivalent_iff ht
  refine ⟨hs.satisfies_iff ht, hs.satisfies_self, hs.satisfies_trans ht hu, ?_, ?_, ?_⟩
  · intro hst hts
    exact hequivalent.mpr (hs.satisfies_antisymm ht hst hts)
  · exact hequivalent.trans (hs.eq_iff_forall_satisfies ht)
  · intro rs body hdistinct hkeys r hr
    rw [mem_put_iff hs hkeys hdistinct, not_or, and_iff_right hr, Decidable.not_not,
      (hkeys r hr).eq_iff_forall_satisfies hs]

/-- Of three resources with one body, the one is overwritten that has an owner and nothing else
beside it, as the new one has. The one with a tenant as well satisfies both of the others, but is
told from the new one by a query for the tenant. -/
theorem keys_distinguished_overwritten :
    let rules := Rules.json
    let body := "\x7b\"id\":1\x7d"
    let key := fun path => rules.key path body
    let plain : Resource := ⟨key "/pods", body⟩
    let owned : Resource := ⟨key "/pods?owner=ann", body⟩
    let rented : Resource := ⟨key "/pods?owner=ann&tenant=t1", body⟩
    let new : Resource := ⟨key "/pods?owner=ann&tier=*&zone!=a", "\x7b\"id\":1,\"tags\":[1]\x7d"⟩
    let rs := [plain, owned, rented]
    rented.key.satisfies plain.key = true ∧
    owned ∉ put new rs ∧ (∀ query, owned.key.satisfies query = new.key.satisfies query) ∧
    rented ∈ put new rs ∧ new.key.satisfies rented.key = false := by
  intro rules body key plain owned rented new rs
  have hkey : ∀ path, (key path).IsKey := fun path => AttributeSet.isKey_presentOnly _
  have hkeys : ∀ r ∈ rs, r.key.IsKey := by
    intro r hr
    simp only [rs, List.mem_cons, List.not_mem_nil, or_false] at hr
    rcases hr with rfl | rfl | rfl <;> exact hkey _
  have hdistinct : (rs.map (·.key)).Nodup := by decide +kernel
  have hmatches : (rented.key.satisfies owned.key, owned.key.satisfies plain.key,
      new.key.satisfies rented.key, decide (owned.key = new.key)) = (true, true, false, true) := by
    decide +kernel
  obtain ⟨hrented, hmatches⟩ := Prod.mk.inj hmatches
  obtain ⟨howned, hmatches⟩ := Prod.mk.inj hmatches
  obtain ⟨hnew, hsame⟩ := Prod.mk.inj hmatches
  have hsame : owned.key = new.key := of_decide_eq_true hsame
  obtain ⟨-, hself, htrans, -⟩ := keys_distinguished (hkey _ : rented.key.IsKey)
    (hkey _ : owned.key.IsKey) (hkey _ : plain.key.IsKey)
  obtain ⟨-, -, -, -, -, hput⟩ := keys_distinguished (hkey _ : new.key.IsKey)
    (hkey _ : owned.key.IsKey) (hkey _ : plain.key.IsKey)
  -- the wildcard and the negated condition are not in the key, so it is that of the second one
  have halike : ∀ query, owned.key.satisfies query = new.key.satisfies query := by
    rw [hsame]
    exact fun query => rfl
  refine ⟨htrans hrented howned, ?_, halike, ?_, hnew⟩
  · refine (hput rs new.body hdistinct hkeys owned (.tail _ (.head _))).mpr ⟨?_, halike⟩
    intro heq
    exact absurd (congrArg Resource.body heq) (by decide)
  · refine Decidable.byContradiction fun hnot => ?_
    have hall := ((hput rs new.body hdistinct hkeys rented (.tail _ (.tail _ (.head _)))).mp hnot).2
    rw [← hall, hself] at hnew
    cases hnew

end Collection

end Understudy
