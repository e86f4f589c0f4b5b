import Mathlib.Data.List.Induction
import Mathlib.Data.List.Nodup
import Understudy.Proofs.AttributeSet.View
import Understudy.Proofs.Collection.Operations

/-!
# Understudy.Proofs.Collection.Overwriting

What a sequence of creations leaves.

Each creation puts one resource, whose key depends on nothing but the path and the body. So a
collection that is created from nothing is `putAll` of these resources, and by induction on them,
from the last one on: its keys are those of the resources without the repeated ones (`keys_putAll`),
and under each of them is the last resource with that key (`mem_putAll_iff`). Everything else
follows from these two, since for the last one under a key only the order among those with this key
matters.
-/

namespace Understudy

namespace Collection

/-! ### Resources that are put -/

theorem putAll_concat (rs us : List Resource) (u : Resource) :
    putAll rs (us ++ [u]) = put u (putAll rs us) := by
  simp [putAll]

theorem Stored.of_concat {us : List Resource} {u : Resource} (h : Stored (us ++ [u])) :
    Stored us ∧ u.key.IsKey :=
  ⟨h.sublist (List.sublist_append_left us [u]), h u (List.mem_append_right us (.head []))⟩

/-- Each key comes once, where it came first. -/
theorem keys_putAll {us : List Resource} (hus : Stored us) :
    (putAll [] us).map (·.key) = (us.map (·.key)).eraseDups := by
  induction us using List.reverseRecOn with
  | nil => rfl
  | append_singleton us u ih =>
    obtain ⟨hus, hu⟩ := hus.of_concat
    rw [putAll_concat, keys_put hu (.putAll hus .nil), ih hus, List.map_append,
      List.eraseDups_append]
    simp only [List.mem_eraseDups]
    by_cases hmem : u.key ∈ us.map (·.key)
    · have hknown : ([u].map (·.key)).removeAll (us.map (·.key)) = [] := by
        simpa [List.removeAll] using hmem
      rw [if_pos hmem, hknown, List.eraseDups_nil, List.append_nil]
    · have hnew : ([u].map (·.key)).removeAll (us.map (·.key)) = [u.key] := by
        simpa [List.removeAll] using hmem
      rw [if_neg hmem, hnew]
      rfl

theorem nodup_keys_putAll_nil {us : List Resource} (hus : Stored us) :
    ((putAll [] us).map (·.key)).Nodup :=
  nodup_keys_putAll hus .nil List.nodup_nil

/-- Under each key stays the last resource that was put. -/
theorem mem_putAll_iff {us : List Resource} (hus : Stored us) {r : Resource} :
    r ∈ putAll [] us ↔ (us.filter (·.key = r.key)).getLast? = some r := by
  induction us using List.reverseRecOn with
  | nil => simp
  | append_singleton us u ih =>
    obtain ⟨hus, hu⟩ := hus.of_concat
    rw [putAll_concat, mem_put_iff hu (.putAll hus .nil) (nodup_keys_putAll_nil hus), ih hus,
      List.filter_append]
    by_cases hkey : u.key = r.key
    · simp [hkey, eq_comm]
    · have hne : r ≠ u := fun heq => hkey (heq ▸ rfl)
      simp [hkey, hne, Ne.symm hkey]

/-- The order of resources with different keys makes no difference to what stays. -/
theorem putAll_perm {us vs : List Resource} (hus : Stored us) (hvs : Stored vs)
    (h : ∀ key, us.filter (·.key = key) = vs.filter (·.key = key)) :
    (putAll [] us).Perm (putAll [] vs) := by
  have husNodup := List.Nodup.of_map _ (nodup_keys_putAll_nil hus)
  have hvsNodup := List.Nodup.of_map _ (nodup_keys_putAll_nil hvs)
  refine (List.perm_ext_iff_of_nodup husNodup hvsNodup).mpr fun r => ?_
  rw [mem_putAll_iff hus, mem_putAll_iff hvs, h]

/-! ### Creations -/

/-- The resource that a creation puts, from its path and body. -/
def Rules.made (rules : Rules) (creation : String × String) : Resource :=
  ⟨rules.key creation.1 creation.2, creation.2⟩

theorem Rules.isKey_made (rules : Rules) (creation : String × String) :
    (rules.made creation).key.IsKey :=
  AttributeSet.isKey_presentOnly _

theorem stored_made (rules : Rules) (creations : List (String × String)) :
    Stored (creations.map rules.made) := by
  intro r hr
  obtain ⟨creation, -, rfl⟩ := List.mem_map.mp hr
  exact rules.isKey_made creation

/-- The collection that is created from nothing, by creations with paths and bodies. -/
def created (rules : Rules) (creations : List (String × String)) : Collection :=
  empty.after rules (creations.map fun creation => .create creation.1 creation.2)

theorem created_eq (rules : Rules) (creations : List (String × String)) :
    created rules creations = ⟨putAll [] (creations.map rules.made)⟩ :=
  after_creations rules creations empty

/-- Two creations have keys that count as the same exactly if they have one key. -/
theorem equivalent_key_iff (rules : Rules) (path body path' body' : String) :
    (rules.key path body).equivalent (rules.key path' body') = true ↔
      rules.key path body = rules.key path' body' :=
  (AttributeSet.isKey_presentOnly _).equivalent_iff (AttributeSet.isKey_presentOnly _)

/-- **Creating again.** For every way to read paths and bodies, a sequence of creations on an empty
collection leaves

* one resource under each key, in the order in which the keys came first, where keys are the same
  that agree in their names and values;
* with the body of the last creation under that key.

So a creation that is repeated changes nothing, and neither does one whose body has stayed. All
creations are kept that have keys of their own. Another sequence leaves the same resources, if it
has the same creations in the same order under each key. -/
theorem creations_overwrite (rules : Rules) (creations : List (String × String)) :
    let made := creations.map rules.made
    let c := created rules creations
    c.resources.map (·.key) = (made.map (·.key)).eraseDups ∧
    (∀ r ∈ made, ∀ s ∈ made, r.key.equivalent s.key = true ↔ r.key = s.key) ∧
    (∀ r, r ∈ c.resources ↔ (made.filter (·.key = r.key)).getLast? = some r) ∧
    (∀ path body, rules.made (path, body) ∈ c.resources → (c.create rules path body).2 = c) ∧
    (∀ path body, let d := (c.create rules path body).2
      (d.create rules path body).2 = d) ∧
    ((made.map (·.key)).Nodup → c.resources = made) ∧
    ∀ others : List (String × String),
      (∀ key, (others.map rules.made).filter (·.key = key) = made.filter (·.key = key)) →
        (created rules others).resources.Perm c.resources := by
  intro made c
  have hc : c = ⟨putAll [] made⟩ := created_eq rules creations
  have hmade : Stored made := stored_made rules creations
  have hstored : Stored c.resources := by
    rw [hc]
    exact .putAll hmade .nil
  have hdistinct : (c.resources.map (·.key)).Nodup := by
    rw [hc]
    exact nodup_keys_putAll_nil hmade
  -- everything is a fact about putting what was made into an empty collection
  refine ⟨?_, ?_, ?_, ?_, ?_, ?_, ?_⟩
  · rw [hc]
    exact keys_putAll hmade
  · intro r hr s hs
    obtain ⟨⟨path, body⟩, -, rfl⟩ := List.mem_map.mp hr
    obtain ⟨⟨path', body'⟩, -, rfl⟩ := List.mem_map.mp hs
    exact equivalent_key_iff rules path body path' body'
  · intro r
    rw [hc]
    exact mem_putAll_iff hmade
  · intro path body hmem
    exact congrArg Collection.mk (put_of_mem hstored hdistinct hmem)
  · intro path body d
    have hnew := rules.isKey_made (path, body)
    exact congrArg Collection.mk (put_of_mem (hstored.put hnew)
      (nodup_keys_put hnew hstored hdistinct) (self_mem_put hnew hstored))
  · intro hown
    rw [hc]
    exact putAll_of_fresh hmade .nil hown fun r hr => absurd hr List.not_mem_nil
  · intro others hothers
    rw [hc, created_eq]
    exact putAll_perm (stored_made rules others) hmade hothers

/-- The second body that is created under a key comes in the place of the first one, wherever in
between another key comes. What a path asks not to be there is in no key. -/
theorem creations_overwrite_reordered :
    let rules := Rules.json
    let first := ("/items?tag!=1", "\x7b\"id\":1\x7d")
    let other := ("/items", "\x7b\"id\":2\x7d")
    let second := ("/items//?tag=*", "\x7b\"id\":1,\"tags\":[1]\x7d")
    (created rules [first, other, second]).resources.map (·.body) = [second.2, other.2] ∧
    ((created rules [first, other, second]).create rules second.1 second.2).2 =
      created rules [first, other, second] ∧
    (created rules [other, first, second]).resources.Perm
      (created rules [first, other, second]).resources := by
  intro rules first other second
  have hresources : (created rules [first, other, second]).resources =
      [rules.made second, rules.made other] := by decide +kernel
  have hne : (rules.made first).key ≠ (rules.made other).key := by decide +kernel
  obtain ⟨-, -, -, hagain, -, -, hothers⟩ :=
    creations_overwrite rules [first, other, second]
  refine ⟨?_, hagain second.1 second.2 ?_, hothers [other, first, second] fun key => ?_⟩
  · rw [hresources]
    rfl
  · rw [hresources]
    exact .head _
  · -- the first two have different keys, so at most one of them stays for each key
    by_cases hfirst : (rules.made first).key = key
    · have hother : (rules.made other).key ≠ key := fun heq => hne (hfirst.trans heq.symm)
      simp [List.filter_cons, hother]
    · simp [List.filter_cons, hfirst]

end Collection

end Understudy
