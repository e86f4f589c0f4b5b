import Understudy.Collection
import Understudy.Proofs.AttributeSet.View

/-!
# Understudy.Proofs.Collection.Operations

What the operations on a collection do to its resources.

`put` keeps the keys that are there, in their order, and adds at most its own. A patch that goes
through changes each selected resource by itself, and then puts the results after the others, one by
one (`patch_eq_ok`). Runs are sequences of operations, in which a patch that fails changes nothing.
-/

namespace Understudy

namespace Collection

/-! ### Putting resources

`put` looks for a key with the same names and values. Between sets that can be keys that is the same
set, and all that is put has such a key, so the resources of a collection are `Stored`. -/

/-- Whether every resource has a key that can be one. -/
def Stored (rs : List Resource) : Prop := ∀ r ∈ rs, r.key.IsKey

theorem Stored.nil : Stored [] := by
  intro r hr
  cases hr

theorem Stored.head {r : Resource} {rs : List Resource} (h : Stored (r :: rs)) : r.key.IsKey :=
  h r (.head rs)

theorem Stored.tail {r : Resource} {rs : List Resource} (h : Stored (r :: rs)) : Stored rs :=
  fun s hs => h s (.tail r hs)

theorem Stored.sublist {rs ss : List Resource} (h : Stored rs) (hss : ss.Sublist rs) : Stored ss :=
  fun s hs => h s (hss.subset hs)

/-- Among stored resources, a resource is put in place of one with its key. -/
theorem put_cons {new r : Resource} (hnew : new.key.IsKey) (hr : r.key.IsKey)
    (rs : List Resource) :
    put new (r :: rs) = if r.key = new.key then new :: rs else r :: put new rs := by
  rw [put]
  by_cases h : r.key = new.key
  · rw [if_pos h, if_pos ((hr.equivalent_iff hnew).mpr h), h]
  · rw [if_neg h, if_neg (mt (hr.equivalent_iff hnew).mp h)]

section Put

variable {new : Resource} (hnew : new.key.IsKey)
include hnew

/-- After a resource is put, there is no other one that was not there before. -/
theorem mem_put {rs : List Resource} (hrs : Stored rs) {r : Resource} (h : r ∈ put new rs) :
    r = new ∨ r ∈ rs := by
  induction rs with
  | nil => exact Or.inl (List.mem_singleton.mp h)
  | cons u rs ih =>
    rw [put_cons hnew hrs.head] at h
    split at h
    · rcases List.mem_cons.mp h with h | h
      · exact Or.inl h
      · exact Or.inr (.tail u h)
    · rcases List.mem_cons.mp h with rfl | h
      · exact Or.inr (.head rs)
      · exact (ih hrs.tail h).imp_right (.tail u)

theorem Stored.put {rs : List Resource} (hrs : Stored rs) : Stored (put new rs) := by
  intro r hr
  rcases mem_put hnew hrs hr with rfl | hr
  · exact hnew
  · exact hrs r hr

theorem self_mem_put {rs : List Resource} (hrs : Stored rs) : new ∈ put new rs := by
  induction rs with
  | nil => exact .head []
  | cons r rs ih =>
    rw [put_cons hnew hrs.head]
    split
    · exact .head rs
    · exact .tail r (ih hrs.tail)

/-- Among resources with distinct keys, a resource takes the place of the one with its key. -/
theorem mem_put_iff {rs : List Resource} (hrs : Stored rs) (h : (rs.map (·.key)).Nodup)
    {r : Resource} : r ∈ put new rs ↔ r = new ∨ r ∈ rs ∧ r.key ≠ new.key := by
  induction rs with
  | nil => simp [Collection.put]
  | cons u rs ih =>
    rw [List.map_cons] at h
    obtain ⟨hu, hdistinct⟩ := List.nodup_cons.mp h
    rw [put_cons hnew hrs.head, List.mem_cons]
    by_cases hkey : u.key = new.key
    · -- the keys differ, so nothing behind has the key that is replaced here
      have hothers : ∀ v ∈ rs, v.key ≠ new.key :=
        fun v hv heq => hu (hkey ▸ heq ▸ List.mem_map_of_mem hv)
      rw [if_pos hkey, List.mem_cons]
      refine or_congr_right ⟨fun hr => ⟨Or.inr hr, hothers r hr⟩, ?_⟩
      rintro ⟨rfl | hr, hne⟩
      · exact absurd hkey hne
      · exact hr
    · rw [if_neg hkey, List.mem_cons, ih hrs.tail hdistinct]
      constructor
      · rintro (rfl | rfl | ⟨hr, hne⟩)
        · exact Or.inr ⟨Or.inl rfl, hkey⟩
        · exact Or.inl rfl
        · exact Or.inr ⟨Or.inr hr, hne⟩
      · rintro (rfl | ⟨rfl | hr, hne⟩)
        · exact Or.inr (Or.inl rfl)
        · exact Or.inl rfl
        · exact Or.inr (Or.inr ⟨hr, hne⟩)

/-- The keys stay where they are, and a new one comes at the end. -/
theorem keys_put {rs : List Resource} (hrs : Stored rs) :
    (put new rs).map (·.key) =
      if new.key ∈ rs.map (·.key) then rs.map (·.key) else rs.map (·.key) ++ [new.key] := by
  induction rs with
  | nil => rfl
  | cons r rs ih =>
    rw [put_cons hnew hrs.head]
    by_cases h : r.key = new.key
    · simp [h]
    · rw [if_neg h, List.map_cons, ih hrs.tail]
      by_cases hmem : new.key ∈ rs.map (·.key)
      · rw [if_pos hmem, if_pos (.tail r.key hmem), List.map_cons]
      · have hnot : new.key ∉ (r :: rs).map (·.key) := by
          rw [List.map_cons, List.mem_cons]
          rintro (heq | hmem')
          · exact h heq.symm
          · exact hmem hmem'
        rw [if_neg hmem, if_neg hnot, List.map_cons, List.cons_append]

/-- Distinct keys stay distinct when a resource is put. -/
theorem nodup_keys_put {rs : List Resource} (hrs : Stored rs) (h : (rs.map (·.key)).Nodup) :
    ((put new rs).map (·.key)).Nodup := by
  rw [keys_put hnew hrs]
  split
  · exact h
  · rename_i hnot
    refine List.nodup_append.mpr ⟨h, List.pairwise_singleton _ _, ?_⟩
    intro key hkey k hk
    rw [List.mem_singleton.mp hk]
    exact fun heq => hnot (heq ▸ hkey)

/-- A resource with a key that is not there yet comes at the end. -/
theorem put_of_fresh {rs : List Resource} (hrs : Stored rs) (h : ∀ r ∈ rs, r.key ≠ new.key) :
    put new rs = rs ++ [new] := by
  induction rs with
  | nil => rfl
  | cons r rs ih =>
    rw [put_cons hnew hrs.head, if_neg (h r (.head rs)), ih hrs.tail fun r hr => h r (.tail _ hr),
      List.cons_append]

end Put

/-- A resource that is there already changes nothing. -/
theorem put_of_mem {r : Resource} {rs : List Resource} (hrs : Stored rs)
    (h : (rs.map (·.key)).Nodup) (hr : r ∈ rs) : put r rs = rs := by
  induction rs with
  | nil => cases hr
  | cons u rs ih =>
    rw [List.map_cons] at h
    obtain ⟨hu, hdistinct⟩ := List.nodup_cons.mp h
    rw [put_cons (hrs r hr) hrs.head]
    rcases List.mem_cons.mp hr with rfl | hr
    · rw [if_pos rfl]
    · have hne : u.key ≠ r.key := fun heq => hu (heq ▸ List.mem_map_of_mem hr)
      rw [if_neg hne, ih hrs.tail hdistinct hr]

@[simp] theorem putAll_nil (rs : List Resource) : putAll rs [] = rs := rfl

@[simp] theorem putAll_cons (rs new : List Resource) (r : Resource) :
    putAll rs (r :: new) = putAll (put r rs) new := rfl

section PutAll

variable {new : List Resource} (hnew : Stored new)
include hnew

/-- After resources are put, there are no others that were not there before. -/
theorem mem_putAll {rs : List Resource} (hrs : Stored rs) {r : Resource}
    (h : r ∈ putAll rs new) : r ∈ new ∨ r ∈ rs := by
  induction new generalizing rs with
  | nil => exact Or.inr h
  | cons u new ih =>
    rcases ih hnew.tail (hrs.put hnew.head) h with h | h
    · exact Or.inl (.tail u h)
    · rcases mem_put hnew.head hrs h with rfl | h
      · exact Or.inl (.head new)
      · exact Or.inr h

theorem Stored.putAll {rs : List Resource} (hrs : Stored rs) : Stored (putAll rs new) :=
  fun r hr => (mem_putAll hnew hrs hr).elim (hnew r) (hrs r)

theorem nodup_keys_putAll {rs : List Resource} (hrs : Stored rs) (h : (rs.map (·.key)).Nodup) :
    ((putAll rs new).map (·.key)).Nodup := by
  induction new generalizing rs with
  | nil => exact h
  | cons r new ih =>
    exact ih hnew.tail (hrs.put hnew.head) (nodup_keys_put hnew.head hrs h)

/-- Resources with keys of their own are put at the end, in order. -/
theorem putAll_of_fresh {rs : List Resource} (hrs : Stored rs)
    (hdistinct : (new.map (·.key)).Nodup) (h : ∀ r ∈ rs, ∀ u ∈ new, r.key ≠ u.key) :
    putAll rs new = rs ++ new := by
  induction new generalizing rs with
  | nil => rw [putAll_nil, List.append_nil]
  | cons u new ih =>
    rw [List.map_cons] at hdistinct
    obtain ⟨hu, hdistinct⟩ := List.nodup_cons.mp hdistinct
    have hput : put u rs = rs ++ [u] :=
      put_of_fresh hnew.head hrs fun r hr => h r hr u (.head new)
    rw [putAll_cons, hput, List.append_cons rs u new]
    refine ih hnew.tail (hput ▸ hrs.put hnew.head) hdistinct ?_
    intro r hr v hv
    rcases List.mem_append.mp hr with hr | hr
    · exact h r hr v (.tail u hv)
    · -- the resource that has just been put has another key than those still to come
      rw [List.mem_singleton.mp hr]
      exact fun heq => hu (heq ▸ List.mem_map_of_mem hv)

end PutAll

/-! ### Patching resources -/

/-- Patching several resources goes through if it does for each of them. -/
theorem patchResources_eq_ok {rules : Rules} {path : String} {change : Change}
    {rs us : List Resource} :
    patchResources rules path change rs = .ok us ↔
      rs.map (patchResource rules path change) = us.map .ok := by
  induction rs generalizing us with
  | nil =>
    rw [patchResources, List.map_nil]
    constructor
    · intro h
      cases h
      rfl
    · intro h
      rw [List.map_eq_nil_iff.mp h.symm]
  | cons r rs ih =>
    rw [patchResources, List.map_cons]
    cases hr : patchResource rules path change r with
    | error e => cases us <;> simp
    | ok u =>
      cases hrs : patchResources rules path change rs with
      | error e =>
        cases us with
        | nil => simp
        | cons v us =>
          have hnot : rs.map (patchResource rules path change) ≠ us.map .ok := by
            rw [Ne, ← ih, hrs]
            simp
          simp [hnot]
      | ok vs =>
        have hvs := ih.mp hrs
        cases us with
        | nil => simp
        | cons v us =>
          have heq : vs = us ↔ rs.map (patchResource rules path change) = us.map .ok := by
            rw [← ih, hrs]
            simp
          simp [heq]

theorem length_of_patchResources {rules : Rules} {path : String} {change : Change}
    {rs us : List Resource} (h : patchResources rules path change rs = .ok us) :
    us.length = rs.length := by
  have hmap := congrArg List.length (patchResources_eq_ok.mp h)
  rw [List.length_map, List.length_map] at hmap
  exact hmap.symm

/-- The result of a patch comes from one of the resources. -/
theorem exists_of_patchResources {rules : Rules} {path : String} {change : Change}
    {rs us : List Resource} (h : patchResources rules path change rs = .ok us) {u : Resource}
    (hu : u ∈ us) : ∃ r ∈ rs, patchResource rules path change r = .ok u := by
  rw [patchResources_eq_ok] at h
  have hmem : Except.ok u ∈ rs.map (patchResource rules path change) := by
    rw [h]
    exact List.mem_map_of_mem hu
  exact List.mem_map.mp hmem

/-- Each of the resources has a result. -/
theorem exists_patchResources {rules : Rules} {path : String} {change : Change}
    {rs us : List Resource} (h : patchResources rules path change rs = .ok us) {r : Resource}
    (hr : r ∈ rs) : ∃ u ∈ us, patchResource rules path change r = .ok u := by
  rw [patchResources_eq_ok] at h
  have hmem : patchResource rules path change r ∈ us.map .ok := by
    rw [← h]
    exact List.mem_map_of_mem hr
  obtain ⟨u, hu, heq⟩ := List.mem_map.mp hmem
  exact ⟨u, hu, heq.symm⟩

/-- The result of a patch on one resource is the new body under its new key. -/
theorem patchResource_eq_ok {rules : Rules} {path : String} {change : Change}
    {r u : Resource} :
    patchResource rules path change r = .ok u ↔
      ∃ body, patchBody change r.body = .ok body ∧ u = ⟨rekey rules path r body, body⟩ := by
  rw [patchResource]
  cases patchBody change r.body with
  | error e => simp
  | ok body => simp [eq_comm]

/-- Patched resources have keys that can be keys, whatever they are patched from. -/
theorem stored_of_patchResources {rules : Rules} {path : String} {change : Change}
    {rs us : List Resource} (h : patchResources rules path change rs = .ok us) : Stored us := by
  intro u hu
  obtain ⟨r, -, hr⟩ := exists_of_patchResources h hu
  obtain ⟨body, -, rfl⟩ := patchResource_eq_ok.mp hr
  exact AttributeSet.isKey_presentOnly _

/-- A patch that goes through has selected nothing, or it has changed all that it has selected. -/
theorem patch_eq_ok {rules : Rules} {path text : String} {c d : Collection}
    {response : Response} (h : c.patch rules path text = .ok (response, d)) :
    (c.selected rules path = [] ∧ response = .notFound ∧ d = c) ∨
    ∃ change us, c.selected rules path ≠ [] ∧ rules.ofPatch? text = some change ∧
      patchResources rules path change (c.selected rules path) = .ok us ∧
      response = (⟨202, [], .empty, none⟩ : Response).withText
        (rules.write (us.map (·.body))) ∧
      d = ⟨putAll (c.others rules path) us⟩ := by
  unfold patch at h
  cases hsel : c.selected rules path with
  | nil =>
    rw [hsel] at h
    cases h
    exact Or.inl ⟨rfl, rfl, rfl⟩
  | cons r rs =>
    rw [hsel] at h
    simp only at h
    split at h
    · cases h
    · rename_i change hparse
      split at h
      · cases h
      · rename_i us hus
        cases h
        exact Or.inr ⟨change, us, by simp, hparse, hus, rfl, rfl⟩

/-- A patch whose status was computed is answered with it. -/
theorem exists_patch_of_status {rules : Rules} {path text : String} {c : Collection}
    {status : UInt16}
    (h : (c.patch rules path text).toOption.map (·.1.status) = some status) :
    ∃ response d, c.patch rules path text = .ok (response, d) ∧ response.status = status := by
  cases hpatch : c.patch rules path text with
  | error e =>
    rw [hpatch] at h
    cases h
  | ok result =>
    rw [hpatch] at h
    exact ⟨result.1, result.2, rfl, Option.some.inj h⟩

/-! ### Runs -/

/-- An operation on a collection. -/
inductive Operation where
  | create (path body : String)
  | patch (path text : String)
  | get (path : String)
  | delete (path : String)
  | clear
deriving Repr, DecidableEq

/-- The collection after an operation. -/
def Operation.apply (rules : Rules) (c : Collection) : Operation → Collection
  | create path body => (c.create rules path body).2
  | patch path text =>
    match c.patch rules path text with
    | .ok (_, d) => d
    | .error _ => c
  | get _ => c
  | delete path => (c.delete rules path).2
  | clear => .empty

/-- The collection after some operations, in order. -/
def after (rules : Rules) (c : Collection) (ops : List Operation) : Collection :=
  ops.foldl (Operation.apply rules) c

/-- Creations put their bodies one by one. -/
theorem after_creations (rules : Rules) (creations : List (String × String)) (c : Collection) :
    c.after rules (creations.map fun creation => .create creation.1 creation.2) =
      ⟨putAll c.resources
        (creations.map fun creation => ⟨rules.key creation.1 creation.2, creation.2⟩)⟩ := by
  induction creations generalizing c with
  | nil => rfl
  | cons creation creations ih => exact ih (c.create rules creation.1 creation.2).2

/-! ### What a path addresses -/

theorem get_of_selected {rules : Rules} {path : String} {c : Collection} {rs : List Resource}
    (h : c.selected rules path = rs) (hne : rs ≠ []) :
    c.get rules path =
      (⟨200, [], .empty, none⟩ : Response).withText (rules.write (rs.map (·.body))) := by
  rw [get, h]
  cases rs with
  | nil => exact absurd rfl hne
  | cons r rs => rfl

theorem selectedBy_of_mem_others {rules : Rules} {path : String} {c : Collection} {r : Resource}
    (hr : r ∈ c.others rules path) : r.selectedBy rules path = false := by
  simpa using (List.mem_filter.mp hr).2

theorem others_sublist (rules : Rules) (path : String) (c : Collection) :
    (c.others rules path).Sublist c.resources :=
  List.filter_sublist

/-- Dropping what a path selects leaves the others, also if it selects nothing. -/
theorem delete_resources (rules : Rules) (path : String) (c : Collection) :
    (c.delete rules path).2.resources = c.others rules path := by
  unfold delete
  cases hsel : c.selected rules path with
  | nil =>
    have hnone : ∀ r ∈ c.resources, ¬ r.selectedBy rules path = true :=
      List.filter_eq_nil_iff.mp hsel
    rw [others, List.filter_eq_self.mpr]
    intro r hr
    simpa using hnone r hr
  | cons r rs => rfl

theorem delete_status {rules : Rules} {path : String} {c : Collection}
    (h : c.selected rules path ≠ []) : (c.delete rules path).1.status = 200 := by
  unfold delete
  cases hsel : c.selected rules path with
  | nil => exact absurd hsel h
  | cons r rs => rfl

end Collection

end Understudy
