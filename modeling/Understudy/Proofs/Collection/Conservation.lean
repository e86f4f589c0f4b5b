import Understudy.Proofs.Collection.Keys

/-!
# Understudy.Proofs.Collection.Conservation

What a patch that goes through keeps.

The patched resources are put after the others, one by one. That never moves one of the others: each
keeps its place and its key, and has at most been replaced by a resource with that key, and what is
left of the patched ones comes at the end (`putAll_append`). A resource is lost exactly where two
keys meet (`length_putAll_eq_iff`).

The new key of a patched resource describes its new body. An attribute of neither body is in it as
it was before: the addressing query may put it there, but has asked the old key for it, so it was
there already (`get?_rekey_of_silent`).
-/

namespace Understudy

namespace Collection

open AttributeSet (ofPath ofBody)

/-! ### Places -/

/-- What is in the place of a resource after others were put: the last one of them with its key. -/
def Resource.replacedBy (us : List Resource) (r : Resource) : Resource :=
  (us.reverse.find? fun u => u.key = r.key).getD r

theorem Resource.replacedBy_cons (r u : Resource) (us : List Resource) :
    r.replacedBy (u :: us) = (if u.key = r.key then u else r).replacedBy us := by
  rw [replacedBy, List.reverse_cons, List.find?_append]
  by_cases h : u.key = r.key
  · rw [if_pos h, replacedBy, h]
    cases us.reverse.find? (fun v => v.key = r.key) <;> simp [h]
  · rw [if_neg h, replacedBy]
    cases us.reverse.find? (fun v => v.key = r.key) <;> simp [h]

theorem Resource.replacedBy_cases (us : List Resource) (r : Resource) :
    r.replacedBy us = r ∨ r.replacedBy us ∈ us ∧ (r.replacedBy us).key = r.key := by
  unfold replacedBy
  cases hfind : us.reverse.find? fun u => u.key = r.key with
  | none => exact Or.inl rfl
  | some u =>
    have hkey : u.key = r.key := by simpa using List.find?_some hfind
    exact Or.inr ⟨List.mem_reverse.mp (List.mem_of_find?_eq_some hfind), hkey⟩

@[simp] theorem Resource.key_replacedBy (us : List Resource) (r : Resource) :
    (r.replacedBy us).key = r.key := by
  rcases r.replacedBy_cases us with heq | ⟨-, hkey⟩
  · rw [heq]
  · exact hkey

/-- A resource is put in the place of the one with its key, or after all with other keys. -/
theorem put_append {new : Resource} (hnew : new.key.IsKey) {rs : List Resource} (hrs : Stored rs)
    (h : (rs.map (·.key)).Nodup) (ts : List Resource) :
    put new (rs ++ ts) = rs.map (fun r => if new.key = r.key then new else r) ++
      if new.key ∈ rs.map (·.key) then ts else put new ts := by
  induction rs with
  | nil => rfl
  | cons r rs ih =>
    rw [List.map_cons] at h
    obtain ⟨hr, hdistinct⟩ := List.nodup_cons.mp h
    rw [List.cons_append, put_cons hnew hrs.head, List.map_cons, List.map_cons]
    by_cases hkey : r.key = new.key
    · -- keys are distinct, so nothing behind this one is replaced
      have hrest : rs.map (fun r => if new.key = r.key then new else r) = rs := by
        conv => rhs; rw [← List.map_id rs]
        refine List.map_congr_left fun s hs => if_neg fun heq => hr ?_
        rw [hkey, heq]
        exact List.mem_map_of_mem hs
      rw [if_pos hkey, if_pos hkey.symm, hrest, if_pos (hkey ▸ .head _), List.cons_append]
    · have hmem : new.key ∈ r.key :: rs.map (·.key) ↔ new.key ∈ rs.map (·.key) := by
        rw [List.mem_cons, or_iff_right (Ne.symm hkey)]
      rw [if_neg hkey, if_neg (Ne.symm hkey), ih hrs.tail hdistinct, List.cons_append]
      simp only [hmem]

/-- Resources that are put one after the other leave the others in their places, and what has no
place among them comes at the end. -/
theorem putAll_append {us : List Resource} (hus : Stored us) {rs : List Resource}
    (hrs : Stored rs) (h : (rs.map (·.key)).Nodup) (ts : List Resource) :
    putAll (rs ++ ts) us = rs.map (·.replacedBy us) ++
      putAll ts (us.filter fun u => u.key ∉ rs.map (·.key)) := by
  induction us generalizing rs ts with
  | nil => rw [List.filter_nil, putAll_nil, putAll_nil, show Resource.replacedBy [] = id from rfl,
      List.map_id]
  | cons u us ih =>
    -- putting one resource replaces at most one in front, and leaves the keys there as they are
    have hkeys : (rs.map fun r => if u.key = r.key then u else r).map (·.key) =
        rs.map (·.key) := by
      rw [List.map_map]
      refine List.map_congr_left fun r _ => ?_
      show (if u.key = r.key then u else r).key = r.key
      split
      · assumption
      · rfl
    have hplaces : (rs.map fun r => if u.key = r.key then u else r).map (·.replacedBy us) =
        rs.map (·.replacedBy (u :: us)) := by
      rw [List.map_map]
      exact List.map_congr_left fun r _ => (r.replacedBy_cons u us).symm
    have hstored : Stored (rs.map fun r => if u.key = r.key then u else r) := by
      intro s hs
      obtain ⟨r, hr, rfl⟩ := List.mem_map.mp hs
      split
      · exact hus.head
      · exact hrs r hr
    rw [putAll_cons, put_append hus.head hrs h, ih hus.tail hstored (hkeys ▸ h), hkeys, hplaces,
      List.filter_cons]
    -- either it has found its place in front, or it goes on to the rest
    by_cases hmem : u.key ∈ rs.map (·.key)
    · rw [if_pos hmem, if_neg (by simpa using hmem)]
    · rw [if_neg hmem, if_pos (by simpa using hmem), putAll_cons]

/-! ### Sizes -/

theorem length_put {new : Resource} (hnew : new.key.IsKey) {rs : List Resource} (hrs : Stored rs) :
    (put new rs).length = rs.length + if new.key ∈ rs.map (·.key) then 0 else 1 := by
  have hlength := congrArg List.length (keys_put hnew hrs)
  rw [List.length_map] at hlength
  rw [hlength]
  split
  · rw [List.length_map, Nat.add_zero]
  · rw [List.length_append, List.length_map, List.length_singleton]

theorem length_putAll_le {us : List Resource} (hus : Stored us) {rs : List Resource}
    (hrs : Stored rs) : (putAll rs us).length ≤ rs.length + us.length := by
  induction us generalizing rs with
  | nil => exact Nat.le_refl _
  | cons u us ih =>
    have hrest := ih hus.tail (hrs.put hus.head)
    have hput := length_put hus.head hrs
    rw [putAll_cons, List.length_cons]
    split at hput <;> omega

/-- Nothing is lost exactly if no two keys meet. -/
theorem length_putAll_eq_iff {us : List Resource} (hus : Stored us) {rs : List Resource}
    (hrs : Stored rs) :
    (putAll rs us).length = rs.length + us.length ↔
      (us.map (·.key)).Nodup ∧ ∀ u ∈ us, u.key ∉ rs.map (·.key) := by
  induction us generalizing rs with
  | nil => simp
  | cons u us ih =>
    rw [putAll_cons, List.length_cons, List.map_cons, List.nodup_cons, List.forall_mem_cons]
    have hle := length_putAll_le hus.tail (hrs.put hus.head)
    have hput := length_put hus.head hrs
    by_cases hu : u.key ∈ rs.map (·.key)
    · rw [if_pos hu] at hput
      refine iff_of_false (by omega) ?_
      rintro ⟨-, hnot, -⟩
      exact hnot hu
    · rw [if_neg hu] at hput
      have hkeys : (put u rs).map (·.key) = rs.map (·.key) ++ [u.key] := by
        rw [keys_put hus.head hrs, if_neg hu]
      have hrest : (putAll (put u rs) us).length = rs.length + (us.length + 1) ↔
          (putAll (put u rs) us).length = (put u rs).length + us.length := by omega
      rw [hrest, ih hus.tail (hrs.put hus.head), hkeys]
      -- a key that is put may be there already, or be put once more later
      constructor
      · rintro ⟨hdistinct, hfresh⟩
        refine ⟨⟨fun hmem => ?_, hdistinct⟩, hu, fun v hv hmem => hfresh v hv ?_⟩
        · obtain ⟨v, hv, heq⟩ := List.mem_map.mp hmem
          exact hfresh v hv (heq ▸ List.mem_append_right _ (.head []))
        · exact List.mem_append_left _ hmem
      · rintro ⟨⟨hnot, hdistinct⟩, -, hfresh⟩
        refine ⟨hdistinct, fun v hv hmem => ?_⟩
        rcases List.mem_append.mp hmem with hmem | hmem
        · exact hfresh v hv hmem
        · rw [← List.mem_singleton.mp hmem] at hnot
          exact hnot (List.mem_map_of_mem hv)

theorem size_eq (rules : Rules) (path : String) (c : Collection) :
    c.size = (c.others rules path).length + (c.selected rules path).length := by
  rw [size, others, selected, ← List.countP_eq_length_filter, ← List.countP_eq_length_filter,
    List.length_eq_countP_add_countP (·.selectedBy rules path), Nat.add_comm]
  simp

/-! ### Keys -/

theorem Resource.Fits.get?_of_body {r : Resource} (hr : r.Fits) {name : String}
    {found : Attribute.Value × Attribute.Kind} (h : (ofBody r.body).get? name = some found) :
    r.key.get? name = some found :=
  AttributeSet.mem_toList.mp
    (hr.describes ⟨name, found.1, found.2⟩ (AttributeSet.mem_toList.mpr h))

section Rules

variable {rules : Rules} {path : String}

/-- A pair of an old and a new resource is one that is patched. -/
theorem patchResource_of_mem_zip {change : Change} {rs us : List Resource}
    (h : patchResources rules path change rs = .ok us) {r u : Resource} (hru : (r, u) ∈ rs.zip us) :
    r ∈ rs ∧ patchResource rules path change r = .ok u := by
  rw [patchResources_eq_ok] at h
  induction rs generalizing us with
  | nil => cases hru
  | cons s rs ih =>
    cases us with
    | nil => cases hru
    | cons v us =>
      rw [List.map_cons, List.map_cons, List.cons.injEq] at h
      rw [List.zip_cons_cons, List.mem_cons] at hru
      rcases hru with heq | hru
      · cases heq
        exact ⟨.head rs, h.1⟩
      · obtain ⟨hr, hu⟩ := ih h.2 hru
        exact ⟨.tail s hr, hu⟩

variable (hbody : rules.ofBody = ofBody)
include hbody

/-- Where the old key can be a key, nothing that makes up the new one is left out of it. -/
theorem rekey_eq_union {r : Resource} (hr : r.key.IsKey) (body : String) :
    rekey rules path r body = ((r.key.withoutKeysOf (ofBody r.body)).union
      (rules.ofPath path).presentOnly).union (ofBody body) := by
  have hold : (r.key.withoutKeysOf (ofBody r.body)).IsKey := hr.withoutKeysOf _
  have hasked : (rules.ofPath path).presentOnly.IsKey := AttributeSet.isKey_presentOnly _
  have hkey := (hold.union hasked).union (AttributeSet.isKey_ofBody body)
  rw [rekey, AttributeSet.merge_triple, hbody, hkey.presentOnly_eq]

/-- What neither body says of an attribute stays as it is in the key. -/
theorem get?_rekey_of_silent {r : Resource} (hr : r.key.IsKey)
    (hselected : r.selectedBy rules path = true) {name body : String}
    (hold : (ofBody r.body).get? name = none) (hnew : (ofBody body).get? name = none) :
    (rekey rules path r body).get? name = r.key.get? name := by
  have hcarried : (r.key.withoutKeysOf (ofBody r.body)).get? name = r.key.get? name := by
    rw [AttributeSet.get?_withoutKeysOf, AttributeSet.contains, hold]
    rfl
  rw [rekey_eq_union hbody hr, AttributeSet.get?_union, AttributeSet.get?_union, hnew,
    Option.none_or, hcarried]
  cases hasked : (rules.ofPath path).presentOnly.get? name with
  | none => rfl
  | some found =>
    -- the resource has been asked for this, so it has it
    exact (hr.get?_of_asked hselected hasked).symm

end Rules

/-- What comes of a resource by patches that address it, one after the other, where no body on the
way has an attribute. A collection patches each resource by itself, so it may be any collection. -/
inductive Descends (rules : Rules) (name : String) : Resource → Resource → Prop where
  | refl {r : Resource} : (rules.ofBody r.body).get? name = none → Descends rules name r r
  | patched {r s u : Resource} {path : String} {change : Change} : Descends rules name r s →
      s.selectedBy rules path = true → patchResource rules path change s = .ok u →
      (rules.ofBody u.body).get? name = none → Descends rules name r u

theorem Descends.origin_silent {rules : Rules} {name : String} {r u : Resource}
    (h : Descends rules name r u) : (rules.ofBody r.body).get? name = none := by
  induction h with
  | refl hsilent => exact hsilent
  | patched _ _ _ _ ih => exact ih

theorem Descends.silent {rules : Rules} {name : String} {r u : Resource}
    (h : Descends rules name r u) : (rules.ofBody u.body).get? name = none := by
  cases h with
  | refl hsilent => exact hsilent
  | patched _ _ _ hsilent => exact hsilent

theorem Descends.fits {rules : Rules} (hbody : rules.ofBody = ofBody) {name : String}
    {r u : Resource} (h : Descends rules name r u) (hr : r.Fits) : u.Fits := by
  cases h with
  | refl => exact hr
  | patched _ _ hpatched _ => exact fits_patchResource hbody hpatched

/-- Any number of patches keeps what no body says. -/
theorem Descends.get?_key {rules : Rules} (hbody : rules.ofBody = ofBody) {name : String}
    {r u : Resource} (h : Descends rules name r u) (hr : r.Fits) :
    u.key.get? name = r.key.get? name := by
  induction h with
  | refl => rfl
  | patched hdescends hselected hpatched hsilent ih =>
    obtain ⟨body, -, rfl⟩ := patchResource_eq_ok.mp hpatched
    have hold := hdescends.silent
    rw [hbody] at hold hsilent
    rw [get?_rekey_of_silent hbody (hdescends.fits hbody hr).isKey hselected hold hsilent, ih]

/-- An attribute that only the path of a creation says is in the key as the path says it. -/
theorem get?_key_of_silent {rules : Rules} (hbody : rules.ofBody = ofBody) {path body name : String}
    (hsilent : (ofBody body).get? name = none) :
    (rules.key path body).get? name = (rules.ofPath path).presentOnly.get? name := by
  rw [Rules.key, AttributeSet.merge_pair, hbody, AttributeSet.presentOnly,
    AttributeSet.get?_filter, AttributeSet.get?_union, hsilent, Option.none_or,
    AttributeSet.presentOnly, AttributeSet.get?_filter]

/-- **What a patch keeps.** After any operations on a collection of JSON documents, let a patch go
through that addresses some resources.

* Each of the others keeps its place and its key. It keeps its body too, unless the new key of a
  patched resource is the same. What comes after them are patched resources with keys of their own.
* The new key of a patched resource has each attribute of the new body. An attribute that neither
  the old nor the new body has is in the new key as it was in the old one, or in neither of them. So
  what only the path of a creation says stays, whatever patches address the resource.
* The number of resources does not grow. It is the same exactly if the new keys are distinct, and
  none of them is that of another resource. -/
theorem patch_keeps (compose : List String → String) (ofPatch? : String → Option Change)
    (ops : List Operation) (path text : String) {response : Response} {d : Collection}
    (hpatch : (empty.after (.documents compose ofPatch?) ops).patch (.documents compose ofPatch?)
      path text = .ok (response, d))
    (hstatus : response.status = 202) :
    let rules : Rules := .documents compose ofPatch?
    let c := empty.after rules ops
    (∃ change us, rules.ofPatch? text = some change ∧
      patchResources rules path change (c.selected rules path) = .ok us ∧
      (∃ added, d.resources = (c.others rules path).map (·.replacedBy us) ++ added ∧
        ∀ u ∈ added, u ∈ us ∧ u.key ∉ (c.others rules path).map (·.key)) ∧
      (∀ r ∈ c.others rules path, (r.replacedBy us).key = r.key ∧
        ((r.replacedBy us).body ≠ r.body → ∃ u ∈ us, u.key = r.key)) ∧
      us.length = (c.selected rules path).length ∧
      (∀ r u, (r, u) ∈ (c.selected rules path).zip us → ∀ name,
        (∀ found, (ofBody u.body).get? name = some found → u.key.get? name = some found) ∧
        ((ofBody r.body).get? name = none → (ofBody u.body).get? name = none →
          u.key.get? name = r.key.get? name)) ∧
      d.size ≤ c.size ∧
      (d.size = c.size ↔
        (us.map (·.key)).Nodup ∧ ∀ u ∈ us, u.key ∉ (c.others rules path).map (·.key))) ∧
    ∀ base body name u, Descends rules name ⟨rules.key base body, body⟩ u →
      u.key.get? name = (ofPath base).presentOnly.get? name := by
  intro rules c
  have hc : c.WellKeyed := wellKeyed_empty.after rfl ops
  refine ⟨?_, ?_⟩
  · rcases patch_eq_ok hpatch with ⟨-, rfl, -⟩ | ⟨change, us, -, hparse, hus, -, rfl⟩
    · -- a path that selects nothing is answered with another status
      cases hstatus
    · have hothers : ((c.others rules path).map (·.key)).Nodup :=
        ((others_sublist rules path c).map _).nodup hc.distinct
      have hlength : us.length = (c.selected rules path).length := length_of_patchResources hus
      have hsize : c.size = (c.others rules path).length + us.length := by
        rw [hlength]
        exact size_eq rules path c
      have hstored : Stored (c.others rules path) := hc.stored.sublist (others_sublist rules path c)
      have hpatched : Stored us := stored_of_patchResources hus
      have hresources := putAll_append hpatched hstored hothers []
      rw [List.append_nil] at hresources
      refine ⟨change, us, hparse, hus, ⟨_, hresources, ?_⟩, ?_, hlength, ?_, ?_, ?_⟩
      · intro u hu
        rcases mem_putAll (hpatched.sublist List.filter_sublist) .nil hu with hu | hu
        · simpa using hu
        · cases hu
      · intro r _
        refine ⟨r.key_replacedBy us, fun hne => ?_⟩
        rcases r.replacedBy_cases us with heq | ⟨hmem, hkey⟩
        · exact absurd (congrArg (·.body) heq) hne
        · exact ⟨_, hmem, hkey⟩
      · intro r u hru name
        obtain ⟨hr, hu⟩ := patchResource_of_mem_zip hus hru
        obtain ⟨hresource, hselected⟩ := List.mem_filter.mp hr
        have hfits : u.Fits := fits_patchResource rfl hu
        refine ⟨fun found hfound => hfits.get?_of_body hfound, fun hold hnew => ?_⟩
        obtain ⟨body, -, rfl⟩ := patchResource_eq_ok.mp hu
        exact get?_rekey_of_silent rfl (hc.fits r hresource).isKey hselected hold hnew
      · rw [hsize]
        exact length_putAll_le hpatched hstored
      · rw [hsize]
        exact length_putAll_eq_iff hpatched hstored
  · intro base body name u hdescends
    rw [hdescends.get?_key rfl (fits_key rfl base body)]
    exact get?_key_of_silent rfl hdescends.origin_silent

/-- A patched resource gets the key of another one, and takes its place. The tenant that the path of
its creation has named is still in this key, and the resource of another tenant is as it was. -/
theorem patch_keeps_meeting :
    let rules : Rules := .documents Rules.bracketed Json.Patch.change?
    let body := "\x7b\"id\":1,\"tags\":[1]\x7d"
    let ops : List Operation := [.create "/pods?tenant=t1" body,
      .create "/pods?tenant=t1" "\x7b\"id\":9\x7d", .create "/pods?tenant=t2" "\x7b\"id\":9\x7d"]
    let c := empty.after rules ops
    let path := "/pods?id=1"
    let text := "[\x7b\"op\":\"replace\",\"path\":\"/id\",\"value\":9\x7d]"
    ∃ response d, c.patch rules path text = .ok (response, d) ∧ response.status = 202 ∧
      d.size < c.size ∧
      ∃ change u, patchResources rules path change (c.selected rules path) = .ok [u] ∧
        u.key.get? "tenant" = some (.literal "t1", .present) ∧
        (c.others rules path).map (fun r => (r.replacedBy [u]).body) =
          ["\x7b\"id\":9,\"tags\":[1]\x7d", "\x7b\"id\":9\x7d"] := by
  intro rules body ops c path text
  let created : Resource := ⟨rules.key "/pods?tenant=t1" body, body⟩
  have hselected : c.selected rules path = [created] := by decide +kernel
  have hsilent : (ofBody body).get? "tenant" = none := by decide +kernel
  have htenant : (ofPath "/pods?tenant=t1").presentOnly.get? "tenant" =
      some (.literal "t1", .present) := by decide +kernel
  have hstatus : (c.patch rules path text).toOption.map (·.1.status) = some 202 := by
    decide +kernel
  have hchanged : ((rules.ofPatch? text).bind fun change =>
      (patchResources rules path change (c.selected rules path)).toOption.map fun us =>
        (us.map fun u => ((ofBody u.body).get? "tenant",
          decide (u.key ∈ (c.others rules path).map (·.key))),
        (c.others rules path).map fun r => (r.replacedBy us).body)) =
      some ([(none, true)], ["\x7b\"id\":9,\"tags\":[1]\x7d", "\x7b\"id\":9\x7d"]) := by
    decide +kernel
  -- what has been computed is kept as facts, and the values are forgotten
  clear_value ops path text
  obtain ⟨response, d, hpatch, hstatus⟩ := exists_patch_of_status hstatus
  obtain ⟨⟨change, us, hparse, hus, -, -, hlength, -, hle, hiff⟩, hdescends⟩ :=
    patch_keeps Rules.bracketed Json.Patch.change? ops path text hpatch hstatus
  rw [hparse, Option.bind_some, hus] at hchanged
  obtain ⟨hnew, hbodies⟩ := Prod.mk.inj (Option.some.inj hchanged)
  obtain ⟨u, rfl⟩ : ∃ u, us = [u] := by
    rw [hselected] at hlength
    exact List.length_eq_one_iff.mp hlength
  obtain ⟨hnewSilent, hmeets⟩ := Prod.mk.inj (List.cons.inj hnew).1
  refine ⟨response, d, hpatch, hstatus, Nat.lt_of_le_of_ne hle ?_, change, u, hus, ?_, hbodies⟩
  · intro hsame
    exact (hiff.mp hsame).2 u (.head []) (of_decide_eq_true hmeets)
  · have hcreated : created ∈ c.selected rules path := by
      rw [hselected]
      exact .head []
    obtain ⟨-, hu⟩ := patchResource_of_mem_zip (u := u) hus (by rw [hselected]; exact .head [])
    have hpatched : Descends rules "tenant" created u :=
      .patched (.refl hsilent) (List.mem_filter.mp hcreated).2 hu hnewSilent
    rw [hdescends "/pods?tenant=t1" body "tenant" u hpatched, htenant]

end Collection

end Understudy
