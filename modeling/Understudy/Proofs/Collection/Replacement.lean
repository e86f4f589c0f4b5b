import Understudy.Proofs.Collection.Retrieval

/-!
# Understudy.Proofs.Collection.Replacement

A patch does what a deletion and some creations do.

The two ways to a key differ in what comes before the attributes of the new body: `create` has those
of the path, and `patch` what is left of the old key, and then what its path asks for. If the old
key was that of a creation, only the attribute `path` can be left of it, and what is asked for adds
nothing that the new body does not have itself. So the keys are the same (`rekey_eq_key`), and since
both ways put the bodies after the resources that were not selected, one by one, the collections are
the same too, whatever takes the place of what (`after_creates`).
-/

namespace Understudy

namespace AttributeSet

/-! ### Paths with queries -/

theorem splitPath_cases (cs : List Char) :
    ('?' ∉ cs ∧ splitPath cs = (cs, [])) ∨
    ∃ base query, cs = base ++ '?' :: query ∧ '?' ∉ base ∧ splitPath cs = (base, query) := by
  by_cases hmem : '?' ∈ cs
  · obtain ⟨base, query, rfl, hbase⟩ := List.eq_append_cons_of_mem hmem
    refine Or.inr ⟨base, query, rfl, hbase, ?_⟩
    rw [splitPath, Text.cut_of_mem hbase, Option.getD_some]
  · refine Or.inl ⟨hmem, ?_⟩
    rw [splitPath, Text.cut_eq_none hmem, Option.getD_none]

/-- A path without its query. -/
def basePath (path : String) : String := String.ofList (splitPath path.toList).1

theorem not_mem_basePath (path : String) : '?' ∉ (basePath path).toList := by
  rw [basePath, String.toList_ofList]
  rcases splitPath_cases path.toList with ⟨hnot, heq⟩ | ⟨base, query, -, hbase, heq⟩
  · rw [heq]
    exact hnot
  · rw [heq]
    exact hbase

/-- What a path asks for: itself, and what the conditions of its query say. -/
theorem ofPath_eq (path : String) :
    ofPath path = ofList (⟨pathName, .literal (baseName (basePath path).toList), .present⟩ ::
      conditions (splitPath path.toList).2) := by
  rw [ofPath, basePath, String.toList_ofList]

/-- A path asks for itself where no condition is on that. -/
theorem get?_presentOnly_ofPath {path : String}
    (h : ∀ a ∈ conditions (splitPath path.toList).2, a.name ≠ pathName) :
    (ofPath path).presentOnly.get? pathName =
      some (.literal (baseName (basePath path).toList), .present) := by
  have hmem : (⟨pathName, .literal (baseName (basePath path).toList), .present⟩ : Attribute) ∈
      (ofPath path).toList := by
    rw [mem_toList, ofPath_eq, get?_ofList, last?_cons, last?_eq_none h, Option.none_or, if_pos rfl]
  exact mem_toList.mp (mem_toList_presentOnly.mpr ⟨hmem, rfl, _, rfl⟩)

/-- Other than itself, a path asks for values only where a condition does. -/
theorem get?_presentOnly_ofPath_eq_none {path name : String} (hname : name ≠ pathName)
    (h : ∀ value, ⟨name, .literal value, .present⟩ ∉ conditions (splitPath path.toList).2) :
    (ofPath path).presentOnly.get? name = none := by
  cases hget : (ofPath path).presentOnly.get? name with
  | none => rfl
  | some found =>
    obtain ⟨value, kind⟩ := found
    have hmem : (⟨name, value, kind⟩ : Attribute) ∈ (ofPath path).presentOnly.toList :=
      mem_toList.mpr hget
    obtain ⟨hasked, rfl, text, rfl⟩ := mem_toList_presentOnly.mp hmem
    rw [ofPath_eq] at hasked
    rcases List.mem_cons.mp (mem_of_mem_ofList hasked) with heq | hcondition
    · exact absurd (congrArg Attribute.name heq) hname
    · exact absurd hcondition (h text)

end AttributeSet

namespace Collection

open AttributeSet (ofPath ofBody pathName basePath conditions splitPath)

section Rules

variable {rules : Rules} (hpath : rules.ofPath = ofPath) (hbody : rules.ofBody = ofBody)
include hpath hbody

/-! ### Keys -/

/-- A patch gives a body the key that it would be created under. -/
theorem rekey_eq_key {path : String} {r : Resource} {body : String}
    (hnames : ∀ a ∈ conditions (splitPath path.toList).2, a.name ≠ pathName)
    (hkey : r.key = rules.key (basePath path) r.body)
    (hasked : ∀ name value,
      ⟨name, .literal value, .present⟩ ∈ conditions (splitPath path.toList).2 →
        (ofBody body).contains name = true) :
    rekey rules path r body = rules.key (basePath path) body := by
  have hbase : '?' ∉ (basePath path).toList := AttributeSet.not_mem_basePath path
  have hnew : ((ofPath (basePath path)).union (ofBody body)).IsKey :=
    (AttributeSet.isKey_ofPath_base hbase).union (AttributeSet.isKey_ofBody body)
  have hbefore : ((r.key.withoutKeysOf (ofBody r.body)).union (ofPath path).presentOnly).union
      (ofBody body) = (ofPath (basePath path)).union (ofBody body) := by
    refine AttributeSet.union_congr_left fun name hnone => ?_
    rw [AttributeSet.get?_union, AttributeSet.get?_ofPath_base hbase]
    by_cases hname : pathName = name
    · rw [← hname, AttributeSet.get?_presentOnly_ofPath hnames, Option.some_or, if_pos rfl]
    · -- neither the path nor the old key has an attribute that the new body does not have
      have hpathNone : (ofPath path).presentOnly.get? name = none := by
        refine AttributeSet.get?_presentOnly_ofPath_eq_none (Ne.symm hname) fun value hvalue => ?_
        have hcontains := hasked name value hvalue
        rw [AttributeSet.contains, hnone] at hcontains
        cases hcontains
      have hkeyNone : (r.key.withoutKeysOf (ofBody r.body)).get? name = none := by
        rw [AttributeSet.get?_withoutKeysOf, hkey, key_eq_union hpath hbody hbase,
          AttributeSet.get?_union, AttributeSet.get?_ofPath_base hbase, if_neg hname,
          Option.or_none, AttributeSet.contains]
        cases (ofBody r.body).get? name <;> rfl
      rw [hpathNone, hkeyNone, if_neg hname, Option.none_or]
  rw [rekey, AttributeSet.merge_triple, key_eq_union hpath hbody hbase, hbody, hpath, hbefore,
    hnew.presentOnly_eq]

/-- A patched resource is the one that its new body would be created as. -/
theorem patchResource_eq_created {path : String} {change : Change} {r u : Resource}
    (hnames : ∀ a ∈ conditions (splitPath path.toList).2, a.name ≠ pathName)
    (hkey : r.key = rules.key (basePath path) r.body)
    (hu : patchResource rules path change r = .ok u)
    (hasked : ∀ name value,
      ⟨name, .literal value, .present⟩ ∈ conditions (splitPath path.toList).2 →
        (ofBody u.body).contains name = true) :
    u = ⟨rules.key (basePath path) u.body, u.body⟩ := by
  obtain ⟨body, -, rfl⟩ := patchResource_eq_ok.mp hu
  rw [rekey_eq_key hpath hbody hnames hkey hasked]

end Rules

/-! ### Collections -/

/-- The bodies of resources after a patch, in order, as far as it goes through on them. -/
def patchedBodies (rules : Rules) (text : String) (rs : List Resource) : List String :=
  match rules.ofPatch? text with
  | none => []
  | some change => rs.filterMap fun r => (patchBody change r.body).toOption

theorem patchedBodies_nil (rules : Rules) (text : String) : patchedBodies rules text [] = [] := by
  unfold patchedBodies
  split <;> rfl

/-- A patch that goes through has a body for each of the resources. -/
theorem patchedBodies_eq {rules : Rules} {path text : String} {change : Change}
    {rs us : List Resource} (hparse : rules.ofPatch? text = some change)
    (hus : patchResources rules path change rs = .ok us) :
    patchedBodies rules text rs = us.map (·.body) := by
  have hbodies : (fun r : Resource => (patchBody change r.body).toOption) =
      (fun result => result.toOption.map (·.body)) ∘ patchResource rules path change := by
    funext r
    rw [Function.comp, patchResource]
    cases patchBody change r.body <;> rfl
  rw [patchedBodies, hparse]
  show rs.filterMap _ = _
  rw [hbodies, ← List.filterMap_map, patchResources_eq_ok.mp hus, List.filterMap_map]
  show us.filterMap (some ∘ (·.body)) = _
  rw [List.filterMap_eq_map]

/-- Creations under one path put the bodies one by one. -/
theorem after_creates (rules : Rules) (base : String) (bodies : List String) (c : Collection) :
    c.after rules (bodies.map (.create base)) =
      ⟨putAll c.resources (bodies.map fun body => ⟨rules.key base body, body⟩)⟩ := by
  have h := after_creations rules (bodies.map fun body => (base, body)) c
  rw [List.map_map, List.map_map] at h
  exact h

/-- **Patching as replacement.** On a collection of JSON documents, let no condition of a path be on
`path` itself, and let each resource that it selects have the key that it would be created under.
Let a patch go through that it addresses, and let the new bodies have a field for each condition
`k=v` with a literal value. Then all selected resources have a new body, and the collection is the
one that is left after the path has been deleted and the new bodies have been created in order, also
where their keys are the same as others.

Conditions of all other forms may be on any names, and a body may have a field `path`. -/
theorem patch_as_replacement (compose : List String → String) (ofPatch? : String → Option Change)
    (c : Collection) (path text : String) :
    let rules : Rules := .documents compose ofPatch?
    let base := basePath path
    let asked := conditions (splitPath path.toList).2
    let bodies := patchedBodies rules text (c.selected rules path)
    (∀ a ∈ asked, a.name ≠ pathName) →
    (∀ r ∈ c.selected rules path, r.key = rules.key base r.body) →
    (∀ body ∈ bodies, ∀ name value, ⟨name, .literal value, .present⟩ ∈ asked →
      (ofBody body).contains name = true) →
    ∀ response d, c.patch rules path text = .ok (response, d) →
      bodies.length = (c.selected rules path).length ∧
      d = c.after rules (.delete path :: bodies.map (.create base)) := by
  intro rules base asked bodies hnames hkeys hasked response d hpatch
  have hdelete : ∀ ops, c.after rules (.delete path :: ops) =
      (⟨c.others rules path⟩ : Collection).after rules ops := by
    intro ops
    rw [← delete_resources]
    rfl
  rcases patch_eq_ok hpatch with ⟨hnil, -, hsame⟩ | ⟨change, us, -, hparse, hus, -, rfl⟩
  · have hbodies : bodies = [] := by
      show patchedBodies rules text (c.selected rules path) = []
      rw [hnil, patchedBodies_nil]
    have hkeep : (c.delete rules path).2 = c := by
      rw [delete, hnil]
    rw [hbodies, hnil, hsame]
    exact ⟨rfl, hkeep.symm⟩
  · have hbodies : bodies = us.map (·.body) := patchedBodies_eq hparse hus
    -- each of them has the key that its body would be created under
    have hcreated : bodies.map (fun body => (⟨rules.key base body, body⟩ : Resource)) = us := by
      rw [hbodies, List.map_map]
      conv => rhs; rw [← List.map_id us]
      refine List.map_congr_left fun u hu => ?_
      obtain ⟨r, hr, hpatched⟩ := exists_of_patchResources hus hu
      have hbody : u.body ∈ bodies := by
        rw [hbodies]
        exact List.mem_map_of_mem hu
      exact (patchResource_eq_created rfl rfl hnames (hkeys r hr) hpatched
        (hasked u.body hbody)).symm
    refine ⟨?_, ?_⟩
    · rw [hbodies, List.length_map, length_of_patchResources hus]
    · rw [hdelete, after_creates, hcreated]

/-- Two bodies get one key, which is that of a resource that the path does not select. The last one
of them takes its place. -/
theorem patch_as_replacement_colliding :
    let rules : Rules := .documents Rules.bracketed Json.Patch.change?
    let c := empty.after rules
      [.create "/pods" "\x7b\"id\":1,\"kind\":\"pod\",\"tags\":[1]\x7d",
        .create "/pods" "\x7b\"id\":9,\"kind\":\"pod\"\x7d",
        .create "/pods" "\x7b\"id\":2,\"kind\":\"pod\",\"tags\":[2]\x7d"]
    let path := "/pods?kind=pod&id!=9"
    let text := "[\x7b\"op\":\"replace\",\"path\":\"/id\",\"value\":9\x7d]"
    ∃ response d, c.patch rules path text = .ok (response, d) ∧
      d = c.after rules [.delete path,
        .create "/pods" "\x7b\"id\":9,\"kind\":\"pod\",\"tags\":[1]\x7d",
        .create "/pods" "\x7b\"id\":9,\"kind\":\"pod\",\"tags\":[2]\x7d"] ∧
      d.resources.map (·.body) = ["\x7b\"id\":9,\"kind\":\"pod\",\"tags\":[2]\x7d"] := by
  intro rules c path text
  have hasked : conditions (splitPath path.toList).2 =
      [⟨"kind", .literal "pod", .present⟩, ⟨"id", .literal "9", .absent⟩] := by decide +kernel
  have hbase : basePath path = "/pods" := by decide +kernel
  have hkeys : ∀ r ∈ c.selected rules path, r.key = rules.key "/pods" r.body := by decide +kernel
  have hresult : (patchedBodies rules text (c.selected rules path),
      (c.patch rules path text).toOption.map fun result => result.2.resources.map (·.body)) =
      (["\x7b\"id\":9,\"kind\":\"pod\",\"tags\":[1]\x7d",
        "\x7b\"id\":9,\"kind\":\"pod\",\"tags\":[2]\x7d"],
        some ["\x7b\"id\":9,\"kind\":\"pod\",\"tags\":[2]\x7d"]) := by decide +kernel
  obtain ⟨hbodies, hresult⟩ := Prod.mk.inj hresult
  have hkind : ∀ body ∈ patchedBodies rules text (c.selected rules path),
      (ofBody body).contains "kind" = true := by
    rw [hbodies]
    decide +kernel
  have hnames : ∀ a ∈ conditions (splitPath path.toList).2, a.name ≠ pathName := by
    rw [hasked]
    decide
  have hliteral : ∀ name value,
      ⟨name, .literal value, .present⟩ ∈ conditions (splitPath path.toList).2 → name = "kind" := by
    rw [hasked]
    simp
  -- what has been computed is kept as facts, and the values are forgotten
  clear_value c path text
  rw [← hbase] at hkeys ⊢
  cases hpatch : c.patch rules path text with
  | error e =>
    rw [hpatch] at hresult
    cases hresult
  | ok result =>
    obtain ⟨response, d⟩ := result
    rw [hpatch] at hresult
    obtain ⟨-, hsame⟩ := patch_as_replacement Rules.bracketed Json.Patch.change? c path text hnames
      hkeys (fun body hbody name value ha => hliteral name value ha ▸ hkind body hbody)
      response d hpatch
    rw [hbodies] at hsame
    exact ⟨response, d, rfl, hsame, Option.some.inj hresult⟩

end Collection

end Understudy
