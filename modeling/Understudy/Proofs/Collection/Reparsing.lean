import Understudy.Proofs.Collection.Atomicity
import Understudy.Proofs.Collection.Removal
import Understudy.Proofs.Json.Heredity

/-!
# Understudy.Proofs.Collection.Reparsing

How far a body that a patch has written can be read again.

A patched body is written, stored, and read for its attributes, and every later patch reads it once
more. Patches keep documents canonical, and without floats if the patch has none either, so what is
written is read back up to the depth of the reader (`Json.parse?_text`). But a patch can nest a
document deeper than that by copying parts of it into each other. Such a body is stored like any
other, and it is not JSON to the collection any more: its attributes are not seen, and no patch goes
through on it.
-/

namespace Understudy

namespace Collection

open AttributeSet (ofPath ofBody ofDocument)
open Json (Reader.maxDepth)

/-! ### Bodies that can be read, and bodies that cannot -/

/-- A resource whose body is read as a document: its fields are seen, and it is not the reason why a
later patch finds something that is not JSON. -/
structure Resource.Reads (rules : Rules) (u : Resource) (document : Json) : Prop where
  parses : Json.parse? u.body = some document
  attributes : ofBody u.body = ofDocument document
  described : ∀ a ∈ (ofDocument document).toList, a ∈ u.key.toList
  blameless : ∀ (later : Collection) other text,
    later.patch rules other text = .error .malformedJson → rules.ofPatch? text = none ∨
      ∃ s ∈ later.selected rules other, s.body ≠ u.body ∧ Json.parse? s.body = none

/-- A resource whose body is not read as any document: its fields are not seen, and no later patch
that selects it goes through. -/
structure Resource.Lost (rules : Rules) (u : Resource) : Prop where
  unparsed : Json.parse? u.body = none
  attributes : ofBody u.body = AttributeSet.empty
  obstructs : ∀ (later : Collection) other text, u ∈ later.selected rules other →
    ∃ fault, later.patch rules other text = .error fault

section Rules

variable {rules : Rules} {u : Resource}

/-- What a patch calls malformed is its own text, or a body that it selects. -/
theorem unparsed_of_patch {later : Collection} {other text : String}
    (h : later.patch rules other text = .error .malformedJson) :
    rules.ofPatch? text = none ∨
      ∃ s ∈ later.selected rules other, Json.parse? s.body = none := by
  obtain ⟨-, ⟨hnone, -⟩ | ⟨change, -, pre, s, post, hselected, -, hobstructs⟩⟩ :=
    patch_eq_error_iff.mp h
  · exact Or.inl hnone
  · cases hobstructs with
    | notJson hbody =>
      refine Or.inr ⟨s, ?_, hbody⟩
      rw [hselected]
      exact List.mem_append_right pre List.mem_cons_self

/-- A body that is a document reads as that document. -/
theorem reads_of_parse? (hu : u.Fits) {document : Json} (h : Json.parse? u.body = some document) :
    u.Reads rules document where
  parses := h
  attributes := by rw [ofBody, h]
  described := fun a ha => hu.describes a (by rwa [ofBody, h])
  blameless := by
    intro later other text herror
    refine (unparsed_of_patch herror).imp_right ?_
    rintro ⟨s, hs, hnone⟩
    -- a body that is blamed is not read, and this one is
    refine ⟨s, hs, fun heq => ?_, hnone⟩
    rw [heq, h] at hnone
    cases hnone

theorem lost_of_parse? (h : Json.parse? u.body = none) : u.Lost rules where
  unparsed := h
  attributes := by rw [ofBody, h]
  obstructs := by
    intro later other text hu
    refine exists_patch_eq_error_iff.mpr ⟨List.ne_nil_of_mem hu, ?_⟩
    cases hparse : rules.ofPatch? text with
    | none => exact Or.inl rfl
    | some change => exact Or.inr ⟨change, rfl, u, hu, .malformedJson, .notJson h⟩

end Rules

/-! ### Bodies after a patch -/

/-- A patched body is what is written of the document that the patch makes. -/
theorem text_of_patchBody {change : Change} {old new : String}
    (h : patchBody change old = .ok new) :
    ∃ document changed, Json.parse? old = some document ∧ change document = .ok changed ∧
      new = changed.text := by
  unfold patchBody at h
  split at h
  · cases h
  · next document hdocument =>
    split at h
    · cases h
    · next changed hchanged =>
      cases h
      exact ⟨document, changed, hdocument, hchanged, rfl⟩

/-- **Reading what a patch has written.** After any operations on a collection of JSON documents,
let a patch go through that addresses some resources. Each of them gets what is written of its
document as the patch changes it; if neither the document nor the patch has floats, the changed
document has none. And if the changed document has none, it is its depth that decides:

* Up to the depth of the reader the stored body is read as that document again, the new key has all
  its attributes, and a later patch never finds malformed JSON because of this body.
* Beyond it the stored body is not read at all. None of the attributes that the old body had is in
  the new key, other than as the path asks for them, and every later patch that selects the resource
  fails. -/
theorem patched_bodies_reread (compose : List String → String) (ops : List Operation)
    (path text : String) {response : Response} {d : Collection}
    (hpatch : (empty.after (.documents compose Json.Patch.change?) ops).patch
      (.documents compose Json.Patch.change?) path text = .ok (response, d))
    (hstatus : response.status = 202) :
    let rules : Rules := .documents compose Json.Patch.change?
    let c := empty.after rules ops
    ∃ patch us, Json.Patch.parse? text = some patch ∧
      patchResources rules path patch.change (c.selected rules path) = .ok us ∧
      us.length = (c.selected rules path).length ∧
      ∀ r u, (r, u) ∈ (c.selected rules path).zip us →
        ∃ document changed, Json.parse? r.body = some document ∧
          patch.apply document = .ok changed ∧ u.body = changed.text ∧
          (document.isIntegral = true →
            (∀ op ∈ patch, ∀ value ∈ op.put?, value.isIntegral = true) →
            changed.isIntegral = true) ∧
          (changed.isIntegral = true →
            (changed.depth ≤ Reader.maxDepth → u.Reads rules changed) ∧
            (Reader.maxDepth < changed.depth → u.Lost rules ∧
              ∀ name, (ofBody r.body).contains name = true →
                u.key.get? name = (ofPath path).presentOnly.get? name)) := by
  intro rules c
  have hc : c.WellKeyed := wellKeyed_empty.after rfl ops
  rcases patch_eq_ok hpatch with ⟨-, rfl, -⟩ | ⟨change, us, -, hchange, hus, -, -⟩
  · -- a path that selects nothing is answered with another status
    cases hstatus
  · obtain ⟨patch, hparse, rfl⟩ := Option.map_eq_some_iff.mp hchange
    refine ⟨patch, us, hparse, hus, length_of_patchResources hus, fun r u hru => ?_⟩
    obtain ⟨hr, hu⟩ := patchResource_of_mem_zip hus hru
    have hkey : r.key.IsKey := (hc.fits r (List.mem_filter.mp hr).1).isKey
    have hfits : u.Fits := fits_patchResource rfl hu
    obtain ⟨body, hbody, rfl⟩ := patchResource_eq_ok.mp hu
    obtain ⟨document, changed, hdocument, hchanged, rfl⟩ := text_of_patchBody hbody
    rw [Json.Patch.change_eq_ok_iff] at hchanged
    have hcanonical : changed.Canonical :=
      Json.hereditary_canonical.patch (Json.Patch.canonical_of_parse? hparse)
        (Json.canonical_of_parse? hdocument) hchanged
    refine ⟨document, changed, hdocument, hchanged, rfl,
      fun hintegral hvalues => Json.hereditary_integral.patch hvalues hintegral hchanged,
      fun hintegral => ⟨fun hdepth => ?_, fun hdepth => ?_⟩⟩
    · -- the new body is read exactly if it is not nested too deeply
      have hread := Json.parse?_text hintegral
      rw [if_pos hdepth, Json.canonical_eq_self changed hcanonical] at hread
      exact reads_of_parse? hfits hread
    · have hread := Json.parse?_text hintegral
      rw [if_neg (Nat.not_le.mpr hdepth)] at hread
      have hlost : (⟨rekey rules path r changed.text, changed.text⟩ : Resource).Lost rules :=
        lost_of_parse? hread
      refine ⟨hlost, fun name hname => get?_rekey_of_removed rfl hkey hname ?_⟩
      rw [hlost.attributes]
      rfl

/-! ### At the depth of the reader, and beyond -/

/-- An array in an array, and so on. -/
def nested : Nat → Json
  | 0 => .array []
  | n + 1 => .array [nested n]

/-- A document with some fields, one of them nested. -/
def layered (n : Nat) : Json :=
  .object [("s", .string "\"\x01"), ("id", .number (.int (-5) (by decide))), ("a", nested n)]

/-- A patch that puts a copy of an array into it, and so nests the array by one deeper. -/
def deepening : String := "[\x7b\"op\":\"copy\",\"from\":\"/a\",\"path\":\"/a/0\"\x7d]"

/-- A patch of the only resource, and that is selected. -/
theorem patch_singleton {rules : Rules} {path text : String} {r : Resource}
    (hselected : r.selectedBy rules path = true) {change : Change}
    (hparse : rules.ofPatch? text = some change) {document changed : Json}
    (hdocument : Json.parse? r.body = some document) (happly : change document = .ok changed) :
    (⟨[r]⟩ : Collection).patch rules path text =
      .ok ((⟨202, [], .empty, none⟩ : Response).withText changed.text,
        ⟨[⟨rekey rules path r changed.text, changed.text⟩]⟩) := by
  have hbody : patchBody change r.body = .ok changed.text := by
    simp only [patchBody, hdocument, happly]
  simp [Collection.patch, selected, others, hselected, hparse, patchResources, patchResource, hbody,
    Rules.write, putAll, put]

theorem key_of_parse? {rules : Rules} (hbody : rules.ofBody = ofBody) {body : String}
    {document : Json} (h : Json.parse? body = some document) (path : String) :
    rules.key path body =
      (AttributeSet.merge [rules.ofPath path, ofDocument document]).presentOnly := by
  rw [Rules.key, hbody, ofBody, h]

/-- A patch whose result was computed is read, and goes through. -/
theorem exists_changed {α : Type} {text : String} {document : Json} {f : Json → α} {a : α}
    (h : ((Json.Patch.parse? text).bind fun patch => (patch.apply document).toOption.map f) =
      some a) :
    ∃ patch changed, Json.Patch.parse? text = some patch ∧ patch.apply document = .ok changed ∧
      f changed = a := by
  obtain ⟨patch, hparse, hsome⟩ := Option.bind_eq_some_iff.mp h
  cases happly : patch.apply document with
  | error e =>
    rw [happly] at hsome
    cases hsome
  | ok changed =>
    rw [happly] at hsome
    exact ⟨patch, changed, hparse, happly, Option.some.inj hsome⟩

/-- A document that is as deep as the reader goes once it is patched. -/
theorem patched_bodies_reread_deepest :
    let rules : Rules := .documents Rules.bracketed Json.Patch.change?
    let c := empty.after rules [.create "/items" (layered 124).text]
    let path := "/items?id=-5"
    ∃ response d, c.patch rules path deepening = .ok (response, d) ∧ response.status = 202 ∧
      ∃ patch u changed,
        patchResources rules path (Json.Patch.change patch) (c.selected rules path) = .ok [u] ∧
        u.body = changed.text ∧ changed.depth = Reader.maxDepth ∧ u.Reads rules changed := by
  intro rules c path
  -- the body is too large to be read by evaluation, but a written document is read as itself
  have hdocument : Json.parse? (layered 124).text = some (layered 124).canonical := by
    rw [Json.parse?_text (by decide +kernel), if_pos (by decide +kernel)]
  let r : Resource := ⟨rules.key "/items" (layered 124).text, (layered 124).text⟩
  have hkey : r.key = (AttributeSet.merge [ofPath "/items",
      ofDocument (layered 124).canonical]).presentOnly := key_of_parse? rfl hdocument "/items"
  have hselected : r.selectedBy rules path = true := by
    rw [Resource.selectedBy, hkey]
    decide +kernel
  obtain ⟨patch, changed, hparse, happly, hfacts⟩ :
      ∃ patch changed, Json.Patch.parse? deepening = some patch ∧
        patch.apply (layered 124).canonical = .ok changed ∧
        (changed.isIntegral, changed.depth) = (true, Reader.maxDepth) :=
    exists_changed (by decide +kernel)
  obtain ⟨hintegral, hdepth⟩ := Prod.mk.inj hfacts
  have hpatch : c.patch rules path deepening = .ok _ :=
    patch_singleton hselected (congrArg (Option.map Json.Patch.change) hparse) hdocument
      (Json.Patch.change_eq_ok_iff.mpr happly)
  obtain ⟨patch', us, hparse', hus, hlength, hbodies⟩ :=
    patched_bodies_reread Rules.bracketed [.create "/items" (layered 124).text] path deepening
      hpatch rfl
  cases hparse.symm.trans hparse'
  have hall : c.selected rules path = [r] := List.filter_cons_of_pos hselected
  obtain ⟨u, rfl⟩ : ∃ u, us = [u] := List.length_eq_one_iff.mp (hlength.trans (by rw [hall]; rfl))
  have hpair : (r, u) ∈ (c.selected rules path).zip [u] := by
    rw [hall]
    exact .head []
  obtain ⟨document, changed', hdocument', happly', hbody, -, hread⟩ := hbodies r u hpair
  cases hdocument.symm.trans hdocument'
  cases happly.symm.trans happly'
  exact ⟨_, _, hpatch, rfl, patch, u, changed, hus, hbody, hdepth,
    (hread hintegral).1 (Nat.le_of_eq hdepth)⟩

/-- A document that is as deep as the reader goes before it is patched. The patched body is stored,
and it is not JSON to the collection any more: its other fields are not in the key, and every later
patch fails on it, even one that has no operations. -/
theorem patched_body_unreadable :
    let body := (layered 125).text
    let c := (empty.create .json "/items" body).2
    let path := "/items?id"
    ∃ patch document changed response u, Json.Patch.parse? deepening = some patch ∧
      Json.parse? body = some document ∧ document.isIntegral = true ∧
      patch.apply document = .ok changed ∧ changed.isIntegral = true ∧
      (c.get .json path).status = 200 ∧
      c.patch .json path deepening = .ok (response, ⟨[u]⟩) ∧ response.status = 202 ∧
      u.body = changed.text ∧ Json.parse? u.body = none ∧
      ((⟨[u]⟩ : Collection).get .json path).status = 404 ∧
      ∀ text, (⟨[u]⟩ : Collection).patch .json "/items" text = .error .malformedJson := by
  intro body c path
  have hdocument : Json.parse? body = some (layered 125).canonical := by
    rw [Json.parse?_text (by decide +kernel), if_pos (by decide +kernel)]
  let r : Resource := ⟨Rules.json.key "/items" body, body⟩
  have hkey : r.key = (AttributeSet.merge [ofPath "/items",
      ofDocument (layered 125).canonical]).presentOnly := key_of_parse? rfl hdocument "/items"
  have hselected : r.selectedBy .json path = true := by
    rw [Resource.selectedBy, hkey]
    decide +kernel
  obtain ⟨patch, changed, hparse, happly, hfacts⟩ :
      ∃ patch changed, Json.Patch.parse? deepening = some patch ∧
        patch.apply (layered 125).canonical = .ok changed ∧
        (changed.isIntegral, changed.depth) = (true, Reader.maxDepth + 1) :=
    exists_changed (by decide +kernel)
  obtain ⟨hintegral, hdepth⟩ := Prod.mk.inj hfacts
  have hpatch : c.patch .json path deepening = .ok _ :=
    patch_singleton hselected (congrArg (Option.map Json.Patch.change) hparse) hdocument
      (Json.Patch.change_eq_ok_iff.mpr happly)
  -- the new body is one level too deep
  have hunparsed : Json.parse? changed.text = none := by
    rw [Json.parse?_text hintegral, if_neg (by omega)]
  have hold : ofBody body = ofDocument (layered 125).canonical := by rw [ofBody, hdocument]
  have hnew : ofBody changed.text = AttributeSet.empty := by rw [ofBody, hunparsed]
  let u : Resource := ⟨rekey .json path r changed.text, changed.text⟩
  -- without attributes of its own the new key is what the path and the old key say
  have hrekey : u.key = (AttributeSet.merge
      [r.key.withoutKeysOf (ofDocument (layered 125).canonical), (ofPath path).presentOnly,
        AttributeSet.empty]).presentOnly := by
    rw [← hold, ← hnew]
    rfl
  have hdropped : u.selectedBy .json path = false := by
    rw [Resource.selectedBy, hrekey, hkey]
    decide +kernel
  have hkept : u.selectedBy .json "/items" = true := by
    rw [Resource.selectedBy, hrekey, hkey]
    decide +kernel
  refine ⟨patch, _, changed, _, u, hparse, hdocument, by decide +kernel, happly, hintegral, ?_,
    hpatch, rfl, rfl, hunparsed, ?_, ?_⟩
  · have hall : c.selected .json path = [r] := List.filter_cons_of_pos hselected
    rw [Collection.get, hall]
    rfl
  · have hnone : (⟨[u]⟩ : Collection).selected .json path = [] :=
      List.filter_cons_of_neg (Bool.not_eq_true _ ▸ hdropped)
    rw [Collection.get, hnone]
    rfl
  · intro text
    have hall : (⟨[u]⟩ : Collection).selected .json "/items" = [u] := List.filter_cons_of_pos hkept
    refine patch_eq_error_iff.mpr ⟨by rw [hall]; exact List.cons_ne_nil _ _, ?_⟩
    cases htext : Rules.json.ofPatch? text with
    | none => exact Or.inl ⟨rfl, rfl⟩
    | some later => exact Or.inr ⟨later, rfl, [], u, [], hall, fun _ h => absurd h List.not_mem_nil,
        .notJson hunparsed⟩

end Collection

end Understudy
