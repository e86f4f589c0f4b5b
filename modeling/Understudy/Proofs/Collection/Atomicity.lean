import Understudy.Collection.Service
import Understudy.Proofs.Collection.Operations

/-!
# Understudy.Proofs.Collection.Atomicity

Requests that fail change nothing.

A patch can fail at its own text, and at the body of each resource that it addresses: the body may
not be JSON, and the patch may not apply to it (`Obstructs`). The resources are patched in order and
up to the first one that fails, whose fault is the answer (`patchResources_eq_error_iff`), whatever
has become of those before it. No resource leaves its place before all of them are patched. With
that, what a request may answer says what it did: an error, the answer that nothing was found and
the answer that the method is not supported all mean that the collection is as it was.
-/

namespace Understudy

namespace Collection

/-! ### Faults of a patch -/

/-- Why a patch does not go through on a body. -/
inductive Obstructs (change : Change) (body : String) : Fault → Prop where
  | notJson : Json.parse? body = none → Obstructs change body .malformedJson
  | inapplicable {document : Json} {reason : String} : Json.parse? body = some document →
      change document = .error reason → Obstructs change body (.malformedPatch reason)

/-- Whether a patch goes through on a body. -/
def Applies (change : Change) (body : String) : Prop :=
  ∃ document changed, Json.parse? body = some document ∧ change document = .ok changed

/-- Whether a fault is that of the first resource, in order, on which a patch does not go
through. -/
def FirstFault (change : Change) (rs : List Resource) (fault : Fault) : Prop :=
  ∃ pre r post, rs = pre ++ r :: post ∧ (∀ q ∈ pre, Applies change q.body) ∧
    Obstructs change r.body fault

/-- A patch goes through on a body, or there is a reason why it does not. -/
theorem patchBody_cases (change : Change) (body : String) :
    (∃ changed, patchBody change body = .ok changed ∧ Applies change body) ∨
    ∃ fault, patchBody change body = .error fault ∧ Obstructs change body fault := by
  unfold patchBody
  cases hbody : Json.parse? body with
  | none => exact Or.inr ⟨_, rfl, .notJson hbody⟩
  | some document =>
    cases happly : change document with
    | error reason =>
      exact Or.inr ⟨.malformedPatch reason, by simp [happly], .inapplicable hbody happly⟩
    | ok changed =>
      exact Or.inl ⟨changed.text, by simp [happly], document, changed, hbody, happly⟩

/-- A patch that goes through on a body does not stop there. -/
theorem Applies.not_obstructs {change : Change} {body : String} (h : Applies change body)
    {fault : Fault} : ¬ Obstructs change body fault := by
  obtain ⟨document, changed, hbody, happly⟩ := h
  intro hfault
  cases hfault with
  | notJson hnone =>
    rw [hbody] at hnone
    cases hnone
  | inapplicable hsome herror =>
    rw [hbody, Option.some_inj] at hsome
    rw [← hsome, happly] at herror
    cases herror

/-- The fault of a patch on a body is what obstructs it there, and nothing else does. -/
theorem patchBody_eq_error_iff {change : Change} {body : String} {fault : Fault} :
    patchBody change body = .error fault ↔ Obstructs change body fault := by
  constructor
  · intro h
    rcases patchBody_cases change body with ⟨changed, hok, -⟩ | ⟨other, herror, hobstructs⟩
    · rw [hok] at h
      cases h
    · rw [herror] at h
      cases h
      exact hobstructs
  · intro h
    unfold patchBody
    cases h with
    | notJson hnone => rw [hnone]
    | inapplicable hsome herror => simp only [hsome, herror]

/-! ### The first fault -/

theorem not_firstFault_nil (change : Change) (fault : Fault) :
    ¬ FirstFault change [] fault := by
  rintro ⟨pre, r, post, hrs, -⟩
  simp at hrs

/-- A resource on which a patch goes through has no part in its first fault. -/
theorem firstFault_cons_of_applies {change : Change} {r : Resource} (h : Applies change r.body)
    (rs : List Resource) (fault : Fault) :
    FirstFault change (r :: rs) fault ↔ FirstFault change rs fault := by
  constructor
  · rintro ⟨pre, q, post, hrs, hpre, hq⟩
    cases pre with
    | nil =>
      cases hrs
      exact absurd hq h.not_obstructs
    | cons p pre =>
      cases hrs
      exact ⟨pre, q, post, rfl, fun p hp => hpre p (.tail _ hp), hq⟩
  · rintro ⟨pre, q, post, rfl, hpre, hq⟩
    refine ⟨r :: pre, q, post, rfl, ?_, hq⟩
    intro p hp
    rcases List.mem_cons.mp hp with rfl | hp
    · exact h
    · exact hpre p hp

/-- A resource on which a patch stops is the only one that can have its first fault. -/
theorem firstFault_cons_of_obstructs {change : Change} {r : Resource} {other : Fault}
    (h : Obstructs change r.body other) (rs : List Resource) (fault : Fault) :
    FirstFault change (r :: rs) fault ↔ other = fault := by
  constructor
  · rintro ⟨pre, q, post, hrs, hpre, hq⟩
    cases pre with
    | nil =>
      cases hrs
      rw [← patchBody_eq_error_iff] at h hq
      rw [h] at hq
      cases hq
      rfl
    | cons p pre =>
      cases hrs
      exact absurd h (hpre r (.head pre)).not_obstructs
  · rintro rfl
    exact ⟨[], r, rs, rfl, by simp, h⟩

/-- There is a first fault exactly if some body obstructs the patch. -/
theorem exists_firstFault_iff {change : Change} {rs : List Resource} :
    (∃ fault, FirstFault change rs fault) ↔ ∃ r ∈ rs, ∃ fault, Obstructs change r.body fault := by
  induction rs with
  | nil => simp [not_firstFault_nil]
  | cons r rs ih =>
    rcases patchBody_cases change r.body with ⟨-, -, happlies⟩ | ⟨other, -, hobstructs⟩
    · simp [firstFault_cons_of_applies happlies, ih, happlies.not_obstructs]
    · refine iff_of_true ⟨other, ?_⟩ ⟨r, .head rs, other, hobstructs⟩
      exact (firstFault_cons_of_obstructs hobstructs rs other).mpr rfl

section Patch

variable {rules : Rules} {path : String} {change : Change}

/-- Resources are patched up to the first one that fails, and its fault is what comes of it. -/
theorem patchResources_eq_error_iff {rs : List Resource} {fault : Fault} :
    patchResources rules path change rs = .error fault ↔ FirstFault change rs fault := by
  induction rs with
  | nil =>
    rw [patchResources]
    exact iff_of_false (fun h => by cases h) (not_firstFault_nil change fault)
  | cons r rs ih =>
    rw [patchResources, patchResource]
    rcases patchBody_cases change r.body with ⟨changed, hok, happlies⟩ | ⟨other, herror, hobstructs⟩
    · rw [hok, firstFault_cons_of_applies happlies, ← ih]
      cases patchResources rules path change rs <;> simp
    · rw [herror, firstFault_cons_of_obstructs hobstructs]
      simp

/-- A patch fails at its own text, or else at the first resource on which it does not go through. -/
theorem patch_eq_error_iff {text : String} {c : Collection} {fault : Fault} :
    c.patch rules path text = .error fault ↔
      c.selected rules path ≠ [] ∧
        (rules.ofPatch? text = none ∧ fault = .malformedJson ∨
          ∃ change, rules.ofPatch? text = some change ∧
            FirstFault change (c.selected rules path) fault) := by
  unfold Collection.patch
  cases hsel : c.selected rules path with
  | nil => simp
  | cons r rs =>
    cases hparse : rules.ofPatch? text with
    | none => simp [eq_comm]
    | some change =>
      cases hpatch : patchResources rules path change (r :: rs) <;>
        simp [← @patchResources_eq_error_iff rules path, hpatch]

/-- A patch can fail exactly if it addresses something, and its text or one of the bodies is at
fault. -/
theorem exists_patch_eq_error_iff {text : String} {c : Collection} :
    (∃ fault, c.patch rules path text = .error fault) ↔
      c.selected rules path ≠ [] ∧
        (rules.ofPatch? text = none ∨
          ∃ change, rules.ofPatch? text = some change ∧
            ∃ r ∈ c.selected rules path, ∃ fault, Obstructs change r.body fault) := by
  simp only [patch_eq_error_iff, ← exists_firstFault_iff]
  constructor
  · rintro ⟨fault, hne, ⟨hnone, -⟩ | ⟨change, hsome, hfirst⟩⟩
    · exact ⟨hne, Or.inl hnone⟩
    · exact ⟨hne, Or.inr ⟨change, hsome, fault, hfirst⟩⟩
  · rintro ⟨hne, hnone | ⟨change, hsome, fault, hfirst⟩⟩
    · exact ⟨.malformedJson, hne, Or.inl ⟨hnone, rfl⟩⟩
    · exact ⟨fault, hne, Or.inr ⟨change, hsome, hfirst⟩⟩

end Patch

/-! ### Requests -/

theorem ofMethod?_eq_update_iff {method : String} :
    Verb.ofMethod? method = some .update ↔ method = "PATCH" := by
  unfold Verb.ofMethod?
  constructor
  · intro h
    split at h
    · cases h
    · split at h
      · assumption
      · split at h
        · cases h
        · split at h <;> cases h
  · rintro rfl
    decide

/-- A request fails exactly if it is a patch that fails. -/
theorem answer_eq_error_iff {rules : Rules} {request : Request} {c : Collection} {fault : Fault} :
    (answer rules request c).1 = .error fault ↔
      Ascii.upper request.method = "PATCH" ∧
        c.patch rules request.path request.bodyText = .error fault := by
  rw [← ofMethod?_eq_update_iff, answer]
  cases hverb : Verb.ofMethod? (Ascii.upper request.method) with
  | none => simp
  | some verb =>
    cases verb with
    | update => cases c.patch rules request.path request.bodyText <;> simp
    | create | read | delete => simp

theorem delete_unchanged {rules : Rules} {path : String} {c : Collection}
    (h : (c.delete rules path).1.status ≠ 200) : (c.delete rules path).2 = c := by
  by_cases hsel : c.selected rules path = []
  · rw [delete, hsel]
  · exact absurd (delete_status hsel) h

theorem patch_unchanged {rules : Rules} {path text : String} {c d : Collection}
    {response : Response} (h : c.patch rules path text = .ok (response, d))
    (hstatus : response.status ≠ 202) : d = c := by
  rcases patch_eq_ok h with ⟨-, -, heq⟩ | ⟨change, us, -, -, -, hresponse, -⟩
  · exact heq
  · rw [hresponse] at hstatus
    exact absurd rfl hstatus

/-- A collection changes only if the answer is that something was accepted or deleted. -/
theorem answer_unchanged {rules : Rules} {request : Request} {c : Collection}
    (h : ∀ response, (answer rules request c).1 = .ok response →
      response.status ≠ 200 ∧ response.status ≠ 202) : (answer rules request c).2 = c := by
  unfold answer at h ⊢
  cases hverb : Verb.ofMethod? (Ascii.upper request.method) with
  | none => rfl
  | some verb =>
    rw [hverb] at h
    cases verb with
    | create => exact absurd rfl (h _ rfl).2
    | read => rfl
    | delete => exact delete_unchanged (h _ rfl).1
    | update =>
      cases hpatch : c.patch rules request.path request.bodyText with
      | error e => rfl
      | ok result =>
        rw [hpatch] at h
        exact patch_unchanged hpatch (h _ rfl).2

theorem answer_unchanged_of_get {rules : Rules} {request : Request} {c : Collection}
    (h : Ascii.upper request.method = "GET") : (answer rules request c).2 = c := by
  have hverb : Verb.ofMethod? (Ascii.upper request.method) = some .read := by
    rw [h]
    decide
  rw [answer, hverb]

theorem fst_dispatch (s : Service) (request : Request) :
    (s.dispatch request).1 = (answer s.rules request s.collection).1 := by
  rw [Service.dispatch]

theorem collection_dispatch (s : Service) (request : Request) :
    (s.dispatch request).2.collection = (answer s.rules request s.collection).2 := by
  rw [Service.dispatch]

/-- **Failed requests.** For every way to read paths, bodies and patches, whatever a patch makes of
a document, and for every collection:

* a request that is answered with an error, with 404 or with 405, or that only asks, leaves the
  collection as it was; and an error comes from a patch alone;
* a patch fails exactly if it addresses some resource, and its own text is not a patch, or the body
  of such a resource is not JSON, or the patch does not apply to such a body;
* a text that is not a patch is the fault before any body is looked at;
* otherwise the fault is that of the first resource, in order, on which the patch does not go
  through: those before it have been patched, to no effect. -/
theorem failed_requests (s : Service) (request : Request) :
    (((∃ fault, (s.dispatch request).1 = .error fault) ∨
        (∃ response, (s.dispatch request).1 = .ok response ∧
          (response.status = 404 ∨ response.status = 405)) ∨
        Ascii.upper request.method = "GET") →
      (s.dispatch request).2.collection = s.collection) ∧
    (∀ fault, (s.dispatch request).1 = .error fault ↔
      Ascii.upper request.method = "PATCH" ∧
        s.collection.patch s.rules request.path request.bodyText = .error fault) ∧
    ∀ path text,
      ((∃ fault, s.collection.patch s.rules path text = .error fault) ↔
        s.collection.selected s.rules path ≠ [] ∧
          (s.rules.ofPatch? text = none ∨
            ∃ change, s.rules.ofPatch? text = some change ∧
              ∃ r ∈ s.collection.selected s.rules path, ∃ fault,
                Obstructs change r.body fault)) ∧
      (s.collection.selected s.rules path ≠ [] → s.rules.ofPatch? text = none →
        s.collection.patch s.rules path text = .error .malformedJson) ∧
      ∀ change, s.rules.ofPatch? text = some change → ∀ fault,
        (s.collection.patch s.rules path text = .error fault ↔
          FirstFault change (s.collection.selected s.rules path) fault) := by
  rw [fst_dispatch, collection_dispatch]
  refine ⟨?_, fun _ => answer_eq_error_iff, ?_⟩
  · -- only a response that says 200 or 202 comes with another collection
    rintro (⟨fault, herror⟩ | ⟨response, hok, hstatus⟩ | hget)
    · refine answer_unchanged ?_
      intro response hok
      rw [herror] at hok
      cases hok
    · refine answer_unchanged ?_
      intro other hother
      rw [hok] at hother
      cases hother
      rcases hstatus with hstatus | hstatus <;> rw [hstatus] <;> decide
    · exact answer_unchanged_of_get hget
  · intro path text
    refine ⟨exists_patch_eq_error_iff, ?_, ?_⟩
    · intro hne hnone
      exact patch_eq_error_iff.mpr ⟨hne, Or.inl ⟨hnone, rfl⟩⟩
    · intro change hparse fault
      rw [patch_eq_error_iff, hparse]
      constructor
      · rintro ⟨-, ⟨hnone, -⟩ | ⟨other, hother, hfirst⟩⟩
        · cases hnone
        · cases hother
          exact hfirst
      · intro hfirst
        refine ⟨?_, Or.inr ⟨change, rfl, hfirst⟩⟩
        intro hnil
        rw [hnil] at hfirst
        exact not_firstFault_nil change fault hfirst

/-- The second of three resources obstructs a patch that has gone through on the first one. The
third one, which is not JSON, is not reached. -/
theorem failed_requests_midway :
    let body := "\x7b\"v\":1\x7d"
    let s : Service := ⟨.json, empty.after .json
      [.create "/items" body, .create "/items" "\x7b\"id\":2\x7d", .create "/items" "none"], []⟩
    let request : Request := ⟨"patch", "/items", [],
      Utf8.encode "[\x7b\"op\":\"replace\",\"path\":\"/v\",\"value\":2\x7d]"⟩
    let fault := Fault.malformedPatch "operation '/0' failed at path '/v': path is invalid"
    (s.dispatch request).1 = .error fault ∧
    (s.dispatch request).2.collection = s.collection ∧
    ∃ change, s.rules.ofPatch? request.bodyText = some change ∧ Applies change body ∧
      FirstFault change (s.collection.selected s.rules "/items") fault := by
  intro body s request fault
  have hmethod : Ascii.upper request.method = "PATCH" := by decide +kernel
  have hpath : request.path = "/items" := rfl
  have hfault : (match s.collection.patch s.rules request.path request.bodyText with
      | .error e => some e
      | .ok _ => none) = some fault := by
    decide +kernel
  have hfirst : (s.rules.ofPatch? request.bodyText).map (fun change =>
      (patchBody change body).isOk) = some true := by
    decide +kernel
  -- what has been computed is kept as facts, and the values are forgotten
  clear_value s request body fault
  have herror : s.collection.patch s.rules request.path request.bodyText = .error fault := by
    split at hfault
    · rename_i e heq
      rw [heq, Option.some.inj hfault]
    · cases hfault
  obtain ⟨hkeep, hanswer, hpatch⟩ := failed_requests s request
  have hdispatch : (s.dispatch request).1 = .error fault := (hanswer fault).mpr ⟨hmethod, herror⟩
  refine ⟨hdispatch, hkeep (Or.inl ⟨fault, hdispatch⟩), ?_⟩
  obtain ⟨change, hparse, hok⟩ := Option.map_eq_some_iff.mp hfirst
  obtain ⟨-, -, hfirstFault⟩ := hpatch request.path request.bodyText
  refine ⟨change, hparse, ?_, hpath ▸ (hfirstFault change hparse fault).mp herror⟩
  rcases patchBody_cases change body with ⟨-, -, happlies⟩ | ⟨other, hbody, -⟩
  · exact happlies
  · rw [hbody] at hok
    cases hok

end Collection

end Understudy
