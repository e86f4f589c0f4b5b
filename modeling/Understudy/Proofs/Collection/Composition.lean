import Mathlib.Data.List.Forall2
import Understudy.Proofs.Collection.Operations
import Understudy.Proofs.Json.Canonical
import Understudy.Proofs.Json.Grammar

/-!
# Understudy.Proofs.Collection.Composition

Several bodies as one.

Bodies are put in brackets as they are written, blanks included. Each is read exactly up to the
comma or bracket after it, so the text spells the array of the documents that the bodies spell
(`spells_bracketed`). The brackets take one of the levels that the reader goes down, so it reads
this array exactly if each body leaves that one free (`read?_bracketed`).

`composed_bodies` puts both together for a `get` that selects several resources.
-/

namespace Understudy

namespace Collection

open Json (Spells Token read? parse?)

/-! ### Bodies in brackets -/

/-- Bodies with commas between them have the tokens of the items of an array. -/
theorem ofText?_bodies {bodies : List String} {documents : List Json}
    (h : List.Forall₂ Spells bodies documents) {rest : List Char} {ts : List Token}
    (hrest : Token.Ends rest) (hts : Token.ofText? rest = some ts) :
    Token.ofText? ([','].intercalate (bodies.map String.toList) ++ rest) =
      some (Json.itemTokens documents ++ ts) := by
  induction h with
  | nil => exact hts
  | @cons body document bodies documents hbody hbodies ih =>
    cases hbodies with
    | nil =>
      rw [List.map_cons, List.map_nil, List.intercalate_singleton, Token.ofText?_append hbody hrest,
        hts]
      rfl
    | @cons next _ bodies documents hnext hbodies =>
      have hcomma := Token.ofText?_of_not_number .comma rfl ih
      have hends := Token.ends_text (t := .comma) (Or.inl rfl)
        ([','].intercalate ((next :: bodies).map String.toList) ++ rest)
      rw [List.map_cons, List.map_cons, List.intercalate_cons_cons, List.append_assoc,
        List.append_assoc, ← List.map_cons]
      rw [Json.itemTokens, List.append_assoc]
      exact (Token.ofText?_append hbody hends).trans (congrArg _ hcomma)

/-- Bodies between brackets, with commas between them, spell the array of what they spell. -/
theorem spells_bracketed {bodies : List String} {documents : List Json}
    (h : List.Forall₂ Spells bodies documents) :
    Spells (Rules.bracketed bodies) (.array documents) := by
  -- the tokens are read from the end, so that each text meets what follows it
  have hnil : Token.ofText? [] = some [] := by rw [Token.ofText?.eq_def]
  have hclose := Token.ofText?_of_not_number .closeArray rfl hnil
  have hends := Token.ends_text (t := .closeArray) (Or.inr (Or.inl rfl)) []
  have hbodies := ofText?_bodies h hends hclose
  have hopen := Token.ofText?_of_not_number .openArray rfl hbodies
  rw [Spells, Rules.bracketed, String.toList_append, String.toList_append,
    String.toList_intercalate, List.append_assoc]
  exact hopen

/-- Bodies that spell documents are read as an array of them, unless one is nested so deep that
there is no level left for the array. -/
theorem read?_bracketed {bodies : List String} {documents : List Json}
    (h : List.Forall₂ Spells bodies documents) :
    read? (Rules.bracketed bodies) =
      if ∀ document ∈ documents, document.depth ≤ 126 then some (.array documents) else none := by
  have hdepth : (Json.array documents).depth ≤ Json.Reader.maxDepth ↔
      ∀ document ∈ documents, document.depth ≤ 126 := by
    rw [Json.depth, ← Json.depthItems_le_iff, Json.Reader.maxDepth]
    omega
  have htokens : Token.ofText? (Rules.bracketed bodies).toList =
      some (Json.array documents).tokens := spells_bracketed h
  rw [read?, htokens, Option.bind_some, Json.ofTokens?_tokens]
  simp only [hdepth]

/-- A body that is read as a document, with a level left for an array around it. -/
def ReadsAs (body : String) (document : Json) : Prop :=
  read? body = some document ∧ document.depth ≤ 126

theorem ReadsAs.parse?_eq {body : String} {document : Json} (h : ReadsAs body document) :
    parse? body = some document.canonical := by
  rw [parse?, h.1, Option.map_some]

/-- Bodies that are read each by itself are read together, since one more level is not too many. -/
theorem read?_bracketed_of_readsAs {bodies : List String} {documents : List Json}
    (h : List.Forall₂ ReadsAs bodies documents) :
    read? (Rules.bracketed bodies) = some (.array documents) := by
  have hspells : List.Forall₂ Spells bodies documents :=
    h.imp fun _ _ hbody => (Json.read?_eq_some_iff.mp hbody.1).1
  have hdepths : ∀ document ∈ documents, document.depth ≤ 126 := by
    clear hspells
    induction h with
    | nil => simp
    | cons hbody _ ih => exact List.forall_mem_cons.mpr ⟨hbody.2, ih⟩
  rw [read?_bracketed hspells, if_pos hdepths]

theorem parse?_bracketed_of_readsAs {bodies : List String} {documents : List Json}
    (h : List.Forall₂ ReadsAs bodies documents) :
    parse? (Rules.bracketed bodies) = some (.array (documents.map Json.canonical)) := by
  rw [parse?, read?_bracketed_of_readsAs h, Option.map_some, Json.canonical,
    Json.canonicalItems_eq_map]

theorem map_parse?_of_readsAs {bodies : List String} {documents : List Json}
    (h : List.Forall₂ ReadsAs bodies documents) :
    bodies.map parse? = documents.map fun document => some document.canonical := by
  induction h with
  | nil => rfl
  | cons hbody _ ih => rw [List.map_cons, List.map_cons, hbody.parse?_eq, ih]

/-! ### Several resources -/

/-- Two resources or more are answered with their bodies put together. -/
theorem get_of_several {rules : Rules} {path : String} {c : Collection}
    (h : 2 ≤ (c.selected rules path).length) :
    let bodies := (c.selected rules path).map (·.body)
    c.get rules path = ⟨200, [], .full (Utf8.encode (rules.compose bodies)), none⟩ := by
  cases hs : c.selected rules path with
  | nil =>
    rw [hs] at h
    cases h
  | cons r rs =>
    cases rs with
    | nil =>
      rw [hs] at h
      exact absurd h (Nat.not_succ_le_self 1)
    | cons r' rs =>
      rw [get_of_selected hs (List.cons_ne_nil _ _)]
      rfl

/-- **Composed bodies.** Let each of some bodies be read as a document that is nested at most 126
deep. Put together they are read as the array of these documents, in order. One level more anywhere
is too much. So a `get` that selects two resources or more with such bodies answers with an array of
exactly the documents of these resources, in the order of the collection. -/
theorem composed_bodies (ofPath ofBody : String → AttributeSet)
    (ofPatch? : String → Option Change) :
    let rules : Rules := ⟨ofPath, ofBody, Rules.bracketed, ofPatch?⟩
    (∀ bodies documents, List.Forall₂ ReadsAs bodies documents →
      read? (rules.compose bodies) = some (.array documents) ∧
      parse? (rules.compose bodies) = some (.array (documents.map Json.canonical)) ∧
      bodies.map parse? = documents.map fun document => some document.canonical) ∧
    (∀ bodies documents, List.Forall₂ Spells bodies documents →
      (∃ document ∈ documents, 126 < document.depth) → read? (rules.compose bodies) = none) ∧
    ∀ (c : Collection) (path : String) (documents : List Json),
      let bodies := (c.selected rules path).map (·.body)
      List.Forall₂ ReadsAs bodies documents → 2 ≤ documents.length →
      ∃ text, c.get rules path = ⟨200, [], .full (Utf8.encode text), none⟩ ∧
        parse? text = some (.array (documents.map Json.canonical)) ∧
        bodies.map parse? = documents.map fun document => some document.canonical := by
  intro rules
  refine ⟨?_, ?_, ?_⟩
  · intro bodies documents h
    exact ⟨read?_bracketed_of_readsAs h, parse?_bracketed_of_readsAs h, map_parse?_of_readsAs h⟩
  · rintro bodies documents h ⟨document, hdocument, hdeep⟩
    have hno : ¬ ∀ document ∈ documents, document.depth ≤ 126 :=
      fun hall => Nat.not_le_of_lt hdeep (hall document hdocument)
    exact (read?_bracketed h).trans (if_neg hno)
  · intro c path documents bodies h hseveral
    have hlength : (c.selected rules path).length = documents.length := by
      rw [← h.length_eq, List.length_map]
    exact ⟨Rules.bracketed bodies, get_of_several (hlength ▸ hseveral),
      parse?_bracketed_of_readsAs h, map_parse?_of_readsAs h⟩

theorem readsAs_padded {before after : String} {j : Json} (hintegral : j.isIntegral = true)
    (hdepth : j.depth ≤ 126) (hbefore : before.toList.all Token.isBlank = true)
    (hafter : after.toList.all Token.isBlank = true) : ReadsAs (before ++ j.text ++ after) j := by
  have hspells : Spells (before ++ j.text ++ after) j :=
    (Json.spells_text hintegral).padded (List.all_eq_true.mp hbefore) (List.all_eq_true.mp hafter)
  exact ⟨Json.read?_eq_some_iff.mpr ⟨hspells, Nat.le_succ_of_le hdepth⟩, hdepth⟩

/-- Two resources, with blanks around their bodies, and signs in one of their texts. With 127 arrays
in one of them there is no level left for the array. -/
theorem composed_bodies_padded :
    let first : Json := .object [("b", .array [.number (.int 1 (by decide)), .null]),
      ("a", .string "x,]")]
    let second : Json := .array [.bool true]
    let bodies := [" " ++ first.text ++ "\n", "\t" ++ second.text ++ "  "]
    let c := ((empty.create .json "/items?n=1" bodies[0]).2.create .json "/items?n=2" bodies[1]).2
    let deep : Json := Nat.repeat (fun j => .array [j]) 127 .null
    (∃ text, c.get .json "/items" = ⟨200, [], .full (Utf8.encode text), none⟩ ∧
      parse? text = some (.array [first.canonical, second])) ∧
    read? (Rules.bracketed bodies) = some (.array [first, second]) ∧
    read? (Rules.bracketed [second.text, deep.text]) = none := by
  intro first second bodies c deep
  obtain ⟨hbodies, hdeep, hget⟩ :=
    composed_bodies AttributeSet.ofPath AttributeSet.ofBody Json.Patch.change?
  have hreads : List.Forall₂ ReadsAs bodies [first, second] :=
    .cons (readsAs_padded (by decide) (by decide) (by decide) (by decide))
      (.cons (readsAs_padded (by decide) (by decide) (by decide) (by decide)) .nil)
  have hselected : (c.selected .json "/items").map (·.body) = bodies := by decide +kernel
  have hspells : List.Forall₂ Spells [second.text, deep.text] [second, deep] :=
    .cons (Json.spells_text (by decide)) (.cons (Json.spells_text (by decide +kernel)) .nil)
  refine ⟨?_, (hbodies bodies _ hreads).1, hdeep _ _ hspells ⟨deep, by simp, by decide +kernel⟩⟩
  obtain ⟨text, hresponse, hparse, -⟩ :=
    hget c "/items" [first, second] (hselected ▸ hreads) (by decide)
  exact ⟨text, hresponse, hparse⟩

end Collection

end Understudy
