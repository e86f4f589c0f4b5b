import Understudy.Proofs.Json.Nesting
import Understudy.Proofs.Json.Spelling

/-!
# Understudy.Proofs.Json.Canonical

Canonical documents, and reading back what is written of them.

`canonical` makes every document canonical, and leaves the canonical ones as they are: sorting has
nothing to do on fields that are sorted (`Keyed.ofList_of_sorted`). A text that was written from a
document has its tokens, and these spell it, as long as the reader gets to the bottom of it: so what
is read is the canonical form of what was written (`parse?_text`).
-/

namespace Understudy

namespace Keyed

variable {α : Type}

theorem insert_of_forall_lt {entries : List (String × α)} {name : String} {value : α}
    (h : ∀ e ∈ entries, e.1 < name) : insert name value entries = entries ++ [(name, value)] := by
  induction entries with
  | nil => rfl
  | cons e entries ih =>
    obtain ⟨hlt, hrest⟩ := List.forall_mem_cons.mp h
    have hnot : ¬ name < e.1 := fun hgt => String.lt_irrefl name (String.lt_trans hgt hlt)
    have hne : name ≠ e.1 := fun heq => String.lt_irrefl name (heq ▸ hlt)
    rw [insert, if_neg hnot, if_neg hne, ih hrest, List.cons_append]

theorem insertAll_of_sorted {entries new : List (String × α)} (h : Sorted (entries ++ new)) :
    insertAll entries new = entries ++ new := by
  induction new generalizing entries with
  | nil => rw [insertAll_nil, List.append_nil]
  | cons e new ih =>
    have hlt : ∀ f ∈ entries, f.1 < e.1 :=
      fun f hf => (List.pairwise_append.mp h).2.2 f hf e List.mem_cons_self
    rw [List.append_cons] at h
    rw [insertAll_cons, insert_of_forall_lt hlt, ih h, ← List.append_cons]

/-- Sorting leaves sorted entries as they are. -/
theorem ofList_of_sorted {entries : List (String × α)} (h : Sorted entries) :
    ofList entries = entries :=
  insertAll_of_sorted h

/-- Nothing is in a list that was not inserted or in it before. -/
theorem mem_of_mem_insertAll {entries new : List (String × α)} {e : String × α}
    (h : e ∈ insertAll entries new) : e ∈ entries ∨ e ∈ new := by
  induction new generalizing entries with
  | nil => exact Or.inl h
  | cons f new ih =>
    rcases ih h with hold | hnew
    · rcases mem_insert hold with rfl | hold
      · exact Or.inr List.mem_cons_self
      · exact Or.inl hold
    · exact Or.inr (List.mem_cons_of_mem _ hnew)

theorem mem_of_mem_ofList {entries : List (String × α)} {e : String × α} (h : e ∈ ofList entries) :
    e ∈ entries :=
  (mem_of_mem_insertAll h).resolve_left List.not_mem_nil

end Keyed

namespace Json

/-! ### Canonical documents -/

theorem canonicalItems_eq_map (items : List Json) : canonicalItems items = items.map canonical := by
  induction items with
  | nil => rfl
  | cons item items ih => rw [canonicalItems, ih, List.map_cons]

theorem canonicalItems_iff {items : List Json} :
    CanonicalItems items ↔ ∀ item ∈ items, item.Canonical := by
  induction items with
  | nil => exact iff_of_true trivial fun _ h => absurd h List.not_mem_nil
  | cons item items ih => rw [CanonicalItems, List.forall_mem_cons, ih]

theorem canonicalFields_iff {fields : List (String × Json)} :
    CanonicalFields fields ↔ ∀ field ∈ fields, field.2.Canonical := by
  induction fields with
  | nil => exact iff_of_true trivial fun _ h => absurd h List.not_mem_nil
  | cons field fields ih => rw [CanonicalFields, List.forall_mem_cons, ih]

mutual

theorem canonical_canonical : (j : Json) → j.canonical.Canonical
  | null | bool _ | number _ | string _ => trivial
  | array items => canonicalItems_canonicalItems items
  | object fields =>
    ⟨Keyed.sorted_ofList _, canonicalFields_iff.mpr fun _ hfield =>
      canonicalFields_iff.mp (canonicalFields_canonicalFields fields) _
        (Keyed.mem_of_mem_ofList hfield)⟩

theorem canonicalItems_canonicalItems : (items : List Json) → CanonicalItems (canonicalItems items)
  | [] => trivial
  | item :: items => ⟨canonical_canonical item, canonicalItems_canonicalItems items⟩

theorem canonicalFields_canonicalFields :
    (fields : List (String × Json)) → CanonicalFields (canonicalFields fields)
  | [] => trivial
  | (_, value) :: fields => ⟨canonical_canonical value, canonicalFields_canonicalFields fields⟩

end

mutual

theorem canonical_eq_self : (j : Json) → j.Canonical → j.canonical = j
  | null, _ | bool _, _ | number _, _ | string _, _ => rfl
  | array items, h => congrArg array (canonicalItems_eq_self items h)
  | object fields, h => by
    rw [canonical, canonicalFields_eq_self fields h.2, Keyed.ofList_of_sorted h.1]

theorem canonicalItems_eq_self : (items : List Json) → CanonicalItems items →
    canonicalItems items = items
  | [], _ => rfl
  | item :: items, h => by
    rw [canonicalItems, canonical_eq_self item h.1, canonicalItems_eq_self items h.2]

theorem canonicalFields_eq_self : (fields : List (String × Json)) → CanonicalFields fields →
    canonicalFields fields = fields
  | [], _ => rfl
  | (_, value) :: fields, h => by
    rw [canonicalFields, canonical_eq_self value h.1, canonicalFields_eq_self fields h.2]

end

/-! ### Reading -/

theorem canonical_of_parse? {text : String} {j : Json} (h : parse? text = some j) :
    j.Canonical := by
  obtain ⟨read, -, rfl⟩ := Option.map_eq_some_iff.mp h
  exact canonical_canonical read

/-- **Reading back.** What is written of a document without floats is read as the canonical form of
this document, unless it is nested deeper than the reader goes. Then it is not read at all. -/
theorem parse?_text {j : Json} (hintegral : j.isIntegral = true) :
    parse? j.text = if j.depth ≤ Reader.maxDepth then some j.canonical else none := by
  rw [parse?, read?, text, String.toList_ofList, ofText?_chars hintegral, Option.bind_some,
    ofTokens?_tokens]
  by_cases hdepth : j.depth ≤ Reader.maxDepth
  · rw [if_pos hdepth, if_pos hdepth, Option.map_some]
  · rw [if_neg hdepth, if_neg hdepth, Option.map_none]

end Json

end Understudy
