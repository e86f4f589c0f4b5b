import Understudy.AttributeSet.Query
import Understudy.Proofs.AttributeSet.View
import Understudy.Proofs.Text.Percent

/-!
# Understudy.Proofs.AttributeSet.WrittenQuery

How the query of a path is cut up and read.

A query is cut at signs `&`, and a condition at `=` or `!=`, before anything is decoded. A field
that spells a text has none of these characters in it (`Spells`), so the cuts of a condition are
where its fields were joined, and it is read as it was written in each of the three forms
(`condition_equation`, `condition_exclusion`, `condition_bare`). A query that is joined from two has
the conditions of both (`conditions_append`). Only a star among the values means more than it says.
-/

namespace Understudy

namespace Text

variable {α : Type} [DecidableEq α]

theorem fields_of_not_mem {sep : α} {as : List α} (h : sep ∉ as) : fields sep as = [as] := by
  induction as with
  | nil => rfl
  | cons a as ih =>
    rw [List.mem_cons, not_or] at h
    obtain ⟨hne, hrest⟩ := h
    rw [fields, if_neg (Ne.symm hne), ih hrest]

/-- A separator divides the parts before it from those after it. -/
theorem fields_append_cons (sep : α) (as bs : List α) :
    fields sep (as ++ sep :: bs) = fields sep as ++ fields sep bs := by
  induction as with
  | nil =>
    show (if sep = sep then [] :: fields sep bs else _) = [[]] ++ fields sep bs
    rw [if_pos rfl, List.singleton_append]
  | cons a as ih =>
    rw [List.cons_append, fields, fields, ih]
    by_cases ha : a = sep
    · rw [if_pos ha, if_pos ha, List.cons_append]
    · rw [if_neg ha, if_neg ha]
      cases hparts : fields sep as with
      | nil => exact absurd hparts (fields_ne_nil sep as)
      | cons part parts => rfl

theorem cutPair_eq_none {first second : α} {as : List α} (h : first ∉ as) :
    cutPair first second as = none := by
  induction as with
  | nil => rfl
  | cons a as ih =>
    rw [List.mem_cons, not_or] at h
    obtain ⟨hne, hrest⟩ := h
    rw [cutPair, if_neg fun hc => hne hc.1.symm, ih hrest]
    rfl

theorem cutPair_of_not_mem {first : α} {as : List α} (h : first ∉ as) (second : α) (bs : List α) :
    cutPair first second (as ++ first :: second :: bs) = some (as, bs) := by
  induction as with
  | nil => simp [cutPair]
  | cons a as ih =>
    rw [List.mem_cons, not_or] at h
    obtain ⟨hne, hrest⟩ := h
    rw [List.cons_append, cutPair, if_neg fun hc => hne hc.1.symm, ih hrest]
    rfl

theorem dropTrailing_append_replicate (a : α) (as : List α) (n : Nat) :
    dropTrailing a (as ++ List.replicate n a) = dropTrailing a as := by
  induction n with
  | zero => rw [List.replicate_zero, List.append_nil]
  | succ n ih => rw [List.replicate_succ', ← List.append_assoc, dropTrailing_append_self, ih]

end Text

namespace AttributeSet

open Attribute (Value)

/-! ### Fields -/

/-- Whether a field is read as a text and has no character at which a condition is cut. -/
structure Spells (field text : String) : Prop where
  read : Percent.decodeField field.toList = text
  unbroken : ∀ c ∈ field.toList, c ≠ '&' ∧ c ≠ '!' ∧ c ≠ '='

instance (field text : String) : Decidable (Spells field text) :=
  decidable_of_iff (Percent.decodeField field.toList = text ∧
      (field.toList.all fun c => c ≠ '&' ∧ c ≠ '!' ∧ c ≠ '=') = true)
    ⟨fun h => ⟨h.1, fun c hc => of_decide_eq_true (List.all_eq_true.mp h.2 c hc)⟩,
      fun h => ⟨h.read, List.all_eq_true.mpr fun c hc => decide_eq_true (h.unbroken c hc)⟩⟩

theorem not_mem_of_writes {cs : List Char} {bs : Bytes} (h : Percent.Writes cs bs) {c : Char}
    (halphanum : c.isAlphanum = false) (hescape : c ≠ '%') (hspace : c ≠ '+') : c ∉ cs := by
  intro hc
  rcases h.mem hc with hc | hc | hc
  · rw [hc] at halphanum
    cases halphanum
  · exact hescape hc
  · exact hspace hc

/-- All ways to write a text as a field of a form spell it. -/
theorem spells_of_writes {field text : String}
    (h : Percent.Writes field.toList (Utf8.encode text)) : Spells field text where
  read := h.decodeField
  unbroken := by
    rintro c hc
    refine ⟨?_, ?_, ?_⟩
    · rintro rfl
      exact not_mem_of_writes h (by decide) (by decide) (by decide) hc
    · rintro rfl
      exact not_mem_of_writes h (by decide) (by decide) (by decide) hc
    · rintro rfl
      exact not_mem_of_writes h (by decide) (by decide) (by decide) hc

/-- A star may stand in a query as it is. -/
theorem spells_star : Spells Value.star Value.star := by decide +kernel

theorem Spells.not_mem {field text : String} (h : Spells field text) :
    '&' ∉ field.toList ∧ '!' ∉ field.toList ∧ '=' ∉ field.toList :=
  ⟨fun hc => (h.unbroken _ hc).1 rfl, fun hc => (h.unbroken _ hc).2.1 rfl,
    fun hc => (h.unbroken _ hc).2.2 rfl⟩

/-- The field of a name that is not empty is not empty. -/
theorem Spells.ne_empty {field text : String} (h : Spells field text) (htext : text ≠ "") :
    field ≠ "" := by
  rintro rfl
  exact htext h.read.symm

/-! ### Conditions -/

/-- The condition `k=v`. -/
def equation (pair : String × String) : String := pair.1 ++ "=" ++ pair.2

theorem toList_equation (pair : String × String) :
    (equation pair).toList = pair.1.toList ++ '=' :: pair.2.toList := by
  simp [equation]

/-- The condition `k!=v`. -/
def exclusion (pair : String × String) : String := pair.1 ++ "!=" ++ pair.2

theorem toList_exclusion (pair : String × String) :
    (exclusion pair).toList = pair.1.toList ++ '!' :: '=' :: pair.2.toList := by
  simp [exclusion]

section Conditions

variable {k v name value : String} (hname : Spells k name) (hvalue : Spells v value)

include hname in
theorem condition_bare : condition k.toList = ⟨name, .wildcard, .present⟩ := by
  obtain ⟨-, hmark, hsign⟩ := hname.not_mem
  rw [condition, Text.cutPair_eq_none hmark, Text.cut_eq_none hsign]
  simp only [hname.read]

include hname hvalue

theorem condition_equation :
    condition (equation (k, v)).toList = ⟨name, .ofText value, .present⟩ := by
  obtain ⟨-, hmark, hsign⟩ := hname.not_mem
  have hnone : '!' ∉ k.toList ++ '=' :: v.toList := by
    simp [hmark, hvalue.not_mem.2.1]
  rw [toList_equation, condition, Text.cutPair_eq_none hnone, Text.cut_of_mem hsign]
  simp only [hname.read, hvalue.read]

theorem condition_exclusion :
    condition (exclusion (k, v)).toList = ⟨name, .ofText value, .absent⟩ := by
  obtain ⟨-, hmark, -⟩ := hname.not_mem
  rw [toList_exclusion, condition, Text.cutPair_of_not_mem hmark]
  simp only [hname.read, hvalue.read]

theorem equation_unbroken : '&' ∉ (equation (k, v)).toList := by
  rw [toList_equation]
  simp [hname.not_mem.1, hvalue.not_mem.1]

theorem exclusion_unbroken : '&' ∉ (exclusion (k, v)).toList := by
  rw [toList_exclusion]
  simp [hname.not_mem.1, hvalue.not_mem.1]

end Conditions

/-! ### Queries -/

@[simp] theorem conditions_nil : conditions [] = [] := rfl

theorem conditions_of_unbroken {part : List Char} (hpart : part ≠ []) (h : '&' ∉ part) :
    conditions part = [condition part] := by
  simp [conditions, Text.fields_of_not_mem h, hpart]

/-- A query that is joined from two has the conditions of both. -/
theorem conditions_append (query rest : List Char) :
    conditions (query ++ '&' :: rest) = conditions query ++ conditions rest := by
  simp only [conditions, Text.fields_append_cons, List.filter_append, List.map_append]

/-! ### Attributes that are asked for -/

/-- Whether a pair of fields is written for the name of an attribute and the text of its value. -/
def Asks (pair : String × String) (a : Attribute) : Prop :=
  Percent.Writes pair.1.toList (Utf8.encode a.name) ∧
    Percent.Writes pair.2.toList (Utf8.encode a.value.text)

/-- What a condition `k=v` wants that is written for an attribute: a star is the wildcard, even if
it is the literal value of the attribute. -/
def wanted (a : Attribute) : Attribute := ⟨a.name, .ofText a.value.text, .present⟩

/-- The fields of an attribute, with every octet escaped that is not an ASCII letter or digit. -/
def escaped (a : Attribute) : String × String :=
  (String.ofList (Percent.encode a.name.toList),
    String.ofList (Percent.encode a.value.text.toList))

theorem asks_escaped (a : Attribute) : Asks (escaped a) a := by
  rw [Asks, escaped, String.toList_ofList, String.toList_ofList]
  exact ⟨Percent.writes_encode _, Percent.writes_encode _⟩

theorem condition_of_asks {pair : String × String} {a : Attribute} (h : Asks pair a) :
    condition (equation pair).toList = wanted a :=
  condition_equation (spells_of_writes h.1) (spells_of_writes h.2)

theorem equation_ne_nil (pair : String × String) : (equation pair).toList ≠ [] := by
  simp [toList_equation]

/-- A query that is joined from conditions has these conditions. -/
theorem conditions_intercalate {pairs : List (String × String)}
    (h : ∀ pair ∈ pairs, ∃ a, Asks pair a) :
    conditions ("&".intercalate (pairs.map equation)).toList =
      pairs.map fun pair => condition (equation pair).toList := by
  have hone : ∀ pair ∈ pairs,
      conditions (equation pair).toList = [condition (equation pair).toList] := by
    intro pair hpair
    obtain ⟨a, hname, hvalue⟩ := h pair hpair
    exact conditions_of_unbroken (equation_ne_nil pair)
      (equation_unbroken (spells_of_writes hname) (spells_of_writes hvalue))
  rw [String.toList_intercalate, List.map_map]
  clear h
  induction pairs with
  | nil => rfl
  | cons pair pairs ih =>
    cases pairs with
    | nil => simpa using hone pair (.head [])
    | cons next pairs =>
      have hrest := ih fun p hp => hone p (.tail pair hp)
      show conditions ((equation pair).toList ++
        '&' :: ['&'].intercalate ((next :: pairs).map (String.toList ∘ equation))) = _
      rw [conditions_append, hone pair (.head _), List.map_cons, List.singleton_append]
      exact congrArg _ hrest

/-! ### Paths -/

/-- A path is read as its base, and over that the conditions of its query. -/
theorem ofPath_append {base : String} (hbase : '?' ∉ base.toList) (query : String) :
    ofPath (base ++ "?" ++ query) =
      ofList
        (⟨pathName, .literal (baseName base.toList), .present⟩ :: conditions query.toList) := by
  have hpath : (base ++ "?" ++ query).toList = base.toList ++ '?' :: query.toList := by simp
  rw [ofPath, hpath, splitPath, Text.cut_of_mem hbase, Option.getD_some]

/-- The path whose query is joined from conditions `k=v`, with slashes at the end of its base. -/
def written (base : String) (slashes : Nat) (pairs : List (String × String)) : String :=
  base ++ String.ofList (List.replicate slashes '/') ++ "?" ++ "&".intercalate (pairs.map equation)

/-- What a written path asks for. Slashes at the end of the base make no difference. -/
theorem ofPath_written {base : String} (hbase : '?' ∉ base.toList) (slashes : Nat)
    {pairs : List (String × String)} (h : ∀ pair ∈ pairs, ∃ a, Asks pair a) :
    ofPath (written base slashes pairs) =
      ofList (⟨pathName, .literal (baseName base.toList), .present⟩ ::
        pairs.map fun pair => condition (equation pair).toList) := by
  have hmark : '?' ∉ (base ++ String.ofList (List.replicate slashes '/')).toList := by
    simp [hbase]
  rw [written, ofPath_append hmark, conditions_intercalate h, String.toList_append,
    String.toList_ofList, baseName, Text.dropTrailing_append_replicate, ← baseName]

end AttributeSet

end Understudy
