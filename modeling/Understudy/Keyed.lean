/-!
# Understudy.Keyed

Entries in the order of their names.

An association list from strings is *sorted* when its names rise strictly, code point by code point,
which is also the order of their octets in UTF-8. `insert` and `erase` keep a list sorted, and a
sorted list is determined by what `get?` answers for each name (`ext`): every law of the operations
is proved on that view.
-/

namespace Understudy

namespace Keyed

variable {α : Type}

/-- The value under a name. -/
def get? (name : String) : List (String × α) → Option α
  | [] => none
  | (n, a) :: rest => if n = name then some a else get? name rest

/-- Puts a value under a name, in place of the one that was there. -/
def insert (name : String) (value : α) : List (String × α) → List (String × α)
  | [] => [(name, value)]
  | (n, a) :: rest =>
    if name < n then (name, value) :: (n, a) :: rest
    else if name = n then (name, value) :: rest
    else (n, a) :: insert name value rest

/-- Drops the value under a name. -/
def erase (name : String) (entries : List (String × α)) : List (String × α) :=
  entries.filter fun entry => entry.1 ≠ name

/-- Puts entries one after the other: the last one under a name stays. -/
def insertAll (entries new : List (String × α)) : List (String × α) :=
  new.foldl (fun acc entry => insert entry.1 entry.2 acc) entries

/-- Sorts entries by name, and keeps the last one under each. -/
def ofList (entries : List (String × α)) : List (String × α) := insertAll [] entries

/-- Whether the names rise strictly. -/
def Sorted (entries : List (String × α)) : Prop :=
  entries.Pairwise fun a b => a.1 < b.1

@[simp] theorem get?_nil (name : String) : get? name ([] : List (String × α)) = none := rfl

@[simp] theorem insertAll_nil (entries : List (String × α)) : insertAll entries [] = entries := rfl

@[simp] theorem insertAll_cons (entries new : List (String × α)) (entry : String × α) :
    insertAll entries (entry :: new) = insertAll (insert entry.1 entry.2 entries) new := rfl

/-! ### Sortedness -/

theorem sorted_nil : Sorted ([] : List (String × α)) := List.Pairwise.nil

/-- Nothing is in a list that was not inserted or in it before. -/
theorem mem_insert {name : String} {value : α} {entries : List (String × α)} {e : String × α}
    (h : e ∈ insert name value entries) : e = (name, value) ∨ e ∈ entries := by
  induction entries with
  | nil => simpa [insert] using h
  | cons head rest ih =>
    obtain ⟨n, a⟩ := head
    simp only [insert] at h
    split at h
    · simpa using h
    · split at h
      · rcases List.mem_cons.1 h with h | h
        · exact .inl h
        · exact .inr (List.mem_cons_of_mem _ h)
      · rcases List.mem_cons.1 h with h | h
        · exact .inr (h ▸ List.mem_cons_self)
        · exact (ih h).imp id (List.mem_cons_of_mem _)

/-- Names that are neither below nor equal lie above. -/
theorem lt_of_not_lt_of_ne {a b : String} (h : ¬ a < b) (hne : a ≠ b) : b < a := by
  rcases String.not_lt.1 h with hle
  by_cases hba : b < a
  · exact hba
  · exact absurd (String.le_antisymm (String.not_lt.1 hba) hle) hne

/-- Inserting keeps the order. -/
theorem Sorted.insert {entries : List (String × α)} (h : Sorted entries) (name : String)
    (value : α) : Sorted (insert name value entries) := by
  induction entries with
  | nil => simp [Keyed.insert, Sorted]
  | cons head rest ih =>
    obtain ⟨n, a⟩ := head
    have hrest := List.pairwise_cons.1 h
    simp only [Keyed.insert]
    split
    next hlt =>
      refine List.Pairwise.cons (fun e he => ?_) h
      rcases List.mem_cons.1 he with rfl | he
      · exact hlt
      · exact String.lt_trans hlt (hrest.1 e he)
    next hlt =>
      split
      next heq =>
        subst heq
        exact List.Pairwise.cons (fun e he => hrest.1 e he) hrest.2
      next hne =>
        refine List.Pairwise.cons (fun e he => ?_) (ih hrest.2)
        rcases mem_insert he with rfl | he
        · exact lt_of_not_lt_of_ne hlt hne
        · exact hrest.1 e he

theorem Sorted.erase {entries : List (String × α)} (h : Sorted entries) (name : String) :
    Sorted (erase name entries) :=
  List.Pairwise.filter _ h

theorem Sorted.insertAll {entries : List (String × α)} (h : Sorted entries)
    (new : List (String × α)) : Sorted (insertAll entries new) := by
  induction new generalizing entries with
  | nil => exact h
  | cons e new ih => exact ih (h.insert _ _)

theorem sorted_ofList (entries : List (String × α)) : Sorted (ofList entries) :=
  sorted_nil.insertAll entries

/-! ### The view -/

/-- What is found after inserting. -/
theorem get?_insert (entries : List (String × α)) (name other : String) (value : α) :
    get? other (insert name value entries) =
      if name = other then some value else get? other entries := by
  induction entries with
  | nil => simp [insert, get?]
  | cons head rest ih =>
    obtain ⟨n, a⟩ := head
    simp only [insert]
    split
    · simp [get?]
    · split
      next heq => subst heq; by_cases h : name = other <;> simp [get?, h]
      next hne =>
        by_cases h : n = other
        · subst h; simp [get?, hne]
        · simp [get?, h, ih]

theorem get?_eq_none_of_lt {entries : List (String × α)} {name : String}
    (h : ∀ e ∈ entries, name < e.1) : get? name entries = none := by
  induction entries with
  | nil => rfl
  | cons head rest ih =>
    obtain ⟨n, a⟩ := head
    have hlt : name < n := h _ List.mem_cons_self
    have hne : n ≠ name := fun heq => String.lt_irrefl name (heq ▸ hlt)
    simp [get?, hne, ih fun e he => h e (List.mem_cons_of_mem _ he)]

/-- In a sorted list every entry is found. -/
theorem get?_of_mem {entries : List (String × α)} (hs : Sorted entries) {name : String} {value : α}
    (h : (name, value) ∈ entries) : get? name entries = some value := by
  induction entries with
  | nil => simp at h
  | cons head rest ih =>
    obtain ⟨n, a⟩ := head
    have hrest := List.pairwise_cons.1 hs
    rcases List.mem_cons.1 h with h | h
    · cases h; simp [get?]
    · have hlt : n < name := hrest.1 _ h
      have hne : n ≠ name := fun heq => String.lt_irrefl name (heq ▸ hlt)
      simp [get?, hne, ih hrest.2 h]

/-- What is found is an entry. -/
theorem mem_of_get? {entries : List (String × α)} {name : String} {value : α}
    (h : get? name entries = some value) : (name, value) ∈ entries := by
  induction entries with
  | nil => simp at h
  | cons head rest ih =>
    obtain ⟨n, a⟩ := head
    simp only [get?] at h
    split at h
    next heq => cases h; subst heq; exact List.mem_cons_self
    next hne => exact List.mem_cons_of_mem _ (ih h)

/-- Sorted lists that answer alike are equal. -/
theorem ext {as bs : List (String × α)} (ha : Sorted as) (hb : Sorted bs)
    (h : ∀ name, get? name as = get? name bs) : as = bs := by
  induction as generalizing bs with
  | nil =>
    cases bs with
    | nil => rfl
    | cons b bs =>
      have := h b.1
      simp [get?] at this
  | cons a as ih =>
    cases bs with
    | nil =>
      have := h a.1
      simp [get?] at this
    | cons b bs =>
      obtain ⟨n, x⟩ := a
      obtain ⟨m, y⟩ := b
      have ha' := List.pairwise_cons.1 ha
      have hb' := List.pairwise_cons.1 hb
      -- the smaller of two different first names would be found in one list only
      have hnm : n = m := by
        by_cases hlt : n < m
        · have hn := h n
          have hnone : get? n ((m, y) :: bs) = none := by
            refine get?_eq_none_of_lt fun e he => ?_
            rcases List.mem_cons.1 he with rfl | he
            · exact hlt
            · exact String.lt_trans hlt (hb'.1 e he)
          rw [hnone] at hn
          simp [get?] at hn
        · by_cases heq : n = m
          · exact heq
          · have hgt := lt_of_not_lt_of_ne hlt heq
            have hm := h m
            have hnone : get? m ((n, x) :: as) = none := by
              refine get?_eq_none_of_lt fun e he => ?_
              rcases List.mem_cons.1 he with rfl | he
              · exact hgt
              · exact String.lt_trans hgt (ha'.1 e he)
            rw [hnone] at hm
            simp [get?] at hm
      subst hnm
      have hxy : x = y := by simpa [get?] using h n
      subst hxy
      rw [ih ha'.2 hb'.2]
      intro name
      by_cases hname : n = name
      · subst hname
        rw [get?_eq_none_of_lt fun e he => ha'.1 e he,
          get?_eq_none_of_lt fun e he => hb'.1 e he]
      · simpa [get?, hname] using h name

end Keyed

end Understudy
