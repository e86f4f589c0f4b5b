/-!
# Understudy.Text.Cut

Cutting a list at separators.

`cut` divides at the first separator and `cutPair` at the first pair of neighbours; both drop the
separator and say by `none` that there is none. `fields` divides at every separator.
-/

namespace Understudy

namespace Text

variable {α : Type} [DecidableEq α]

/-- What stands before and after the first `sep`. -/
def cut (sep : α) : List α → Option (List α × List α)
  | [] => none
  | a :: as =>
    if a = sep then some ([], as)
    else (cut sep as).map fun parts => (a :: parts.1, parts.2)

/-- What stands before and after the first `first` that `second` follows. -/
def cutPair (first second : α) : List α → Option (List α × List α)
  | [] => none
  | a :: as =>
    if a = first ∧ as.head? = some second then some ([], as.drop 1)
    else (cutPair first second as).map fun parts => (a :: parts.1, parts.2)

/-- The parts between separators; there is always one more part than there are separators. -/
def fields (sep : α) : List α → List (List α)
  | [] => [[]]
  | a :: as =>
    if a = sep then [] :: fields sep as
    else
      match fields sep as with
      | [] => [[a]]
      | part :: parts => (a :: part) :: parts

/-- The list without the copies of `a` at its end. -/
def dropTrailing (a : α) : List α → List α
  | [] => []
  | b :: bs =>
    match dropTrailing a bs with
    | [] => if b = a then [] else [b]
    | c :: cs => b :: c :: cs

theorem cut_of_mem {sep : α} {as bs : List α} (h : sep ∉ as) :
    cut sep (as ++ sep :: bs) = some (as, bs) := by
  induction as with
  | nil => simp [cut]
  | cons a as ih =>
    simp only [List.mem_cons, not_or] at h
    simp [cut, Ne.symm h.1, ih h.2]

theorem cut_eq_none {sep : α} {as : List α} (h : sep ∉ as) : cut sep as = none := by
  induction as with
  | nil => rfl
  | cons a as ih =>
    simp only [List.mem_cons, not_or] at h
    simp [cut, Ne.symm h.1, ih h.2]

theorem fields_ne_nil (sep : α) (as : List α) : fields sep as ≠ [] := by
  cases as with
  | nil => simp [fields]
  | cons a as =>
    simp only [fields]
    split
    · simp
    · split <;> simp

theorem dropTrailing_append_self (a : α) (as : List α) :
    dropTrailing a (as ++ [a]) = dropTrailing a as := by
  induction as with
  | nil => simp [dropTrailing]
  | cons b bs ih => simp [dropTrailing, ih]

end Text

end Understudy
