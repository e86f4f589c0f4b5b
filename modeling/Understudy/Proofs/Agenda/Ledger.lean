import Understudy.Agenda

/-!
# Understudy.Proofs.Agenda.Ledger

Accounts of an agenda.

Tasks run by the time at which they are due, and at one time by their number (`Task.Before`). A
`Ledger` says that of all tasks that were ever accepted some have run and the others wait, each task
on one side only, and in this order. It is kept by the three things that happen to an agenda: a
task is accepted, the first task runs, and time passes. Time must not pass beyond a task that waits:
this is what keeps the tasks that are accepted later behind those that have run.
-/

namespace Understudy

namespace Agenda

variable {α : Type}

/-! ### The order of tasks -/

/-- A later number comes later, unless it is due earlier. -/
theorem Task.before_of_number {t u : Task α} (hdue : t.due ≤ u.due)
    (hnumber : t.number < u.number) : t.Before u := by
  rcases Nat.lt_or_eq_of_le hdue with hlt | heq
  · exact Or.inl hlt
  · exact Or.inr ⟨heq, hnumber⟩

theorem Task.Before.due_le {t u : Task α} (h : t.Before u) : t.due ≤ u.due := by
  rcases h with hlt | ⟨heq, -⟩
  · exact Nat.le_of_lt hlt
  · exact Nat.le_of_eq heq

theorem place_perm (t : Task α) (ts : List (Task α)) : (place t ts).Perm (t :: ts) := by
  induction ts with
  | nil => exact List.Perm.refl _
  | cons u ts ih =>
    rw [place]
    split
    · exact (ih.cons u).trans (List.Perm.swap t u ts)
    · exact List.Perm.refl _

theorem mem_place {t u : Task α} {ts : List (Task α)} : u ∈ place t ts ↔ u = t ∨ u ∈ ts := by
  rw [(place_perm t ts).mem_iff, List.mem_cons]

/-- A task with a later number than all the others has its place in the order. -/
theorem pairwise_place {t : Task α} {ts : List (Task α)} (h : ts.Pairwise Task.Before)
    (hnumber : ∀ u ∈ ts, u.number < t.number) : (place t ts).Pairwise Task.Before := by
  induction ts with
  | nil => exact List.pairwise_singleton _ t
  | cons u ts ih =>
    obtain ⟨hu, hts⟩ := List.pairwise_cons.mp h
    have hnumber' : ∀ v ∈ ts, v.number < t.number := fun v hv => hnumber v (.tail u hv)
    rw [place]
    split
    · rename_i hdue
      refine List.pairwise_cons.mpr ⟨fun v hv => ?_, ih hts hnumber'⟩
      rcases mem_place.mp hv with rfl | hv
      · exact Task.before_of_number hdue (hnumber u (.head ts))
      · exact hu v hv
    · rename_i hdue
      have hlt : t.due < u.due := Nat.lt_of_not_le hdue
      refine List.pairwise_cons.mpr ⟨fun v hv => ?_, h⟩
      rcases List.mem_cons.mp hv with rfl | hv
      · exact Or.inl hlt
      · exact Or.inl (Nat.lt_of_lt_of_le hlt (hu v hv).due_le)

/-! ### Ledgers -/

/-- The account of an agenda at a time: `all` are the tasks that were ever accepted, `done` are
those that have run, and `waiting` are the others, both in order. -/
structure Ledger (now : Nat) (all done waiting : List (Task α)) : Prop where
  numbers : ∀ t ∈ all, t.number < all.length
  perm : (done ++ waiting).Perm all
  order : (done ++ waiting).Pairwise Task.Before
  past : ∀ t ∈ done, t.due ≤ now
  future : ∀ t ∈ waiting, now ≤ t.due

theorem ledger_nil (now : Nat) : Ledger now ([] : List (Task α)) [] [] where
  numbers := by simp
  perm := List.Perm.refl _
  order := List.Pairwise.nil
  past := by simp
  future := by simp

section Ledger

variable {now : Nat} {all done waiting : List (Task α)}

/-- Accepting a task that is not due in the past. -/
theorem Ledger.accept (h : Ledger now all done waiting) {t : Task α} (hdue : now ≤ t.due)
    (hnumber : t.number = all.length) :
    Ledger now (all ++ [t]) done (place t waiting) := by
  have hlater : ∀ u ∈ done ++ waiting, u.number < t.number := by
    intro u hu
    rw [hnumber]
    exact h.numbers u (h.perm.mem_iff.mp hu)
  -- what has run is not due after now, so the new task finds its place among those that wait
  obtain ⟨hdone, hwaiting, hcross⟩ := List.pairwise_append.mp h.order
  refine ⟨?_, ?_, ?_, h.past, ?_⟩
  · intro u hu
    rw [List.length_append, List.length_singleton]
    rcases List.mem_append.mp hu with hu | hu
    · exact Nat.lt_succ_of_lt (h.numbers u hu)
    · rw [List.mem_singleton.mp hu, hnumber]
      exact Nat.lt_succ_self _
  · calc List.Perm (done ++ place t waiting) (done ++ t :: waiting) :=
          (place_perm t waiting).append_left done
      List.Perm _ (t :: (done ++ waiting)) := List.perm_middle
      List.Perm _ (t :: all) := h.perm.cons t
      List.Perm _ (all ++ [t]) := (List.perm_append_singleton t all).symm
  · refine List.pairwise_append.mpr ⟨hdone, ?_, ?_⟩
    · exact pairwise_place hwaiting fun u hu => hlater u (List.mem_append_right done hu)
    · intro u hu v hv
      rcases mem_place.mp hv with rfl | hv
      · exact Task.before_of_number (Nat.le_trans (h.past u hu) hdue)
          (hlater u (List.mem_append_left waiting hu))
      · exact hcross u hu v hv
  · intro u hu
    rcases mem_place.mp hu with rfl | hu
    · exact hdue
    · exact h.future u hu

/-- The first task runs, and it runs when it is due. -/
theorem Ledger.take {t : Task α} {rest : List (Task α)} (h : Ledger now all done (t :: rest))
    (hdue : t.due ≤ now) : t.due = now ∧ Ledger now all (done ++ [t]) rest := by
  refine ⟨Nat.le_antisymm hdue (h.future t (.head rest)), h.numbers, ?_, ?_, ?_, ?_⟩
  · simpa using h.perm
  · simpa using h.order
  · intro u hu
    rcases List.mem_append.mp hu with hu | hu
    · exact h.past u hu
    · rw [List.mem_singleton.mp hu]
      exact hdue
  · exact fun u hu => h.future u (.tail t hu)

/-- Time passes, but not beyond what waits. -/
theorem Ledger.elapse (h : Ledger now all done waiting) {time : Nat} (hle : now ≤ time)
    (hwaiting : ∀ t ∈ waiting, time ≤ t.due) : Ledger time all done waiting :=
  ⟨h.numbers, h.perm, h.order, fun t ht => Nat.le_trans (h.past t ht) hle, hwaiting⟩

end Ledger

end Agenda

end Understudy
