import Understudy.Proofs.Timer.Refinement

/-!
# Understudy.Proofs.Timer.Shutdown

Timers under a clock.

A clock need not stop at every millisecond. The worker runs what has become due whenever it is
polled, so that only the last time counts (`Rests.visit`). In particular it is enough to stop where
a task is due, and this is what `advance` and `shutdown` do.

A timer that is shut down goes on until its worker is over or the deadline has come. What it still
runs, how long that takes and whether it is complete can be read off its agenda (`shutdown_spec`).
-/

namespace Understudy

/-! ### Beginnings of lists -/

section TakeWhile

variable {α : Type} {p q : α → Bool} {xs : List α}

theorem takeWhile_congr (h : ∀ x ∈ xs, p x = q x) : xs.takeWhile p = xs.takeWhile q := by
  induction xs with
  | nil => rfl
  | cons x xs ih =>
    obtain ⟨hx, hxs⟩ := List.forall_mem_cons.mp h
    rw [List.takeWhile_cons, List.takeWhile_cons, hx, ih hxs]

theorem dropWhile_congr (h : ∀ x ∈ xs, p x = q x) : xs.dropWhile p = xs.dropWhile q := by
  induction xs with
  | nil => rfl
  | cons x xs ih =>
    obtain ⟨hx, hxs⟩ := List.forall_mem_cons.mp h
    rw [List.dropWhile_cons, List.dropWhile_cons, hx, ih hxs]

/-- A longer beginning can be taken in two steps. -/
theorem takeWhile_dropWhile (h : ∀ x, p x = true → q x = true) :
    xs.takeWhile p ++ (xs.dropWhile p).takeWhile q = xs.takeWhile q := by
  induction xs with
  | nil => rfl
  | cons x xs ih =>
    by_cases hp : p x = true
    · simp [hp, h x hp, ih]
    · simp [hp]

theorem dropWhile_dropWhile (h : ∀ x, p x = true → q x = true) :
    (xs.dropWhile p).dropWhile q = xs.dropWhile q := by
  induction xs with
  | nil => rfl
  | cons x xs ih =>
    by_cases hp : p x = true
    · simp [hp, h x hp, ih]
    · simp [hp]

end TakeWhile

namespace Agenda

variable {α : Type}

/-- What is due can be taken in two steps. -/
theorem takeAll_takeAll {time later : Nat} (h : time ≤ later) (a : Agenda α) :
    ((a.takeAll time).1 ++ ((a.takeAll time).2.takeAll later).1,
      ((a.takeAll time).2.takeAll later).2) = a.takeAll later := by
  have himp : ∀ t : Task α, decide (t.due ≤ time) = true → decide (t.due ≤ later) = true := by
    intro t ht
    exact decide_eq_true (Nat.le_trans (of_decide_eq_true ht) h)
  simp only [takeAll, takeWhile_dropWhile himp, dropWhile_dropWhile himp]

/-- The latest of some times, from a time on. -/
theorem foldl_max_lt {times : List Nat} {now bound : Nat} (hnow : now < bound)
    (h : ∀ time ∈ times, time < bound) : times.foldl max now < bound := by
  induction times generalizing now with
  | nil => exact hnow
  | cons time times ih =>
    obtain ⟨htime, htimes⟩ := List.forall_mem_cons.mp h
    exact ih (Nat.max_lt.mpr ⟨hnow, htime⟩) htimes

theorem le_foldl_max (times : List Nat) (now : Nat) :
    now ≤ times.foldl max now ∧ ∀ time ∈ times, time ≤ times.foldl max now := by
  induction times generalizing now with
  | nil => exact ⟨Nat.le_refl _, by simp⟩
  | cons time times ih =>
    obtain ⟨hnow, htimes⟩ := ih (max now time)
    exact ⟨Nat.le_trans (Nat.le_max_left _ _) hnow,
      List.forall_mem_cons.mpr ⟨Nat.le_trans (Nat.le_max_right _ _) hnow, htimes⟩⟩

/-- In an agenda that is in order, what is due before a time stands at its beginning. -/
theorem mem_takeBefore {deadline : Nat} {a : Agenda α}
    (h : a.tasks.Pairwise fun t u => t.due ≤ u.due) {t : Task α} :
    t ∈ (a.takeBefore deadline).1 ↔ t ∈ a.tasks ∧ t.due < deadline := by
  rw [takeBefore]
  simp only
  induction htasks : a.tasks generalizing a with
  | nil => simp
  | cons u ts ih =>
    rw [htasks] at h
    obtain ⟨hu, hts⟩ := List.pairwise_cons.mp h
    rw [List.takeWhile_cons]
    by_cases hdue : u.due < deadline
    · rw [if_pos (by simpa using hdue), List.mem_cons, List.mem_cons,
        ih (a := ⟨ts, a.next, a.stopped⟩) hts rfl]
      constructor
      · rintro (rfl | ⟨hmem, hlt⟩)
        · exact ⟨Or.inl rfl, hdue⟩
        · exact ⟨Or.inr hmem, hlt⟩
      · rintro ⟨rfl | hmem, hlt⟩
        · exact Or.inl rfl
        · exact Or.inr ⟨hmem, hlt⟩
    · rw [if_neg (by simpa using hdue)]
      simp only [List.not_mem_nil, false_iff, not_and, List.mem_cons, Nat.not_lt]
      rintro (rfl | hmem)
      · exact Nat.le_of_not_lt hdue
      · exact Nat.le_trans (Nat.le_of_not_lt hdue) (hu t hmem)

/-- To take what is due before a time, it is enough to look at the last time at which any of it
is. -/
theorem takeAll_eq_takeBefore {now deadline : Nat} {a : Agenda α}
    (h : a.tasks.Pairwise fun t u => t.due ≤ u.due) (hnow : now < deadline) :
    a.takeAll (((a.takeBefore deadline).1.map (·.due)).foldl max now) = a.takeBefore deadline := by
  have hlast : ((a.takeBefore deadline).1.map (·.due)).foldl max now < deadline := by
    refine foldl_max_lt hnow ?_
    intro time htime
    obtain ⟨t, ht, rfl⟩ := List.mem_map.mp htime
    exact ((mem_takeBefore h).mp ht).2
  have hsame : ∀ t ∈ a.tasks,
      decide (t.due ≤ ((a.takeBefore deadline).1.map (·.due)).foldl max now) =
        decide (t.due < deadline) := by
    intro t ht
    rw [decide_eq_decide]
    constructor
    · exact fun hle => Nat.lt_of_le_of_lt hle hlast
    · intro hlt
      exact (le_foldl_max _ _).2 t.due (List.mem_map_of_mem ((mem_takeBefore h).mpr ⟨ht, hlt⟩))
  rw [takeAll, takeWhile_congr hsame, dropWhile_congr hsame, takeBefore]

/-- An agenda that is not idle, and has some time, is complete if nothing is left that is due too
late. -/
theorem drain_of_busy {a : Agenda α} (h : a.isIdle = false) (now : Nat) {limit : Nat}
    (hlimit : limit ≠ 0) :
    let taken := a.takeBefore (now + limit)
    a.drain now limit =
      if taken.2.tasks = [] then
        ⟨true, taken.1.foldl (fun time t => max time t.due) now, taken.1, taken.2.cancel⟩
      else ⟨false, now + limit, taken.1, taken.2.cancel⟩ := by
  simp [drain, h, hlimit]

end Agenda

namespace Timer

variable {α : Type}

/-! ### Clocks that do not stop everywhere -/

theorem Valid.setNow {t : Timer α} (h : t.Valid) {time : Nat} (hle : t.now ≤ time) :
    ({ t with now := time } : Timer α).Valid := by
  have hstep := h.step (.elapse (time - t.now))
  rwa [Timer.step, Nat.add_sub_cancel' hle] at hstep

theorem Rests.trans {t u v : Timer α} {time later : Nat} (h : Rests t time u)
    (hle : time ≤ later) (h' : Rests { u with now := later } later v) : Rests t later v where
  valid := h'.valid
  waits := h'.waits
  plain := by
    obtain ⟨-, hagenda, hran⟩ := Plain.mk.inj h.plain
    have hfirst : ({ u with now := later } : Timer α).agenda = (t.agenda.takeAll time).2 := hagenda
    have hboth := Agenda.takeAll_takeAll hle t.agenda
    rw [h'.plain, hfirst]
    simp only
    rw [hran, List.append_assoc, ← hboth]

/-- Wherever the clock stops, the worker has run in the end what is due by the last time. -/
theorem Rests.visit {t u : Timer α} {time : Nat} (h : Rests t time u) (times : List Nat) :
    Rests t (times.foldl max time) (u.visit times) := by
  induction times generalizing u time with
  | nil => exact h
  | cons next times ih =>
    have hnow : u.now = time := (Plain.mk.inj h.plain).1
    have hle : time ≤ max time next := Nat.le_max_left _ _
    have hvalid : ({ u with now := max time next } : Timer α).Valid :=
      h.valid.setNow (by rw [hnow]; exact hle)
    have hrests := h.trans hle hvalid.rests_poll
    rw [List.foldl_cons, visit_cons, hnow]
    exact ih hrests

/-- The clock may as well stop at once. -/
theorem Valid.rests_visit {t : Timer α} (h : t.Valid) (times : List Nat) :
    Rests t (times.foldl max t.now) (t.visit (t.now :: times)) := by
  have hpoll : Rests t t.now t.poll := h.rests_poll
  rw [visit_cons, Nat.max_self]
  exact hpoll.visit times

/-- The tasks of a timer are in order. -/
theorem Valid.inOrder {t : Timer α} (h : t.Valid) :
    t.agenda.tasks.Pairwise fun a b => a.due ≤ b.due := by
  rw [agenda]
  split
  · exact List.Pairwise.nil
  · exact (pairwise_sorted h.numbers).imp Agenda.Task.Before.due_le

/-- **Time that passes.** When it has passed, the worker has run all that was due by then, in order,
and nothing else. -/
theorem Valid.advance_spec {t : Timer α} (h : t.Valid) (hwaits : t.Waits) (milliseconds : Nat) :
    Rests t (t.now + milliseconds) (t.advance milliseconds) := by
  have hlast : (t.instants (t.now + milliseconds) ++ [t.now + milliseconds]).foldl max t.now =
      t.now + milliseconds := by
    rw [List.foldl_append]
    refine Nat.max_eq_right (Nat.le_of_lt_succ (Agenda.foldl_max_lt ?_ ?_))
    · exact Nat.lt_succ_of_le (Nat.le_add_right _ _)
    · intro time htime
      obtain ⟨a, ha, rfl⟩ := List.mem_map.mp htime
      exact Nat.lt_succ_of_lt ((Agenda.mem_takeBefore h.inOrder).mp ha).2
  have hvisit := (h.rests_self hwaits).visit
    (t.instants (t.now + milliseconds) ++ [t.now + milliseconds])
  rw [hlast] at hvisit
  exact hvisit

/-! ### Shutting down -/

/-- A worker of a stopped timer that waits is over exactly if no task is left. -/
theorem ended_iff {t : Timer α} (h : t.Valid) (hwaits : t.Waits) (hnext : t.next ≠ 0)
    (hstopped : t.stopped = true) : t.ended = true ↔ t.agenda.tasks = [] := by
  refine ⟨fun hended => (h.ended hended).2.2, fun htasks => ?_⟩
  rcases hwaits with hno | hended | ⟨-, hcancelled, haccepting, hheap, -⟩
  · exact absurd hno hnext
  · exact hended
  · -- more might come, or there would be something in the heap
    have hnot : t.accepting = false := by
      cases hacc : t.accepting with
      | false => rfl
      | true =>
        rw [(haccepting hacc).2] at hstopped
        cases hstopped
    rw [agenda_of_not_cancelled hcancelled] at htasks
    have hperm := sorted_perm (t.heap ++ t.channel)
    rw [show sorted (t.heap ++ t.channel) = [] from htasks] at hperm
    exact absurd (List.append_eq_nil_iff.mp hperm.nil_eq.symm).1 (hheap hnot)

/-- The worker of a timer that has been stopped runs what is due before the deadline, and it is over
by then exactly if nothing else was left. -/
theorem Valid.stop_spec {t : Timer α} (h : t.Valid) (hnext : t.next ≠ 0) {deadline : Nat}
    (hnow : t.now < deadline) :
    let u := t.stop.visit (t.now :: t.instants deadline)
    let taken := t.agenda.takeBefore deadline
    u.plain = ⟨taken.1.foldl (fun time task => max time task.due) t.now, taken.2.stop,
        t.ran ++ taken.1⟩ ∧
      (u.ended = true ↔ taken.2.tasks = []) := by
  intro u taken
  have hrests : Rests t.stop ((t.instants deadline).foldl max t.now) u :=
    Valid.rests_visit (t := t.stop) (h.step .stop) (t.instants deadline)
  have htaken : t.stop.agenda.takeAll ((t.instants deadline).foldl max t.now) =
      (taken.1, taken.2.stop) :=
    Agenda.takeAll_eq_takeBefore (a := t.stop.agenda) (h.step .stop).inOrder hnow
  have hplain := hrests.plain
  rw [htaken, instants, List.foldl_map] at hplain
  refine ⟨hplain, ?_⟩
  have hagenda : u.agenda = taken.2.stop := (Plain.mk.inj hplain).2.1
  have hnext' : u.next = t.next := congrArg Agenda.next hagenda
  have hstopped : u.stopped = true := congrArg Agenda.stopped hagenda
  rw [ended_iff hrests.valid hrests.waits (by rw [hnext']; exact hnext) hstopped, hagenda]
  rfl

/-- **Shutting down.** What a timer that is shut down still runs, when it comes to an end, whether
it is complete and what is left of it, all this is what its agenda says. -/
theorem Valid.shutdown_spec {t : Timer α} (h : t.Valid) (limit : Nat) :
    let d := t.agenda.drain t.now limit
    (t.shutdown limit).1 = d.complete ∧
      (t.shutdown limit).2.plain = ⟨d.time, d.agenda, t.ran ++ d.ran⟩ := by
  intro d
  have hidle : t.agenda.isIdle = (t.next = 0 || t.stopped) := rfl
  cases hbusy : (t.next = 0 || t.stopped : Bool) with
  | true =>
    have hd : d = ⟨true, t.now, [], t.agenda.stop⟩ := by
      simp only [d, Agenda.drain, hidle, if_pos hbusy]
    rw [shutdown, if_pos hbusy, hd, List.append_nil]
    exact ⟨rfl, rfl⟩
  | false =>
    obtain ⟨hnext, hstopped⟩ : t.next ≠ 0 ∧ t.stopped = false := by simpa using hbusy
    -- a limit of zero leaves the worker no time at all
    by_cases hlimit : limit = 0
    · have hended : t.stop.ended = false := by
        cases ho : t.ended with
        | false => exact ho
        | true =>
          rw [(h.ended ho).1] at hstopped
          cases hstopped
      have hd : d = ⟨false, t.now, [], t.agenda.cancel⟩ := by
        simp only [d, Agenda.drain, hidle, hbusy, if_pos hlimit]
        rfl
      rw [shutdown, if_neg (by simp [hbusy]), hd, hlimit]
      simp only [if_pos, hended, List.append_nil]
      exact ⟨rfl, rfl⟩
    · obtain ⟨hplain, hended⟩ :=
        h.stop_spec hnext (Nat.lt_add_of_pos_right (Nat.pos_of_ne_zero hlimit))
      obtain ⟨-, hagenda, hran⟩ := Plain.mk.inj hplain
      have hd := Agenda.drain_of_busy (hidle.trans hbusy) t.now hlimit
      rw [shutdown, if_neg (by simp [hbusy])]
      simp only [if_neg hlimit, d, hd]
      -- the worker is over in time exactly if nothing is left
      by_cases hdone : (t.agenda.takeBefore (t.now + limit)).2.tasks = []
      · rw [if_pos (hended.mpr hdone), if_pos hdone, hplain, Agenda.stop, hdone]
        exact ⟨rfl, rfl⟩
      · rw [if_neg (fun ho => hdone (hended.mp ho)), if_neg hdone, ← hran]
        exact ⟨rfl, congrArg (fun a => Plain.mk (t.now + limit) a.cancel _) hagenda⟩

end Timer

end Understudy
