import Mathlib.Data.List.Induction
import Understudy.Proofs.Agenda.Ledger
import Understudy.Timer

/-!
# Understudy.Proofs.Timer.Refinement

A timer with its worker does what its agenda says.

The worker sees its tasks in two places, and one of them is out of order. Two things make up for
this. Tasks go through the channel in the order of their numbers, so that those in the heap are
older than those in the channel (`Valid.numbers`). And while a batch is under way, the channel only
gets tasks that are due no earlier than the batch began (`Valid.batch`). So the first task of the
heap that was due when the batch began is the first of all (`sorted_eq_cons`).

`Working` lists what the worker can do. All but one of its moves leave the agenda as it is, and that
one takes the first task, which is due (`Valid.plain_work`). A run of a timer is therefore a run of
its agenda in which the worker has fewer moves (`plain_run`). Each move leaves less to do
(`Working.effort_lt`), so a worker that is left alone comes to rest, and then it has run all that is
due (`rests_poll`).
-/

namespace Understudy

namespace Timer

open Agenda (place)

variable {α : Type}

/-! ### Tasks in their order -/

theorem foldl_place_perm (ts acc : List (Agenda.Task α)) :
    (ts.foldl (fun done task => place task done) acc).Perm (acc ++ ts) := by
  induction ts generalizing acc with
  | nil => simp
  | cons t ts ih =>
    rw [List.foldl_cons]
    calc List.Perm _ (place t acc ++ ts) := ih _
      List.Perm _ (t :: acc ++ ts) := (Agenda.place_perm t acc).append_right ts
      List.Perm _ (acc ++ t :: ts) := List.perm_middle.symm

theorem sorted_perm (ts : List (Agenda.Task α)) : (sorted ts).Perm ts := foldl_place_perm ts []

theorem mem_sorted {t : Agenda.Task α} {ts : List (Agenda.Task α)} : t ∈ sorted ts ↔ t ∈ ts :=
  (sorted_perm ts).mem_iff

theorem sorted_concat (ts : List (Agenda.Task α)) (t : Agenda.Task α) :
    sorted (ts ++ [t]) = place t (sorted ts) := by
  simp [sorted]

/-- Tasks in the order of their numbers are put into the order in which they run. -/
theorem pairwise_sorted {ts : List (Agenda.Task α)}
    (h : ts.Pairwise fun a b => a.number < b.number) : (sorted ts).Pairwise Agenda.Task.Before := by
  induction ts using List.reverseRecOn with
  | nil => exact List.Pairwise.nil
  | append_singleton ts t ih =>
    obtain ⟨hts, -, hlast⟩ := List.pairwise_append.mp h
    rw [sorted_concat]
    refine Agenda.pairwise_place (ih hts) ?_
    intro u hu
    exact hlast u (mem_sorted.mp hu) t (List.mem_singleton.mpr rfl)

theorem not_before_self (t : Agenda.Task α) : ¬ t.Before t := by
  unfold Agenda.Task.Before
  omega

theorem before_trans {t u v : Agenda.Task α} (h : t.Before u) (h' : u.Before v) : t.Before v := by
  unfold Agenda.Task.Before at *
  omega

theorem before_of_not_before {t u : Agenda.Task α} (h : ¬ u.Before t)
    (hnumber : t.number ≠ u.number) : t.Before u := by
  unfold Agenda.Task.Before at *
  omega

/-! ### Heaps -/

theorem first?_eq_none_iff {heap : List (Agenda.Task α)} : first? heap = none ↔ heap = [] := by
  cases heap with
  | nil => simp [first?]
  | cons t rest =>
    simp only [first?, reduceCtorEq, iff_false]
    split
    · simp
    · split <;> simp

/-- The first task of a heap is in it, and no task of the heap comes before it. -/
theorem first?_eq_some {heap : List (Agenda.Task α)} {t : Agenda.Task α}
    (h : first? heap = some t) : t ∈ heap ∧ ∀ u ∈ heap, ¬ u.Before t := by
  induction heap generalizing t with
  | nil => cases h
  | cons a rest ih =>
    rw [first?] at h
    cases hrest : first? rest with
    | none =>
      rw [hrest] at h
      obtain rfl := Option.some.inj h
      rw [first?_eq_none_iff] at hrest
      subst hrest
      exact ⟨.head _, by simpa using not_before_self a⟩
    | some b =>
      obtain ⟨hmem, hfirst⟩ := ih hrest
      rw [hrest] at h
      simp only at h
      split at h
      · rename_i hab
        obtain rfl := Option.some.inj h
        refine ⟨.head _, List.forall_mem_cons.mpr ⟨not_before_self a, ?_⟩⟩
        exact fun u hu hua => hfirst u hu (before_trans hua hab)
      · rename_i hab
        obtain rfl := Option.some.inj h
        exact ⟨.tail _ hmem, List.forall_mem_cons.mpr ⟨hab, hfirst⟩⟩

theorem without_sublist (t : Agenda.Task α) (heap : List (Agenda.Task α)) :
    (without t heap).Sublist heap := List.eraseP_sublist

/-- Taking a task out of a heap takes out just this task, if no other has its number. -/
theorem perm_without {heap : List (Agenda.Task α)} {t : Agenda.Task α} (ht : t ∈ heap)
    (h : heap.Pairwise fun a b => a.number < b.number) : heap.Perm (t :: without t heap) := by
  induction heap with
  | nil => cases ht
  | cons a rest ih =>
    obtain ⟨ha, hrest⟩ := List.pairwise_cons.mp h
    by_cases hnumber : a.number = t.number
    · -- the numbers rise, so that the task cannot be further on
      have hat : t = a := by
        rcases List.mem_cons.mp ht with hat | ht
        · exact hat
        · exact absurd hnumber (Nat.ne_of_lt (ha t ht))
      rw [without, List.eraseP_cons_of_pos (by simpa using hnumber), hat]
    · rcases List.mem_cons.mp ht with rfl | ht
      · exact absurd rfl hnumber
      · rw [without, List.eraseP_cons_of_neg (by simpa using hnumber)]
        exact ((ih ht hrest).cons a).trans (List.Perm.swap t a _)

/-- The first task of the heap is the first of all if those in the channel come after it. -/
theorem sorted_eq_cons {heap channel : List (Agenda.Task α)} {t : Agenda.Task α}
    (hfirst : first? heap = some t)
    (hnumbers : (heap ++ channel).Pairwise fun a b => a.number < b.number)
    (hdue : ∀ u ∈ channel, t.due ≤ u.due) :
    sorted (heap ++ channel) = t :: sorted (without t heap ++ channel) := by
  obtain ⟨hmem, hmin⟩ := first?_eq_some hfirst
  obtain ⟨hheap, -, hcross⟩ := List.pairwise_append.mp hnumbers
  have hperm : heap.Perm (t :: without t heap) := perm_without hmem hheap
  have hsub : (without t heap ++ channel).Sublist (heap ++ channel) :=
    (without_sublist t heap).append_right channel
  -- both sides are in order, and have the same tasks
  have hbefore : ∀ u ∈ sorted (without t heap ++ channel), t.Before u := by
    intro u hu
    rcases List.mem_append.mp (mem_sorted.mp hu) with hu | hu
    · have hne : t.number ≠ u.number := by
        have hnodup := (hperm.map (·.number)).nodup_iff.mp
          (List.pairwise_map.mpr (hheap.imp Nat.ne_of_lt))
        rw [List.map_cons, List.nodup_cons] at hnodup
        intro heq
        exact hnodup.1 (heq ▸ List.mem_map_of_mem hu)
      exact before_of_not_before (hmin u ((without_sublist t heap).subset hu)) hne
    · exact Agenda.Task.before_of_number (hdue u hu) (hcross t hmem u hu)
  have hsame : (sorted (heap ++ channel)).Perm (t :: sorted (without t heap ++ channel)) :=
    calc List.Perm _ (heap ++ channel) := sorted_perm _
      List.Perm _ (t :: without t heap ++ channel) := hperm.append_right channel
      List.Perm _ (t :: sorted (without t heap ++ channel)) := ((sorted_perm _).symm.cons t)
  refine hsame.eq_of_pairwise ?_ (pairwise_sorted hnumbers)
    (List.pairwise_cons.mpr ⟨hbefore, pairwise_sorted (hnumbers.sublist hsub)⟩)
  intro a b _ _ hab hba
  exact absurd (before_trans hab hba) (not_before_self a)

theorem ready?_eq_some_iff {t : Timer α} {time : Nat} {task : Agenda.Task α} :
    t.ready? time = some task ↔ first? t.heap = some task ∧ task.due ≤ time := by
  simp [ready?, Option.filter_eq_some_iff]

theorem ready?_eq_none_iff {t : Timer α} {time : Nat} :
    t.ready? time = none ↔ ∀ task, first? t.heap = some task → time < task.due := by
  simp [ready?, Option.filter_eq_none_iff]

section Perform

variable (task : Agenda.Task α) (t : Timer α)

@[simp] theorem channel_perform : (t.perform task).channel = t.channel := by
  unfold perform; split <;> rfl

@[simp] theorem heap_perform : (t.perform task).heap = without task t.heap := by
  unfold perform; split <;> rfl

@[simp] theorem accepting_perform : (t.perform task).accepting = t.accepting := by
  unfold perform; split <;> rfl

@[simp] theorem ended_perform : (t.perform task).ended = t.ended := by
  unfold perform; split <;> rfl

end Perform

/-! ### What the worker can do -/

/-- Whether the worker has nothing to do for now: it has not begun, or is over, or nothing is due
and more may come. -/
def Waits (t : Timer α) : Prop :=
  t.next = 0 ∨ t.ended = true ∨
    t.batch = none ∧ t.cancelled = false ∧
      (t.accepting = true → t.channel = [] ∧ t.stopped = false) ∧
      (t.accepting = false → t.heap ≠ []) ∧ t.ready? t.now = none

/-- `Working t u`: with what it does next, the worker makes `u` of the timer `t`. -/
inductive Working (t : Timer α) : Timer α → Prop
  /-- It waits. -/
  | wait : t.Waits → Working t t
  /-- It runs the next task of the batch. -/
  | perform {since : Nat} {task : Agenda.Task α} :
      t.ended = false → t.batch = some since → t.ready? since = some task →
      Working t (t.perform task)
  /-- The batch is through. -/
  | rest {since : Nat} :
      t.ended = false → t.batch = some since → t.ready? since = none →
      Working t { t with batch := none }
  /-- It gives up, or has nothing left to do. -/
  | leave :
      t.ended = false → t.batch = none →
      (t.cancelled = true ∨ t.accepting = false ∧ t.heap = []) → Working t { t with ended := true }
  /-- It receives a task. -/
  | receive {task : Agenda.Task α} {rest : List (Agenda.Task α)} :
      t.ended = false → t.batch = none → t.accepting = true → t.channel = task :: rest →
      Working t { t with heap := t.heap ++ [task], channel := rest }
  /-- It notices that no more tasks will come. -/
  | notice :
      t.ended = false → t.batch = none → t.accepting = true → t.channel = [] →
      t.stopped = true → Working t { t with accepting := false }
  /-- It begins a batch. -/
  | wake {task : Agenda.Task α} :
      t.ended = false → t.batch = none → (t.accepting = true → t.channel = []) →
      t.ready? t.now = some task → Working t { t with batch := some t.now }

/-- The worker that has nothing to receive waits, or begins a batch. -/
theorem working_wake {t : Timer α} (hended : t.ended = false) (hbatch : t.batch = none)
    (hcancelled : t.cancelled = false)
    (hchannel : t.accepting = true → t.channel = [] ∧ t.stopped = false)
    (hheap : t.accepting = false → t.heap ≠ []) : Working t t.wake := by
  rw [Timer.wake]
  split
  · rename_i task hready
    exact .wake hended hbatch (fun h => (hchannel h).1) hready
  · rename_i hready
    exact .wait (Or.inr (Or.inr ⟨hbatch, hcancelled, hchannel, hheap, hready⟩))

/-- These are all the moves of the worker. -/
theorem working (t : Timer α) : Working t t.work := by
  rw [work]
  by_cases habsent : t.next = 0 ∨ t.ended = true
  · rw [if_pos (by simpa using habsent)]
    exact .wait (habsent.imp_right Or.inl)
  · have hended : t.ended = false := by simpa using (not_or.mp habsent).2
    rw [if_neg (by simpa using habsent)]
    cases hbatch : t.batch with
    | some since =>
      cases hready : t.ready? since with
      | some task => simpa [hready] using Working.perform hended hbatch hready
      | none => simpa [hready] using Working.rest hended hbatch hready
    | none =>
      -- it leaves before it looks into the channel
      by_cases hleave : t.cancelled = true ∨ t.accepting = false ∧ t.heap = []
      · simp only
        rw [if_pos (by simpa using hleave)]
        simpa [hbatch] using Working.leave hended hbatch hleave
      · simp only
        rw [if_neg (by simpa using hleave)]
        obtain ⟨hcancelled, hheap⟩ := not_or.mp hleave
        have hcancelled : t.cancelled = false := by simpa using hcancelled
        have hheap : t.accepting = false → t.heap ≠ [] := fun h hnil => hheap ⟨h, hnil⟩
        by_cases haccepting : t.accepting = true
        · rw [if_pos haccepting]
          cases hchannel : t.channel with
          | cons task rest => simpa [hbatch] using Working.receive hended hbatch haccepting hchannel
          | nil =>
            simp only
            split
            · rename_i hstopped
              simpa [hbatch, hchannel] using
                Working.notice hended hbatch haccepting hchannel hstopped
            · rename_i hstopped
              exact working_wake hended hbatch hcancelled
                (fun _ => ⟨hchannel, by simpa using hstopped⟩) hheap
        · rw [if_neg haccepting]
          exact working_wake hended hbatch hcancelled (fun h => absurd h haccepting) hheap

/-! ### What holds of every timer -/

/-- What holds of a timer at every point of a run. -/
structure Valid (t : Timer α) : Prop where
  /-- The tasks have gone through the channel in the order of their numbers. -/
  numbers : (t.heap ++ t.channel).Pairwise fun a b => a.number < b.number
  /-- The next number is a new one. -/
  next : ∀ a ∈ t.heap ++ t.channel, a.number < t.next
  /-- What was scheduled during a batch is due no earlier than the batch began. -/
  batch : ∀ since, t.batch = some since → since ≤ t.now ∧ ∀ a ∈ t.channel, since ≤ a.due
  /-- A worker that expects nothing will get nothing. -/
  accepting : t.accepting = false → t.stopped = true ∧ t.channel = []
  cancelled : t.cancelled = true → t.stopped = true
  /-- A worker that is over has left no task behind, unless it was told to give up. -/
  ended : t.ended = true → t.stopped = true ∧ t.batch = none ∧ t.agenda.tasks = []

theorem valid_start (now : Nat) : (start now : Timer α).Valid where
  numbers := List.Pairwise.nil
  next := fun a ha => by cases ha
  batch := fun since h => by cases h
  accepting := fun h => by cases h
  cancelled := fun h => by cases h
  ended := fun h => by cases h

theorem agenda_of_not_cancelled {t : Timer α} (h : t.cancelled = false) :
    t.agenda = ⟨sorted (t.heap ++ t.channel), t.next, t.stopped⟩ := by
  rw [agenda, if_neg (by simp [h])]

theorem tasks_of_cancelled {t : Timer α} (h : t.cancelled = true) : t.agenda.tasks = [] := by
  rw [agenda, if_pos h]

/-- A task that runs is taken from the front of the agenda, unless the timer was cancelled. -/
theorem Valid.take?_of_ready {t : Timer α} (h : t.Valid) (hcancelled : t.cancelled = false)
    {since : Nat} {task : Agenda.Task α} (hbatch : t.batch = some since)
    (hready : t.ready? since = some task) :
    t.agenda.take? t.now = some (task, (t.perform task).agenda) := by
  obtain ⟨hfirst, hdue⟩ := ready?_eq_some_iff.mp hready
  obtain ⟨hsince, hchannel⟩ := h.batch since hbatch
  have hsorted := sorted_eq_cons hfirst h.numbers fun u hu => Nat.le_trans hdue (hchannel u hu)
  have hnow : task.due ≤ t.now := Nat.le_trans hdue hsince
  simp only [agenda_of_not_cancelled hcancelled, Agenda.take?, hsorted, if_pos hnow]
  rw [perform, if_neg (by simp [hcancelled]), agenda_of_not_cancelled (by exact hcancelled)]

/-- Whatever the worker does next, the timer stays valid. -/
theorem Valid.working {t u : Timer α} (h : t.Valid) (hu : Working t u) : u.Valid := by
  -- the worker only moves tasks from the channel to the heap, and drops them there
  cases hu with
  | wait => exact h
  | @perform since task hended hbatch hready =>
    have hsub := (without_sublist task t.heap).append_right t.channel
    have hnumbers := h.numbers.sublist hsub
    have hnext : ∀ a ∈ without task t.heap ++ t.channel, a.number < t.next :=
      fun a ha => h.next a (hsub.subset ha)
    rw [Timer.perform]
    split
    · exact ⟨hnumbers, hnext, h.batch, h.accepting, h.cancelled, by simp [hended]⟩
    · exact ⟨hnumbers, hnext, h.batch, h.accepting, h.cancelled, by simp [hended]⟩
  | rest hended =>
    exact ⟨h.numbers, h.next, by simp, h.accepting, h.cancelled, by simp [hended]⟩
  | leave hended hbatch hleave =>
    refine ⟨h.numbers, h.next, h.batch, h.accepting, h.cancelled, fun _ => ?_⟩
    rcases hleave with hcancelled | ⟨haccepting, hheap⟩
    · exact ⟨h.cancelled hcancelled, hbatch, tasks_of_cancelled hcancelled⟩
    · obtain ⟨hstopped, hchannel⟩ := h.accepting haccepting
      exact ⟨hstopped, hbatch, by simp [agenda, hheap, hchannel, sorted]⟩
  | @receive task rest hended hbatch haccepting hchannel =>
    have hsame : t.heap ++ [task] ++ rest = t.heap ++ t.channel := by rw [hchannel]; simp
    exact ⟨hsame ▸ h.numbers, hsame ▸ h.next, by simp [hbatch], by simp [haccepting], h.cancelled,
      by simp [hended]⟩
  | notice hended _ _ hchannel hstopped =>
    exact ⟨h.numbers, h.next, h.batch, fun _ => ⟨hstopped, hchannel⟩, h.cancelled,
      by simp [hended]⟩
  | wake hended _ hchannel =>
    have hempty : t.channel = [] := by
      cases haccepting : t.accepting with
      | true => exact hchannel haccepting
      | false => exact (h.accepting haccepting).2
    exact ⟨h.numbers, h.next, by simp [hempty], h.accepting, h.cancelled, by simp [hended]⟩

/-- A task that is accepted has the greatest number, and waits until the batch under way is
through. -/
theorem Valid.schedule {t : Timer α} (h : t.Valid) (delay : Nat) (item : α) :
    (t.schedule delay item).Valid := by
  rw [Timer.schedule]
  split
  · exact h
  · rename_i hstopped
    have happend : t.heap ++ (t.channel ++ [⟨t.now + delay, t.next, item⟩]) =
        t.heap ++ t.channel ++ [⟨t.now + delay, t.next, item⟩] := (List.append_assoc _ _ _).symm
    refine ⟨?_, ?_, ?_, fun ha => absurd (h.accepting ha).1 hstopped, h.cancelled,
      fun ho => absurd (h.ended ho).1 hstopped⟩
    · rw [happend]
      refine List.pairwise_append.mpr ⟨h.numbers, List.pairwise_singleton _ _, ?_⟩
      intro a ha b hb
      rw [List.mem_singleton.mp hb]
      exact h.next a ha
    · rw [happend]
      intro a ha
      rcases List.mem_append.mp ha with ha | ha
      · exact Nat.lt_succ_of_lt (h.next a ha)
      · rw [List.mem_singleton.mp ha]
        exact Nat.lt_succ_self _
    · -- what is scheduled in a batch is due no earlier than the batch began
      intro since hs
      obtain ⟨hsince, hchannel⟩ := h.batch since hs
      refine ⟨hsince, fun a ha => ?_⟩
      rcases List.mem_append.mp ha with ha | ha
      · exact hchannel a ha
      · rw [List.mem_singleton.mp ha]
        exact Nat.le_trans hsince (Nat.le_add_right _ _)

/-- Every move keeps a timer valid. -/
theorem Valid.step {t : Timer α} (h : t.Valid) (m : Move α) : (t.step m).Valid := by
  cases m with
  | schedule delay item => exact h.schedule delay item
  | stop =>
    exact ⟨h.numbers, h.next, h.batch, fun ha => ⟨rfl, (h.accepting ha).2⟩, fun _ => rfl,
      fun ho => ⟨rfl, (h.ended ho).2⟩⟩
  | cancel =>
    exact ⟨h.numbers, h.next, h.batch, fun ha => ⟨rfl, (h.accepting ha).2⟩, fun _ => rfl,
      fun ho => ⟨rfl, (h.ended ho).2.1, tasks_of_cancelled rfl⟩⟩
  | elapse milliseconds =>
    refine ⟨h.numbers, h.next, fun since hs => ?_, h.accepting, h.cancelled, h.ended⟩
    obtain ⟨hsince, hchannel⟩ := h.batch since hs
    exact ⟨Nat.le_trans hsince (Nat.le_add_right _ _), hchannel⟩
  | work => exact h.working (Timer.working t)

/-- A timer stays valid whatever is done with it. -/
theorem Valid.run {t : Timer α} (h : t.Valid) (moves : List (Move α)) : (t.run moves).Valid := by
  induction moves generalizing t with
  | nil => exact h
  | cons m moves ih => exact ih (h.step m)

/-! ### Timers without their workers -/

/-- A timer as its owner sees it: the time, the agenda, and what has run. -/
structure Plain (α : Type) where
  now : Nat
  agenda : Agenda α
  ran : List (Agenda.Task α)

/-- A plain timer after a move. When it is the worker's, the first task runs if it is due. -/
def Plain.step (p : Plain α) : Move α → Plain α
  | .schedule delay item => ⟨p.now, p.agenda.schedule (p.now + delay) item, p.ran⟩
  | .stop => ⟨p.now, p.agenda.stop, p.ran⟩
  | .cancel => ⟨p.now, p.agenda.cancel, p.ran⟩
  | .elapse milliseconds => ⟨p.now + milliseconds, p.agenda, p.ran⟩
  | .work =>
    match p.agenda.take? p.now with
    | some (task, rest) => ⟨p.now, rest, p.ran ++ [task]⟩
    | none => p

/-- A plain timer after some moves. -/
def Plain.run (p : Plain α) (moves : List (Move α)) : Plain α := moves.foldl Plain.step p

/-- A timer without its worker. -/
def plain (t : Timer α) : Plain α := ⟨t.now, t.agenda, t.ran⟩

/-- Whether a move is the worker's. -/
def Move.isWork : Move α → Bool
  | .work => true
  | _ => false

/-- What the worker does is not seen, or it takes the first task, which is due. -/
theorem Valid.plain_working {t u : Timer α} (h : t.Valid) (hu : Working t u) :
    u.plain = t.plain ∨
      ∃ task rest, t.agenda.take? t.now = some (task, rest) ∧
        u.plain = ⟨t.now, rest, t.ran ++ [task]⟩ := by
  cases hu with
  | @perform since task _ hbatch hready =>
    cases hcancelled : t.cancelled with
    | true =>
      refine Or.inl ?_
      rw [perform, if_pos hcancelled]
      simp [plain, agenda, hcancelled]
    | false =>
      refine Or.inr ⟨task, _, h.take?_of_ready hcancelled hbatch hready, ?_⟩
      rw [perform, if_neg (by simp [hcancelled])]
      rfl
  | @receive task rest _ _ _ hchannel =>
    have hsame : t.heap ++ [task] ++ rest = t.heap ++ t.channel := by rw [hchannel]; simp
    refine Or.inl ?_
    rw [plain, plain, agenda, agenda, ← hsame]
  | _ => exact Or.inl rfl

/-- A move of a timer is the same move of the plain timer, or one of the worker that is not seen. -/
theorem Valid.plain_step {t : Timer α} (h : t.Valid) (m : Move α) :
    (t.step m).plain = t.plain.step m ∨ m = .work ∧ (t.step m).plain = t.plain := by
  cases m with
  | schedule delay item =>
    refine Or.inl ?_
    rw [Timer.step, Timer.schedule, Plain.step, Agenda.schedule]
    cases hstopped : t.stopped with
    | true => simp [plain, agenda, hstopped]
    | false =>
      have hcancelled : t.cancelled = false := by
        cases hc : t.cancelled with
        | false => rfl
        | true => simp [h.cancelled hc] at hstopped
      simp [plain, agenda, hstopped, hcancelled, ← List.append_assoc, sorted_concat]
  | stop => exact Or.inl rfl
  | cancel => exact Or.inl rfl
  | elapse milliseconds => exact Or.inl rfl
  | work =>
    rcases h.plain_working (Timer.working t) with hsame | ⟨task, rest, htake, htaken⟩
    · exact Or.inr ⟨rfl, hsame⟩
    · refine Or.inl ?_
      rw [Timer.step, htaken, Plain.step]
      simp [plain, htake]

/-- **The worker refines the agenda.** Every run of a timer is a run of the plain timer with the
same moves of the owner, and some of the worker's. -/
theorem Valid.plain_run {t : Timer α} (h : t.Valid) (moves : List (Move α)) :
    ∃ kept, kept.Sublist moves ∧
      kept.filter (fun m => !m.isWork) = moves.filter (fun m => !m.isWork) ∧
      (t.run moves).plain = t.plain.run kept := by
  induction moves generalizing t with
  | nil => exact ⟨[], List.Sublist.refl _, rfl, rfl⟩
  | cons m moves ih =>
    obtain ⟨kept, hsub, howner, hrun⟩ := ih (h.step m)
    rcases h.plain_step m with hstep | ⟨rfl, hsame⟩
    · refine ⟨m :: kept, hsub.cons_cons m, by rw [List.filter_cons, List.filter_cons, howner], ?_⟩
      rw [Plain.run, List.foldl_cons, ← hstep]
      exact hrun
    · refine ⟨kept, hsub.cons _, by rw [howner]; rfl, ?_⟩
      rw [← hsame]
      exact hrun

/-! ### Coming to rest -/

theorem distance_le (t : Timer α) : t.distance ≤ 2 := by
  rw [distance]
  split <;> split <;> omega

theorem distance_of_batch_none {t : Timer α} (h : t.batch = none) : t.distance ≤ 1 := by
  rw [distance, h]
  simp only
  split <;> omega

theorem length_without {heap : List (Agenda.Task α)} {task : Agenda.Task α} (h : task ∈ heap) :
    (without task heap).length + 1 = heap.length := by
  rw [without, List.length_eraseP_of_mem h (by simp)]
  exact Nat.sub_add_cancel (List.length_pos_of_mem h)

/-- Whatever the worker does, it has less to do afterwards. -/
theorem Working.effort_lt {t u : Timer α} (h : Working t u) :
    u = t ∧ t.Waits ∨ u.effort < t.effort := by
  cases h with
  | wait hwaits => exact Or.inl ⟨rfl, hwaits⟩
  | @perform since task _ hbatch hready =>
    have hlength := length_without (first?_eq_some (ready?_eq_some_iff.mp hready).1).1
    have hdistance := (t.perform task).distance_le
    refine Or.inr ?_
    simp only [effort, channel_perform, heap_perform, accepting_perform, ended_perform]
    omega
  | rest _ hbatch hready =>
    have hbefore : t.distance = 2 := by simp [distance, hbatch, hready]
    have hafter := distance_of_batch_none (t := { t with batch := none }) rfl
    refine Or.inr ?_
    simp only [effort]
    omega
  | leave hended =>
    refine Or.inr ?_
    simp [effort, distance, ready?, hended]
  | @receive task rest _ hbatch _ hchannel =>
    have hafter := distance_of_batch_none
      (t := { t with heap := t.heap ++ [task], channel := rest }) hbatch
    refine Or.inr ?_
    simp only [effort, hchannel, List.length_append, List.length_cons, List.length_nil]
    omega
  | notice _ _ haccepting =>
    refine Or.inr ?_
    simp [effort, distance, ready?, haccepting]
  | @wake task _ hbatch _ hready =>
    have hbefore : t.distance = 1 := by simp [distance, hbatch, hready]
    have hafter : ({ t with batch := some t.now } : Timer α).distance = 0 := by
      have hsame : ({ t with batch := some t.now } : Timer α).ready? t.now = some task := hready
      simp [distance, hsame]
    refine Or.inr ?_
    simp only [effort, hafter]
    omega

/-- A timer that has given out no number has no tasks. -/
theorem Valid.tasks_of_next_zero {t : Timer α} (h : t.Valid) (hnext : t.next = 0) :
    t.agenda.tasks = [] := by
  have hempty : t.heap ++ t.channel = [] := by
    rw [List.eq_nil_iff_forall_not_mem]
    intro a ha
    exact absurd (h.next a ha) (by omega)
  simp [agenda, hempty, sorted]

/-- A worker that has nothing to do has nothing that it could run. -/
theorem Valid.take?_of_waits {t : Timer α} (h : t.Valid) (hwaits : t.Waits) :
    t.agenda.take? t.now = none := by
  have hnone (htasks : t.agenda.tasks = []) : t.agenda.take? t.now = none := by
    rw [Agenda.take?, htasks]
  rcases hwaits with hnext | hended | ⟨-, hcancelled, hchannel, -, hready⟩
  · exact hnone (h.tasks_of_next_zero hnext)
  · exact hnone (h.ended hended).2.2
  · have hempty : t.channel = [] := by
      cases haccepting : t.accepting with
      | true => exact (hchannel haccepting).1
      | false => exact (h.accepting haccepting).2
    rw [agenda_of_not_cancelled hcancelled]
    cases hfirst : first? t.heap with
    | none =>
      rw [first?_eq_none_iff] at hfirst
      simp [Agenda.take?, hfirst, hempty, sorted]
    | some task =>
      -- the first task of the heap is the first of all, and it is not due yet
      have hlate : t.now < task.due := ready?_eq_none_iff.mp hready task hfirst
      have hsorted := sorted_eq_cons hfirst h.numbers (by simp [hempty])
      simp [Agenda.take?, hsorted, hlate]

theorem takeAll_of_take?_none {now : Nat} {a : Agenda α} (h : a.take? now = none) :
    a.takeAll now = ([], a) := by
  obtain ⟨tasks, next, stopped⟩ := a
  cases tasks with
  | nil => rfl
  | cons t rest =>
    have hlate : ¬ t.due ≤ now := by simpa [Agenda.take?] using h
    simp [Agenda.takeAll, hlate]

theorem takeAll_of_take?_some {now : Nat} {a rest : Agenda α} {task : Agenda.Task α}
    (h : a.take? now = some (task, rest)) :
    a.takeAll now = (task :: (rest.takeAll now).1, (rest.takeAll now).2) := by
  obtain ⟨tasks, next, stopped⟩ := a
  cases tasks with
  | nil => cases h
  | cons t ts =>
    obtain ⟨hdue, rfl, rfl⟩ : t.due ≤ now ∧ t = task ∧ ⟨ts, next, stopped⟩ = rest := by
      simpa [Agenda.take?] using h
    simp [Agenda.takeAll, hdue]

theorem works_of_work_eq {t : Timer α} (h : t.work = t) (n : Nat) : t.works n = t := by
  induction n with
  | zero => rfl
  | succ n ih => rw [works, h, ih]

/-- `Rests t time u`: it is `time` in `u`, and there the worker has run what was due until then in
`t`, in order, and nothing else. -/
structure Rests (t : Timer α) (time : Nat) (u : Timer α) : Prop where
  valid : u.Valid
  waits : u.Waits
  plain : u.plain = ⟨time, (t.agenda.takeAll time).2, t.ran ++ (t.agenda.takeAll time).1⟩

theorem Valid.rests_self {t : Timer α} (h : t.Valid) (hwaits : t.Waits) : Rests t t.now t where
  valid := h
  waits := hwaits
  plain := by rw [takeAll_of_take?_none (h.take?_of_waits hwaits), Timer.plain, List.append_nil]

/-- If the worker has run all that is due after its next move, then so it has from now on. -/
theorem Valid.rests_of_work {t u : Timer α} (h : t.Valid) (hu : Rests t.work t.work.now u) :
    Rests t t.now u where
  valid := hu.valid
  waits := hu.waits
  plain := by
    rw [hu.plain]
    rcases h.plain_working (Timer.working t) with hsame | ⟨task, rest, htake, htaken⟩
    · obtain ⟨hnow, hagenda, hran⟩ := Plain.mk.inj hsame
      rw [hnow, hagenda, hran]
    · obtain ⟨hnow, hagenda, hran⟩ := Plain.mk.inj htaken
      rw [hnow, hagenda, hran, takeAll_of_take?_some htake, List.append_assoc]
      rfl

/-- Enough of the worker's moves run all that is due, and nothing else. -/
theorem Valid.rests_works {t : Timer α} (h : t.Valid) {n : Nat} (hn : t.effort ≤ n) :
    Rests t t.now (t.works n) := by
  -- on the moves: each of them leaves less to do, so there are enough
  induction n generalizing t with
  | zero =>
    rcases (Timer.working t).effort_lt with ⟨-, hwaits⟩ | hless
    · exact h.rests_self hwaits
    · omega
  | succ n ih =>
    rcases (Timer.working t).effort_lt with ⟨hsame, hwaits⟩ | hless
    · rw [works_of_work_eq hsame]
      exact h.rests_self hwaits
    · exact h.rests_of_work (ih (h.working (Timer.working t)) (by omega))

/-- **A worker that is left alone comes to rest.** Then it has run all that is due, in order. -/
theorem Valid.rests_poll {t : Timer α} (h : t.Valid) : Rests t t.now t.poll :=
  h.rests_works (Nat.le_refl _)

end Timer

end Understudy
