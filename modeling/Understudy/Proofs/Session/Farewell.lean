import Understudy.Proofs.Session.Draining

/-!
# Understudy.Proofs.Session.Farewell

Sessions without triggers, from the first frame to the last.

A script without replies leaves nothing to wait for: its session is draining as soon as it opens,
and sends what is `remaining` then (`course_opened`). Here this is computed from the script. The
agenda has sorted the messages by their delays, and kept those with the same delay in the order of
the script (`map_item_plan`). Of the sorted messages those are sent that are due before the close
timeout is over, up to the first that has a closing code (`Scheduled.remaining_code`). If none has
one, a farewell comes after the last (`Scheduled.remaining_no_code`). `graceful_close` puts this
together.
-/

namespace Understudy

namespace Session

open Agenda (Ledger)

/-! ### The agenda of a script -/

/-- Whether a message does not wait for longer than another. -/
def noLater (m n : Message) : Bool := m.delay ≤ n.delay

theorem noLater_trans (l m n : Message) (hlm : noLater l m = true) (hmn : noLater m n = true) :
    noLater l n = true :=
  decide_eq_true (Nat.le_trans (of_decide_eq_true hlm) (of_decide_eq_true hmn))

theorem noLater_total (m n : Message) : (noLater m n || noLater n m) = true := by
  simpa [noLater] using Nat.le_total m.delay n.delay

/-- Messages that are accepted at one time are numbered as they are listed. -/
theorem tasks_map_mk (now : Nat) (ms : List Message) :
    tasks (ms.map (Entry.mk now)) =
      ms.zipIdx.map fun p => ⟨now + p.1.delay, p.2, p.1⟩ := by
  rw [tasks, List.mapIdx_eq_zipIdx_map, List.zipIdx_map, List.map_map]
  rfl

theorem ledger_plan_empty (now : Nat) (ms : List Message) :
    Ledger now (ms.zipIdx.map fun p => ⟨now + p.1.delay, p.2, p.1⟩) []
      (plan now ms .empty).tasks := by
  have hnil : Ledger now (tasks []) [] (Agenda.empty : Agenda Message).tasks :=
    Agenda.ledger_nil now
  have hledger := (ledger_plan rfl rfl hnil ms).2
  rw [List.nil_append, tasks_map_mk] at hledger
  exact hledger

/-- A task of the script is due after its delay, and has the place of its message as its number. -/
theorem mem_plan {now : Nat} {ms : List Message} {t : Agenda.Task Message}
    (ht : t ∈ (plan now ms .empty).tasks) :
    t.due = now + t.item.delay ∧ ms[t.number]? = some t.item := by
  have hmem := (ledger_plan_empty now ms).perm.mem_iff.mp ht
  obtain ⟨⟨m, k⟩, hmk, rfl⟩ := List.mem_map.mp hmem
  exact ⟨rfl, List.mk_mem_zipIdx_iff_getElem?.mp hmk⟩

/-- Tasks of one time run in the order in which a stable sort by delays puts their messages. -/
theorem zipIdxLE_of_before {now : Nat} {t u : Agenda.Task Message} (h : t.Before u)
    (ht : t.due = now + t.item.delay) (hu : u.due = now + u.item.delay) :
    List.zipIdxLE noLater (t.item, t.number) (u.item, u.number) = true := by
  have hle : t.item.delay ≤ u.item.delay := by
    have hdue := h.due_le
    omega
  rcases h with hlt | ⟨-, hnumber⟩
  · have hnot : ¬ u.item.delay ≤ t.item.delay := by omega
    simp [List.zipIdxLE, noLater, hle, hnot]
  · simp [List.zipIdxLE, noLater, hle, Nat.le_of_lt hnumber]

/-- Neither of two numbered messages goes after the other only if they have one number. -/
theorem number_eq_of_zipIdxLE {p q : Message × Nat} (hpq : List.zipIdxLE noLater p q = true)
    (hqp : List.zipIdxLE noLater q p = true) : p.2 = q.2 := by
  rw [List.zipIdxLE] at hpq hqp
  by_cases hle : noLater p.1 q.1 = true
  · by_cases hge : noLater q.1 p.1 = true
    · rw [if_pos hle, if_pos hge, decide_eq_true_eq] at hpq
      rw [if_pos hge, if_pos hle, decide_eq_true_eq] at hqp
      exact Nat.le_antisymm hpq hqp
    · rw [if_neg hge] at hqp
      cases hqp
  · rw [if_neg hle] at hpq
    cases hpq

/-- An agenda runs messages that it accepted at one time in the order of their delays, and those
with the same delay in the order in which they are listed. -/
theorem map_item_plan (now : Nat) (ms : List Message) :
    (plan now ms .empty).tasks.map (·.item) = ms.mergeSort noLater := by
  let numbered (t : Agenda.Task Message) : Message × Nat := (t.item, t.number)
  have hledger := ledger_plan_empty now ms
  have hperm : ((plan now ms .empty).tasks.map numbered).Perm ms.zipIdx := by
    have h := hledger.perm.map numbered
    rw [List.map_map] at h
    simpa [numbered, Function.comp_def] using h
  have hplan : ((plan now ms .empty).tasks.map numbered).Pairwise
      (fun p q => List.zipIdxLE noLater p q = true) := by
    rw [List.pairwise_map]
    refine hledger.order.imp_of_mem ?_
    intro t u ht hu hbefore
    exact zipIdxLE_of_before hbefore (mem_plan ht).1 (mem_plan hu).1
  have hsort := List.pairwise_mergeSort (List.zipIdxLE_trans noLater_trans)
    (List.zipIdxLE_total noLater_total) ms.zipIdx
  -- two sorted lists of the same numbered messages are the same, since the numbers tell them apart
  have heq : (plan now ms .empty).tasks.map numbered =
      ms.zipIdx.mergeSort (List.zipIdxLE noLater) := by
    refine List.Perm.eq_of_pairwise ?_ hplan hsort
      (hperm.trans (List.mergeSort_perm _ _).symm)
    rintro ⟨m, i⟩ ⟨n, k⟩ hp hq hpq hqp
    have hm := List.mk_mem_zipIdx_iff_getElem?.mp (hperm.mem_iff.mp hp)
    have hn := List.mk_mem_zipIdx_iff_getElem?.mp ((List.mergeSort_perm _ _).mem_iff.mp hq)
    obtain rfl : i = k := number_eq_of_zipIdxLE hpq hqp
    rw [hm, Option.some_inj] at hn
    rw [hn]
  calc (plan now ms .empty).tasks.map (·.item)
      = ((plan now ms .empty).tasks.map numbered).map (·.1) := by rw [List.map_map]; rfl
    _ = (ms.zipIdx.mergeSort (List.zipIdxLE noLater)).map (·.1) := by rw [heq]
    _ = ms.mergeSort noLater := List.mergeSort_zipIdx

/-! ### What remains of a script -/

/-- What is sent for a message that was accepted at a time. -/
def sentAt (time : Nat) (m : Message) : Sent := ⟨time + m.delay, .ofPayload m.payload⟩

/-- Tasks that were accepted at one time, in the order of their delays. -/
structure Scheduled (begun : Nat) (ts : List (Agenda.Task Message)) : Prop where
  due : ∀ t ∈ ts, t.due = begun + t.item.delay
  order : (ts.map (·.item)).Pairwise fun m n => m.delay ≤ n.delay

section Scheduled

variable {begun timeout : Nat} {t : Agenda.Task Message} {ts : List (Agenda.Task Message)}

theorem Scheduled.tail (h : Scheduled begun (t :: ts)) : Scheduled begun ts where
  due := fun u hu => h.due u (.tail t hu)
  order := (List.pairwise_cons.mp h.order).2

theorem Scheduled.delay_le (h : Scheduled begun (t :: ts)) :
    ∀ m ∈ ts.map (·.item), t.item.delay ≤ m.delay :=
  (List.pairwise_cons.mp h.order).1

theorem Scheduled.taskSent_eq (h : Scheduled begun (t :: ts)) :
    taskSent t = sentAt begun t.item := by
  rw [taskSent, sentAt, h.due t (.head ts)]

theorem Scheduled.due_lt (h : Scheduled begun (t :: ts)) (hearly : t.item.delay < timeout) :
    t.due < begun + timeout := by
  rw [h.due t (.head ts)]
  exact Nat.add_lt_add_left hearly begun

/-- From the first message that is too late on, all are. -/
theorem Scheduled.filter_of_late (h : Scheduled begun (t :: ts)) (hlate : timeout ≤ t.item.delay) :
    ((t :: ts).map (·.item)).filter (·.delay < timeout) = [] := by
  rw [List.filter_eq_nil_iff, List.map_cons]
  intro m hm
  rcases List.mem_cons.mp hm with rfl | hm
  · simpa using hlate
  · simpa using Nat.le_trans hlate (h.delay_le m hm)

theorem filter_of_early (hearly : t.item.delay < timeout) :
    ((t :: ts).map (·.item)).filter (·.delay < timeout) =
      t.item :: (ts.map (·.item)).filter (·.delay < timeout) := by
  rw [List.map_cons, List.filter_cons_of_pos (by simpa using hearly)]

/-- The first message in time that has a closing code is the last, and its close follows it. -/
theorem Scheduled.remaining_code (h : Scheduled begun ts) {pre post : List Message} {m : Message}
    {code : UInt16} (hkept : (ts.map (·.item)).filter (·.delay < timeout) = pre ++ m :: post)
    (hpre : ∀ p ∈ pre, p.closingCode = none) (hcode : m.closingCode = some code) (now : Nat) :
    remaining (begun + timeout) ts now =
      (pre ++ [m]).map (sentAt begun) ++ [⟨begun + m.delay, .close code ""⟩] := by
  induction ts generalizing pre now with
  | nil => simp at hkept
  | cons t ts ih =>
    have hdue : t.due = begun + t.item.delay := h.due t (.head ts)
    by_cases hlate : timeout ≤ t.item.delay
    · -- nothing is left in time, so there is no first message with a code
      rw [h.filter_of_late hlate] at hkept
      simp at hkept
    · have hearly : t.item.delay < timeout := Nat.lt_of_not_le hlate
      have hlt : t.due < begun + timeout := h.due_lt hearly
      rw [filter_of_early hearly] at hkept
      -- the code is that of this message, or it comes later
      cases pre with
      | nil =>
        obtain ⟨rfl, -⟩ := List.cons.inj hkept
        rw [remaining_of_code hlt hcode, h.taskSent_eq, hdue]
        rfl
      | cons p pre =>
        rw [List.cons_append] at hkept
        obtain ⟨rfl, hrest⟩ := List.cons.inj hkept
        obtain ⟨hnone, hpre⟩ := List.forall_mem_cons.mp hpre
        rw [remaining_of_no_code hlt hnone, h.taskSent_eq, ih h.tail hrest hpre]
        rfl

/-- Without closing codes all messages in time are sent, and a farewell follows the last of them. -/
theorem Scheduled.remaining_no_code (h : Scheduled begun ts)
    (hcode : ∀ m ∈ (ts.map (·.item)).filter (·.delay < timeout), m.closingCode = none)
    {elapsed : Nat} (helapsed : ∀ m ∈ ts.map (·.item), elapsed ≤ m.delay) :
    remaining (begun + timeout) ts (begun + elapsed) =
      ((ts.map (·.item)).filter (·.delay < timeout)).map (sentAt begun) ++
        [farewell (begun + if ∀ m ∈ ts.map (·.item), m.delay < timeout then
          ((ts.map (·.item)).map (·.delay)).foldl max elapsed else timeout)] := by
  -- the delay of each message is the time that has elapsed when the next one is looked at
  induction ts generalizing elapsed with
  | nil => simp [remaining]
  | cons t ts ih =>
    have hdue : t.due = begun + t.item.delay := h.due t (.head ts)
    by_cases hlate : timeout ≤ t.item.delay
    · have hnot : ¬ ∀ m ∈ (t :: ts).map (·.item), m.delay < timeout := by
        intro hall
        exact Nat.not_lt.mpr hlate (hall t.item (.head _))
      rw [h.filter_of_late hlate, if_neg hnot, remaining_of_late]
      · rfl
      · rw [hdue]
        exact Nat.add_le_add_left hlate begun
    · have hearly : t.item.delay < timeout := Nat.lt_of_not_le hlate
      have hlt : t.due < begun + timeout := h.due_lt hearly
      rw [filter_of_early hearly] at hcode ⊢
      obtain ⟨hnone, hcode⟩ := List.forall_mem_cons.mp hcode
      have hmax : max elapsed t.item.delay = t.item.delay :=
        Nat.max_eq_right (helapsed t.item (.head _))
      rw [remaining_of_no_code hlt hnone, hdue, ih h.tail hcode h.delay_le, h.taskSent_eq]
      simp only [List.map_cons, List.forall_mem_cons, hearly, true_and, List.foldl_cons, hmax]
      rfl

end Scheduled

theorem scheduled_plan (now : Nat) (ms : List Message) :
    Scheduled now (plan now ms .empty).tasks where
  due := fun t ht => (mem_plan ht).1
  order := by
    rw [map_item_plan]
    refine (List.pairwise_mergeSort noLater_trans noLater_total ms).imp ?_
    intro m n hmn
    exact of_decide_eq_true hmn

/-- A script without closing codes is sent but for what is too late, and a farewell comes after the
last message, or when the timeout is over. -/
theorem remaining_plan {timeout : Nat} {ms : List Message}
    (hcode : ∀ m ∈ (ms.mergeSort noLater).filter (·.delay < timeout), m.closingCode = none)
    (now : Nat) :
    remaining (now + timeout) (plan now ms .empty).tasks now =
      ((ms.mergeSort noLater).filter (·.delay < timeout)).map (sentAt now) ++
        [farewell (now + if ∀ m ∈ ms, m.delay < timeout then (ms.map (·.delay)).foldl max 0
          else timeout)] := by
  have hperm : (ms.mergeSort noLater).Perm ms := List.mergeSort_perm ms noLater
  have hall : (∀ m ∈ ms.mergeSort noLater, m.delay < timeout) ↔ ∀ m ∈ ms, m.delay < timeout := by
    simp only [hperm.mem_iff]
  -- the largest delay does not depend on the order
  have hmax : ((ms.mergeSort noLater).map (·.delay)).foldl max 0 =
      (ms.map (·.delay)).foldl max 0 := by
    refine (hperm.map (·.delay)).foldl_eq' ?_ 0
    intro m _ n _ z
    exact Nat.max_right_comm z m n
  have hremaining := (scheduled_plan now ms).remaining_no_code
    (by rw [map_item_plan]; exact hcode) (fun m _ => Nat.zero_le m.delay)
  rw [map_item_plan, hmax] at hremaining
  simp only [hall] at hremaining
  exact hremaining

/-! ### The whole conversation -/

/-- A session without triggers is closing as soon as it opens. -/
theorem Sound.step_opened_of_no_replies {s : Session} (hs : s.Sound) (hp : s.phase = .pending)
    (hf : s.script.failure = none) (hr : s.script.replies = []) :
    s.step .opened =
      { s with
        phase := .closing
        deadline := s.now + s.closeTimeout
        agenda := (plan s.now (s.script.opening ++ s.script.timed) s.agenda).stop
        events := s.events ++ [.opened] } := by
  rw [Session.step, onOpen, if_pos hp]
  simp only [count, hf]
  rw [foldl_schedule, closeIfFinished, if_pos ⟨rfl, hs.replies_eq_nil_iff.mpr hr⟩]

/-- A session without triggers begins a course that sends what remains of its script. -/
theorem course_opened {script : Script} {closeTimeout : Nat} (hr : script.replies = [])
    (hf : script.failure = none)
    (hapart : ∀ m ∈ script.opening ++ script.timed, m.delay ≠ closeTimeout) (now : Nat) :
    ((start script closeTimeout now).step .opened).Course
      (remaining (now + closeTimeout)
        (plan now (script.opening ++ script.timed) .empty).tasks now) now closeTimeout := by
  have hstart : (start script closeTimeout now).Sound := sound_start script closeTimeout now
  have hs : ((start script closeTimeout now).step .opened).Sound := hstart.step .opened
  have hledger := ledger_plan_empty now (script.opening ++ script.timed)
  rw [hstart.step_opened_of_no_replies rfl hf hr] at hs ⊢
  refine ⟨hs, ?_, by simp [start], Or.inr ?_⟩
  · rw [outlook_of_closing rfl]
    rfl
  · refine ⟨rfl, rfl, rfl, Nat.le_add_right _ _, ?_, ?_, ?_, ?_⟩
    · intro t ht
      exact (mem_plan ht).1
    · intro t ht
      exact hapart t.item (List.mem_of_getElem? (mem_plan ht).2)
    · exact hledger.order
    · exact hledger.future

/-- Left alone after it has opened, a session without triggers has sent at each time what remained
of its script up to then, and it has closed by the time at which its timeout is over. -/
theorem sent_advances {script : Script} {closeTimeout : Nat} (hr : script.replies = [])
    (hf : script.failure = none)
    (hapart : ∀ m ∈ script.opening ++ script.timed, m.delay ≠ closeTimeout) (now : Nat)
    (spans : List Nat) :
    let total := remaining (now + closeTimeout)
      (plan now (script.opening ++ script.timed) .empty).tasks now
    let s := spans.foldl (fun s milliseconds => s.advance milliseconds)
      ((start script closeTimeout now).step .opened).settle
    let time := spans.foldl (· + ·) now
    s.sent = total.filter (·.time ≤ time) ∧
      (now + closeTimeout ≤ time → s.phase = .closed ∧ s.sent = total) := by
  intro total s time
  obtain ⟨hcourse, hdue⟩ := (course_opened hr hf hapart now).settle
  have hbegun : ((start script closeTimeout now).step .opened).settle.now = now := by
    rw [now_settle, (sound_start script closeTimeout now).step_opened_of_no_replies rfl hf hr]
    rfl
  obtain ⟨hends, hdue', hnow⟩ := hcourse.advances hdue spans
  rw [hbegun] at hnow
  have htime : s.now = time := hnow
  rw [← htime]
  exact ⟨hends.sent_eq hdue', fun hover => hends.over hdue' hover⟩

/-- **Graceful close.** A session without triggers, whose script does not fail, and none of whose
messages waits for exactly its close timeout, is left alone after it has opened. Let `kept` be the
messages that wait for less than the timeout, sorted by their delays, those with the same delay in
the order of the script. Then there is a list `total` of all that is ever sent:

* if a message of `kept` has a closing code, `total` is `kept` up to the first such message, each at
  its time, and a close with this code at the time of that message;
* otherwise it is all of `kept` and a close in good order, at the time of the last message of the
  script if none is late, and when the timeout is over if one is;
* at each time the session has sent just what `total` has up to then, and it has closed by the time
  at which the timeout is over. -/
theorem graceful_close (script : Script) (closeTimeout now : Nat) (hr : script.replies = [])
    (hf : script.failure = none)
    (hapart : ∀ m ∈ script.opening ++ script.timed, m.delay ≠ closeTimeout) :
    let messages := script.opening ++ script.timed
    let kept := (messages.mergeSort noLater).filter (·.delay < closeTimeout)
    let opened := ((start script closeTimeout now).step .opened).settle
    ∃ total : List Sent,
      (∀ pre m post code, kept = pre ++ m :: post → (∀ p ∈ pre, p.closingCode = none) →
        m.closingCode = some code →
        total = (pre ++ [m]).map (sentAt now) ++ [⟨now + m.delay, .close code ""⟩]) ∧
      ((∀ m ∈ kept, m.closingCode = none) →
        total = kept.map (sentAt now) ++
          [⟨now + if ∀ m ∈ messages, m.delay < closeTimeout then
            (messages.map (·.delay)).foldl max 0 else closeTimeout, .close 1000 "Closing..."⟩]) ∧
      ∀ spans : List Nat,
        let s := spans.foldl (fun s milliseconds => s.advance milliseconds) opened
        let time := spans.foldl (· + ·) now
        s.sent = total.filter (·.time ≤ time) ∧
          (now + closeTimeout ≤ time → s.phase = .closed ∧ s.sent = total) := by
  intro messages kept opened
  refine ⟨remaining (now + closeTimeout) (plan now messages .empty).tasks now, ?_, ?_, ?_⟩
  · intro pre m post code hkept hpre hcode
    simp only [kept] at hkept
    rw [← map_item_plan now] at hkept
    exact (scheduled_plan now messages).remaining_code hkept hpre hcode now
  · intro hcode
    exact remaining_plan hcode now
  · exact sent_advances hr hf hapart now

/-- Two messages are sent at one time in the order of the script, and a third is too late. -/
theorem graceful_close_late :
    let message (text : String) (delay : Nat) : Message := ⟨.text text, delay, true, none⟩
    let script : Script :=
      ⟨[message "a" 10, message "b" 0], [message "c" 10, message "d" 3000], [], none⟩
    let opened := ((start script 2000 100).step .opened).settle
    (∀ m ∈ script.opening ++ script.timed, m.delay ≠ 2000) ∧
      ∀ spans : List Nat, 2100 ≤ spans.foldl (· + ·) 100 →
        (spans.foldl (fun s milliseconds => s.advance milliseconds) opened).sent =
          [⟨100, .text "b"⟩, ⟨110, .text "a"⟩, ⟨110, .text "c"⟩,
            ⟨2100, .close 1000 "Closing..."⟩] := by
  intro message script opened
  have hapart : ∀ m ∈ script.opening ++ script.timed, m.delay ≠ 2000 := by decide
  have hkept : ((script.opening ++ script.timed).mergeSort noLater).filter (·.delay < 2000) =
      [message "b" 0, message "a" 10, message "c" 10] := by
    -- the agenda computes, while the sorting of lists does not
    rw [← map_item_plan 0]
    decide
  obtain ⟨total, -, htotal, hspans⟩ := graceful_close script 2000 100 rfl rfl hapart
  rw [hkept] at htotal
  have hclosed := htotal (by decide)
  refine ⟨hapart, ?_⟩
  intro spans hover
  rw [((hspans spans).2 hover).2, hclosed]
  decide

end Session

end Understudy
