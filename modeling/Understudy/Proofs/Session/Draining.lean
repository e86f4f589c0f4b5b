import Understudy.Proofs.Session.Clock
import Understudy.Proofs.Session.Delivery

/-!
# Understudy.Proofs.Session.Draining

What a closing session sends when it is left alone.

A closing session accepts nothing more, so all that it will send is on its agenda: `remaining` reads
it off the tasks that wait. A session keeps its `Course` if what it has sent and what it will send
are together always the same. A message that is sent moves from one to the other (`Course.emit`),
and time that passes no further than to the next task changes neither (`Course.setTime`). The clock
does nothing else, so that a session under the clock has sent, at any time, all of its course up to
that time (`Course.sent_eq`), and has closed by its deadline (`Course.over`).
-/

namespace Understudy

namespace Session

/-! ### What is still to come -/

/-- The close of a session that has nothing left to send. -/
def farewell (time : Nat) : Sent := ⟨time, .close normalClosure closingReason⟩

/-- What is sent for the tasks of a closing session from a time on: each message when it is due, up
to the first that closes the session or is due too late. -/
def remaining (deadline : Nat) : List (Agenda.Task Message) → Nat → List Sent
  | [], now => [farewell now]
  | t :: ts, _ =>
    if t.due < deadline then
      match t.item.closingCode with
      | some code => [taskSent t, ⟨t.due, .close code ""⟩]
      | none => taskSent t :: remaining deadline ts t.due
    else [farewell deadline]

/-- What a session will send if it is left alone, provided that it is closing or closed. -/
def outlook (s : Session) : List Sent :=
  if s.phase = .closing then remaining s.deadline s.agenda.tasks s.now else []

/-- While tasks wait, it does not matter from when on they are looked at. -/
theorem remaining_now {deadline : Nat} {ts : List (Agenda.Task Message)} (h : ts ≠ [])
    (now time : Nat) : remaining deadline ts now = remaining deadline ts time := by
  cases ts with
  | nil => exact absurd rfl h
  | cons t ts => rfl

theorem remaining_of_late {deadline : Nat} {t : Agenda.Task Message}
    {ts : List (Agenda.Task Message)} (h : deadline ≤ t.due) (now : Nat) :
    remaining deadline (t :: ts) now = [farewell deadline] := by
  rw [remaining, if_neg (Nat.not_lt.mpr h)]

theorem remaining_of_code {deadline : Nat} {t : Agenda.Task Message}
    {ts : List (Agenda.Task Message)} {code : UInt16} (h : t.due < deadline)
    (hcode : t.item.closingCode = some code) (now : Nat) :
    remaining deadline (t :: ts) now = [taskSent t, ⟨t.due, .close code ""⟩] := by
  rw [remaining, if_pos h]
  simp only [hcode]

theorem remaining_of_no_code {deadline : Nat} {t : Agenda.Task Message}
    {ts : List (Agenda.Task Message)} (h : t.due < deadline)
    (hcode : t.item.closingCode = none) (now : Nat) :
    remaining deadline (t :: ts) now = taskSent t :: remaining deadline ts t.due := by
  rw [remaining, if_pos h]
  simp only [hcode]

/-- What is still to come does not come before any of the tasks is due. -/
theorem le_time_remaining {deadline time : Nat} {ts : List (Agenda.Task Message)} {now : Nat}
    (hnow : time ≤ now) (hdeadline : time ≤ deadline) (hdue : ∀ t ∈ ts, time ≤ t.due) :
    ∀ f ∈ remaining deadline ts now, time ≤ f.time := by
  induction ts generalizing now with
  | nil => simpa [remaining, farewell] using hnow
  | cons t ts ih =>
    have ht : time ≤ t.due := hdue t (.head ts)
    have hrest : ∀ f ∈ remaining deadline ts t.due, time ≤ f.time := by
      refine ih ht ?_
      intro u hu
      exact hdue u (.tail t hu)
    by_cases hlate : deadline ≤ t.due
    · rw [remaining_of_late hlate]
      simpa [farewell] using hdeadline
    · have hlt : t.due < deadline := Nat.lt_of_not_le hlate
      cases hcode : t.item.closingCode with
      | some code =>
        rw [remaining_of_code hlt hcode]
        simpa [taskSent] using ht
      | none =>
        rw [remaining_of_no_code hlt hcode]
        exact List.forall_mem_cons.mpr ⟨ht, hrest⟩

/-! ### Draining sessions -/

/-- A closing session that has not missed anything. It accepted all its messages at one time, and
none of them is due exactly when its close timeout is over. -/
structure Draining (begun timeout : Nat) (s : Session) : Prop where
  closing : s.phase = .closing
  limit : s.closeTimeout = timeout
  deadline : s.deadline = begun + timeout
  inTime : s.now ≤ s.deadline
  due : ∀ t ∈ s.agenda.tasks, t.due = begun + t.item.delay
  apart : ∀ t ∈ s.agenda.tasks, t.item.delay ≠ timeout
  order : s.agenda.tasks.Pairwise Agenda.Task.Before
  future : ∀ t ∈ s.agenda.tasks, s.now ≤ t.due

/-- A task that is due comes before the deadline, and the session waits for it. -/
theorem Draining.awaited {begun timeout : Nat} {s : Session} (h : s.Draining begun timeout)
    {t : Agenda.Task Message} (ht : t ∈ s.agenda.tasks) (hdue : t.due ≤ s.now) :
    t.due = s.now ∧ t.due < s.deadline ∧ s.isAwaited t.item = true := by
  have hnow : t.due = s.now := Nat.le_antisymm hdue (h.future t ht)
  have hdelay : t.item.delay < timeout := by
    have hle := h.inTime
    rw [← hnow, h.due t ht, h.deadline] at hle
    exact Nat.lt_of_le_of_ne (Nat.le_of_add_le_add_left hle) (h.apart t ht)
  refine ⟨hnow, ?_, by simp [isAwaited, h.limit, hdelay]⟩
  rw [h.due t ht, h.deadline]
  exact Nat.add_lt_add_left hdelay begun

/-- Sending a task leaves the rest to be drained. -/
theorem Draining.afterSending {begun timeout : Nat} {s : Session} (h : s.Draining begun timeout)
    {task : Agenda.Task Message} {rest : Agenda Message}
    (htasks : s.agenda.tasks = task :: rest.tasks) :
    (s.afterSending task rest).Draining begun timeout := by
  have hsub {t : Agenda.Task Message} (ht : t ∈ rest.tasks) : t ∈ s.agenda.tasks := by
    rw [htasks]
    exact .tail task ht
  have horder := h.order
  rw [htasks] at horder
  obtain ⟨-, horder⟩ := List.pairwise_cons.mp horder
  refine ⟨h.closing, h.limit, h.deadline, h.inTime, ?_, ?_, horder, ?_⟩
  · intro t ht
    exact h.due t (hsub ht)
  · intro t ht
    exact h.apart t (hsub ht)
  · intro t ht
    exact h.future t (hsub ht)

/-- What a closing session does when a message is due for which it waits. -/
theorem Sound.emit_of_closing {s : Session} (hs : s.Sound) (hp : s.phase = .closing)
    {task : Agenda.Task Message} {rest : Agenda Message}
    (htake : s.agenda.take? s.now = some (task, rest)) (hawait : s.isAwaited task.item = true) :
    s.emit =
      match task.item.closingCode with
      | some code => (s.afterSending task rest).close code ""
      | none => s.afterSending task rest := by
  have hl : s.isLive = true := isLive_of_closing hp
  have hlive : ({ s with agenda := rest } : Session).isLive = true := hl
  have hsend : ({ s with agenda := rest } : Session).send (.ofPayload task.item.payload) =
      s.afterSending task rest := send_of_live hlive _
  rw [emit, htake]
  simp only [if_pos hawait]
  rw [deliver, if_pos hlive, hsend]
  cases task.item.closingCode with
  | some code => rfl
  | none =>
    -- no reply can follow the message, as a closing session has none
    simp only [lookup_afterSending, hs.lookup_of_closing hp]

/-! ### Courses -/

/-- A session that keeps to its course: whatever it has sent, it ends up with `total`. -/
structure Course (total : List Sent) (begun timeout : Nat) (s : Session) : Prop where
  sound : s.Sound
  total : s.sent ++ s.outlook = total
  past : ∀ f ∈ s.sent, f.time ≤ s.now
  going : s.phase = .closed ∨ s.Draining begun timeout

theorem outlook_of_closed {s : Session} (h : s.phase = .closed) : s.outlook = [] := by
  simp [outlook, h]

theorem outlook_of_closing {s : Session} (h : s.phase = .closing) :
    s.outlook = remaining s.deadline s.agenda.tasks s.now := by
  rw [outlook, if_pos h]

/-- A session that closes is at the end of its course if it has sent just what was to come. -/
theorem course_of_closed {s : Session} {total : List Sent} {begun timeout : Nat} (hs : s.Sound)
    (hp : s.phase = .closed) (hsent : s.sent = total) (hpast : ∀ f ∈ s.sent, f.time ≤ s.now) :
    s.Course total begun timeout where
  sound := hs
  total := by rw [outlook_of_closed hp, List.append_nil, hsent]
  past := hpast
  going := Or.inl hp

theorem isDue_of_closed {s : Session} (hs : s.Sound) (hp : s.phase = .closed) :
    s.isDue = false := by
  rw [isDue, take?_of_tasks_nil (hs.closed hp).1]
  simp [canFinish, hp]

section Course

variable {total : List Sent} {begun timeout : Nat} {s : Session}

/-- What is sent now has been sent in the past from now on. -/
theorem Course.past_append (h : s.Course total begun timeout) {fs : List Sent}
    (hfs : ∀ f ∈ fs, f.time = s.now) : ∀ f ∈ s.sent ++ fs, f.time ≤ s.now := by
  intro f hf
  rcases List.mem_append.mp hf with hf | hf
  · exact h.past f hf
  · exact Nat.le_of_eq (hfs f hf)

/-- A closing session that has nothing left to wait for ends its course with a farewell. -/
theorem Course.finish (h : s.Course total begun timeout) (hp : s.phase = .closing)
    (hlast : s.outlook = [farewell s.now]) : s.finish.Course total begun timeout := by
  have hs : s.finish.Sound := (finish_of_closing hp).sound h.sound
  have hcut : cutReason closingReason = closingReason := by decide
  have hfinish := close_of_live (isLive_of_closing hp) normalClosure closingReason
  rw [hcut] at hfinish
  rw [Session.finish, hfinish] at hs ⊢
  refine course_of_closed hs rfl ?_ (h.past_append (by simp))
  rw [← h.total, hlast, farewell]

/-- A session on its course that has something to do is draining. -/
theorem Course.draining_of_due (h : s.Course total begun timeout) (hdue : s.isDue = true) :
    s.Draining begun timeout := by
  rcases h.going with hp | hd
  · rw [isDue_of_closed h.sound hp] at hdue
    cases hdue
  · exact hd

/-- Sending a task that is due keeps the course. It closes the session, or leaves the others. -/
theorem Course.emit_task (h : s.Course total begun timeout) (hd : s.Draining begun timeout)
    {task : Agenda.Task Message} {rest : Agenda Message}
    (htake : s.agenda.take? s.now = some (task, rest)) :
    s.emit.Course total begun timeout ∧
      (s.emit.phase = .closed ∨ s.emit.agenda.tasks = rest.tasks) := by
  obtain ⟨htasks, hle, -⟩ := take?_eq_some htake
  obtain ⟨hnow, hlt, hawait⟩ := hd.awaited (by rw [htasks]; exact .head _) hle
  have hsent : taskSent task = ⟨s.now, .ofPayload task.item.payload⟩ := by rw [taskSent, hnow]
  have hsound : s.emit.Sound := h.sound.step .emit
  have hemit := h.sound.emit_of_closing hd.closing htake hawait
  have htotal := h.total
  rw [outlook_of_closing hd.closing, htasks] at htotal
  -- a closing code ends the course here, and otherwise the message moves from what is outstanding
  -- to what was sent
  cases hcode : task.item.closingCode with
  | some code =>
    have hlive : (s.afterSending task rest).isLive = true := isLive_of_closing hd.closing
    have hcut : cutReason "" = "" := by decide
    rw [hcode] at hemit
    simp only at hemit
    rw [close_of_live hlive, hcut] at hemit
    rw [remaining_of_code hlt hcode, hsent, hnow, List.append_cons] at htotal
    rw [hemit] at hsound ⊢
    refine ⟨course_of_closed hsound rfl htotal ?_, Or.inl rfl⟩
    simp only [Session.afterSending]
    rw [List.append_assoc]
    exact h.past_append (by simp)
  | none =>
    rw [hcode] at hemit
    simp only at hemit
    rw [remaining_of_no_code hlt hcode, hsent, hnow, List.append_cons] at htotal
    rw [hemit] at hsound ⊢
    have hdrains : (s.afterSending task rest).Draining begun timeout := hd.afterSending htasks
    refine ⟨⟨hsound, ?_, h.past_append (by simp), Or.inr hdrains⟩, Or.inr rfl⟩
    rw [outlook_of_closing hdrains.closing]
    exact htotal

/-- With nothing left to send, or at its deadline, a session has only its farewell ahead. -/
theorem Draining.outlook_of_canFinish (h : s.Draining begun timeout) (hfin : s.canFinish = true) :
    s.outlook = [farewell s.now] := by
  have hend : s.agenda.tasks = [] ∨ s.deadline ≤ s.now := by
    simpa [canFinish, h.closing] using hfin
  rw [outlook_of_closing h.closing]
  cases htasks : s.agenda.tasks with
  | nil => rfl
  | cons t ts =>
    -- a task waits, so it is the deadline that has come, and the task is due no earlier
    have hle : s.deadline ≤ s.now := hend.resolve_left (by simp [htasks])
    have ht : s.now ≤ t.due := h.future t (by rw [htasks]; exact .head ts)
    rw [Nat.le_antisymm hle h.inTime, remaining_of_late ht]

/-- Doing what is due keeps the course. It closes the session, or leaves fewer tasks. -/
theorem Course.emit (h : s.Course total begun timeout) (hdue : s.isDue = true) :
    s.emit.Course total begun timeout ∧
      (s.emit.phase = .closed ∨ s.emit.agenda.tasks.length < s.agenda.tasks.length) := by
  have hd : s.Draining begun timeout := h.draining_of_due hdue
  cases htake : s.agenda.take? s.now with
  | some found =>
    obtain ⟨hcourse, hrest⟩ := h.emit_task hd htake
    refine ⟨hcourse, ?_⟩
    rcases hrest with hp | hrest
    · exact Or.inl hp
    · rw [hrest, (take?_eq_some htake).1]
      exact Or.inr (Nat.lt_succ_self _)
  | none =>
    have hfin : s.canFinish = true := by
      rw [isDue, htake] at hdue
      simpa using hdue
    have hemit : s.emit = s.finish := by
      rw [Session.emit, htake]
      simp only [if_pos hfin]
    have hclosed : s.finish.phase = .closed := by
      rw [Session.finish, close_of_live (isLive_of_closing hd.closing)]
    rw [hemit]
    exact ⟨h.finish hd.closing (hd.outlook_of_canFinish hfin), Or.inl hclosed⟩

/-- A session on its course settles within a step for each task, and one for the close. -/
theorem Course.settleWithin (h : s.Course total begun timeout) {n : Nat}
    (hn : s.phase = .closed ∨ s.agenda.tasks.length < n) :
    (settleWithin n s).Course total begun timeout ∧ (settleWithin n s).isDue = false := by
  induction n generalizing s with
  | zero =>
    rcases hn with hp | hn
    · exact ⟨h, isDue_of_closed h.sound hp⟩
    · exact absurd hn (Nat.not_lt_zero _)
  | succ n ih =>
    rw [Session.settleWithin]
    cases hdue : s.isDue with
    | false => exact ⟨h, hdue⟩
    | true =>
      obtain ⟨hcourse, hp | hless⟩ := h.emit hdue
      · exact ih hcourse (Or.inl hp)
      · -- a closed session has nothing to do, so the tasks are few enough
        rcases hn with hp | hn
        · rw [isDue_of_closed h.sound hp] at hdue
          cases hdue
        · exact ih hcourse (Or.inr (by omega))

theorem Course.settle (h : s.Course total begun timeout) :
    s.settle.Course total begun timeout ∧ s.settle.isDue = false := by
  refine h.settleWithin (Or.inr ?_)
  have hle : s.agenda.tasks.length ≤
      (s.agenda.tasks.length + s.replies.items.length) * (s.replies.items.length + 1) :=
    Nat.le_trans (Nat.le_add_right _ _) (Nat.le_mul_of_pos_right _ (Nat.succ_pos _))
  exact Nat.lt_succ_of_le hle

/-- Nothing is due while all tasks and the deadline are still ahead. -/
theorem isDue_of_early (hbusy : s.agenda.tasks ≠ []) (hdeadline : s.now < s.deadline)
    (hfuture : ∀ t ∈ s.agenda.tasks, s.now < t.due) : s.isDue = false := by
  cases htasks : s.agenda.tasks with
  | nil => exact absurd htasks hbusy
  | cons t ts =>
    have ht : s.now < t.due := hfuture t (by rw [htasks]; exact .head ts)
    simp [isDue, canFinish, Agenda.take?, htasks, ht, hdeadline]

/-- A draining session that has nothing to do waits for a task, or for its deadline. -/
theorem Draining.waits (h : s.Draining begun timeout) (hdue : s.isDue = false) :
    s.agenda.tasks ≠ [] ∧ ∃ next, s.nextTime? = some next ∧ s.now < next ∧ next ≤ s.deadline ∧
      ∀ t ∈ s.agenda.tasks, next ≤ t.due := by
  rw [isDue, Bool.or_eq_false_iff] at hdue
  obtain ⟨htake, hfin⟩ := hdue
  have hwaits : s.agenda.tasks ≠ [] ∧ s.now < s.deadline := by
    simpa [canFinish, h.closing] using hfin
  refine ⟨hwaits.1, ?_⟩
  cases htasks : s.agenda.tasks with
  | nil => exact absurd htasks hwaits.1
  | cons t ts =>
    have hlt : s.now < t.due := by
      simpa [Agenda.take?, htasks] using htake
    have horder := h.order
    rw [htasks] at horder
    refine ⟨min t.due s.deadline, ?_, Nat.lt_min.mpr ⟨hlt, hwaits.2⟩, Nat.min_le_right _ _, ?_⟩
    · rw [nextTime?, if_pos h.closing, Agenda.nextDue?, htasks]
      rfl
    · intro u hu
      refine Nat.le_trans (Nat.min_le_left _ _) ?_
      rcases List.mem_cons.mp hu with rfl | hu
      · exact Nat.le_refl _
      · exact ((List.pairwise_cons.mp horder).1 u hu).due_le

/-- Time that passes no further than to what is due next keeps the course. -/
theorem Course.setTime (h : s.Course total begun timeout) (hdue : s.isDue = false) {time : Nat}
    (hnow : s.now ≤ time) (hnext : ∀ next, s.nextTime? = some next → time ≤ next) :
    (s.setTime time).Course total begun timeout := by
  have hsound : (s.setTime time).Sound := by
    rw [setTime_eq_step hnow]
    exact h.sound.step _
  have hpast : ∀ f ∈ s.sent, f.time ≤ time := by
    intro f hf
    exact Nat.le_trans (h.past f hf) hnow
  rcases h.going with hp | hd
  · refine course_of_closed hsound hp ?_ hpast
    rw [← h.total, outlook_of_closed hp, List.append_nil]
    rfl
  · obtain ⟨hbusy, next, hsome, -, hdeadline, hfuture⟩ := hd.waits hdue
    have hle : time ≤ next := hnext next hsome
    have hdrains : (s.setTime time).Draining begun timeout := by
      refine ⟨hd.closing, hd.limit, hd.deadline, Nat.le_trans hle hdeadline, hd.due, hd.apart,
        hd.order, ?_⟩
      intro t ht
      exact Nat.le_trans hle (hfuture t ht)
    refine ⟨hsound, ?_, hpast, Or.inr hdrains⟩
    rw [← h.total, outlook_of_closing hd.closing, outlook_of_closing hdrains.closing]
    exact congrArg (s.sent ++ ·) (remaining_now hbusy time s.now)

/-- Nothing is due before what is due next. -/
theorem Course.isDue_setTime (h : s.Course total begun timeout) (hdue : s.isDue = false)
    {time : Nat} (hnext : ∀ next, s.nextTime? = some next → time < next) :
    (s.setTime time).isDue = false := by
  rcases h.going with hp | hd
  · rw [isDue, Session.setTime, take?_of_tasks_nil (h.sound.closed hp).1]
    simp [canFinish, hp]
  · obtain ⟨hbusy, next, hsome, -, hdeadline, hfuture⟩ := hd.waits hdue
    have hlt : time < next := hnext next hsome
    refine isDue_of_early hbusy (Nat.lt_of_lt_of_le hlt hdeadline) ?_
    intro t ht
    exact Nat.lt_of_lt_of_le hlt (hfuture t ht)

/-! ### Courses under the clock -/

/-- The clock keeps a session on its course, and leaves nothing that is due. -/
theorem Course.advanceTo (h : s.Course total begun timeout) (hdue : s.isDue = false) {time : Nat}
    (hnow : s.now ≤ time) :
    (s.advanceTo time).Course total begun timeout ∧ (s.advanceTo time).isDue = false ∧
      (s.advanceTo time).now = time := by
  fun_induction Session.advanceTo time s with
  | case1 s hnone =>
    refine ⟨h.setTime hdue hnow ?_, h.isDue_setTime hdue ?_, rfl⟩ <;> simp [hnone]
  | case2 s next hsome hle ih =>
    obtain ⟨hcourse, hdue'⟩ :=
      (h.setTime hdue (Nat.le_of_lt hle.1) (by simp [hsome])).settle
    refine ih hcourse hdue' ?_
    rw [now_settle]
    exact hle.2
  | case3 s next hsome hnot =>
    -- a session on its course has done what is due, so what is next lies beyond the time
    have hlt : time < next := by
      rcases h.going with hp | hd
      · rw [nextTime?, if_neg (by simp [hp]), Agenda.nextDue?, (h.sound.closed hp).1] at hsome
        cases hsome
      · obtain ⟨-, next', hsome', hlt', -⟩ := hd.waits hdue
        rw [hsome] at hsome'
        cases hsome'
        omega
    refine ⟨h.setTime hdue hnow ?_, h.isDue_setTime hdue ?_, rfl⟩
    · simpa [hsome] using Nat.le_of_lt hlt
    · simpa [hsome] using hlt

theorem Course.advance (h : s.Course total begun timeout) (milliseconds : Nat) :
    (s.advance milliseconds).Course total begun timeout ∧ (s.advance milliseconds).isDue = false ∧
      (s.advance milliseconds).now = s.now + milliseconds := by
  obtain ⟨hcourse, hdue⟩ := h.settle
  refine hcourse.advanceTo hdue ?_
  rw [now_settle]
  exact Nat.le_add_right _ _

/-- However the time is cut into pieces, the clock keeps a session on its course. -/
theorem Course.advances (h : s.Course total begun timeout) (hdue : s.isDue = false)
    (spans : List Nat) :
    let u := spans.foldl (fun s milliseconds => s.advance milliseconds) s
    u.Course total begun timeout ∧ u.isDue = false ∧ u.now = spans.foldl (· + ·) s.now := by
  induction spans generalizing s with
  | nil => exact ⟨h, hdue, rfl⟩
  | cons span spans ih =>
    obtain ⟨hcourse, hdue', hnow⟩ := h.advance span
    have htime : (span :: spans).foldl (· + ·) s.now =
        spans.foldl (· + ·) (s.advance span).now := by
      rw [List.foldl_cons, hnow]
    rw [htime]
    exact ih hcourse hdue'

/-- A session that has done what is due has sent all of its course up to now. -/
theorem Course.sent_eq (h : s.Course total begun timeout) (hdue : s.isDue = false) :
    s.sent = total.filter (·.time ≤ s.now) := by
  have hpast : s.sent.filter (·.time ≤ s.now) = s.sent := by
    rw [List.filter_eq_self]
    intro f hf
    exact decide_eq_true (h.past f hf)
  have hfuture : ∀ f ∈ s.outlook, s.now < f.time := by
    rcases h.going with hp | hd
    · simp [outlook_of_closed hp]
    · obtain ⟨hbusy, next, -, hlt, hdeadline, hnext⟩ := hd.waits hdue
      rw [outlook_of_closing hd.closing, remaining_now hbusy s.now next]
      intro f hf
      exact Nat.lt_of_lt_of_le hlt (le_time_remaining (Nat.le_refl next) hdeadline hnext f hf)
  have hlater : s.outlook.filter (·.time ≤ s.now) = [] := by
    rw [List.filter_eq_nil_iff]
    intro f hf
    simpa using hfuture f hf
  rw [← h.total, List.filter_append, hpast, hlater, List.append_nil]

/-- At its deadline a session has closed, and its course is over. -/
theorem Course.over (h : s.Course total begun timeout) (hdue : s.isDue = false)
    (hnow : begun + timeout ≤ s.now) : s.phase = .closed ∧ s.sent = total := by
  rcases h.going with hp | hd
  · refine ⟨hp, ?_⟩
    rw [← h.total, outlook_of_closed hp, List.append_nil]
  · obtain ⟨-, next, -, hlt, hdeadline, -⟩ := hd.waits hdue
    rw [hd.deadline] at hdeadline
    omega

end Course

end Session

end Understudy
