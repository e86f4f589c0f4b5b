import Understudy.Proofs.Session.Draining

/-!
# Understudy.Proofs.Session.Quiescence

A session comes to rest at every time.

A message that is sent can bring about another one at the same time, and so on, and a script may
answer a message with itself. What ends this is counted by `pendingNow`: the tasks that are due, and
the replies to messages of the session that leave their queue when they are used. Each message that
is sent is one of the tasks. The reply that follows it was one of the replies, or it stays in its
queue and waits for a while, so that it is not due yet; either way the count has become less
(`Sound.pendingNow_emit`). A close drops all tasks.

So the count bounds how many messages are sent before nothing is due any more, and `settle`, which
knows a larger bound, does not stop before that (`quiescence`).
-/

namespace Understudy

namespace Agenda

variable {α : Type}

/-! ### Tasks that are due -/

/-- How many tasks are due. -/
def countDue (now : Nat) (a : Agenda α) : Nat := a.tasks.countP (·.due ≤ now)

/-- Whether no task comes before one that is due earlier. -/
def InOrder (a : Agenda α) : Prop := a.tasks.Pairwise fun t u => t.due ≤ u.due

theorem inOrder_of_tasks_nil {a : Agenda α} (h : a.tasks = []) : a.InOrder := by
  rw [InOrder, h]
  exact List.Pairwise.nil

/-- A task that is put in its place keeps the order by due times. -/
theorem pairwise_due_place {t : Task α} {ts : List (Task α)}
    (h : ts.Pairwise fun t u => t.due ≤ u.due) :
    (place t ts).Pairwise fun t u => t.due ≤ u.due := by
  induction ts with
  | nil => exact List.pairwise_singleton _ t
  | cons u ts ih =>
    obtain ⟨hu, hts⟩ := List.pairwise_cons.mp h
    rw [place]
    split
    · rename_i hdue
      refine List.pairwise_cons.mpr ⟨?_, ih hts⟩
      intro v hv
      rcases mem_place.mp hv with rfl | hv
      · exact hdue
      · exact hu v hv
    · rename_i hdue
      have hle : t.due ≤ u.due := Nat.le_of_lt (Nat.lt_of_not_le hdue)
      refine List.pairwise_cons.mpr ⟨?_, h⟩
      intro v hv
      rcases List.mem_cons.mp hv with rfl | hv
      · exact hle
      · exact Nat.le_trans hle (hu v hv)

theorem InOrder.schedule {a : Agenda α} (h : a.InOrder) (due : Nat) (item : α) :
    (a.schedule due item).InOrder := by
  rw [Agenda.schedule]
  split
  · exact h
  · exact pairwise_due_place h

/-- A task that is accepted is one more that is due, or it is not due yet. -/
theorem countDue_schedule (now due : Nat) (item : α) (a : Agenda α) :
    (a.schedule due item).countDue now ≤ a.countDue now + if due ≤ now then 1 else 0 := by
  rw [Agenda.schedule]
  split
  · exact Nat.le_add_right _ _
  · rw [countDue, (place_perm _ _).countP_eq, List.countP_cons]
    simp [countDue]

end Agenda

/-- Whether a trigger is a message that the session itself has sent. -/
def Trigger.isOwn : Trigger → Bool
  | .sent _ => true
  | _ => false

namespace Session

section Take

variable {now : Nat} {a rest : Agenda Message} {task : Agenda.Task Message}

theorem inOrder_of_take (h : a.InOrder) (htake : a.take? now = some (task, rest)) :
    rest.InOrder := by
  rw [Agenda.InOrder, (take?_eq_some htake).1] at h
  exact (List.pairwise_cons.mp h).2

theorem countDue_of_take (htake : a.take? now = some (task, rest)) :
    a.countDue now = rest.countDue now + 1 := by
  obtain ⟨htasks, hdue, -⟩ := take?_eq_some htake
  rw [Agenda.countDue, htasks, List.countP_cons_of_pos (by simpa using hdue)]
  rfl

/-- If the first task is not due, none is. -/
theorem countDue_eq_zero_iff (h : a.InOrder) : a.countDue now = 0 ↔ a.take? now = none := by
  rw [Agenda.countDue, Agenda.take?]
  rw [Agenda.InOrder] at h
  cases htasks : a.tasks with
  | nil => simp
  | cons t ts =>
    rw [htasks] at h
    have hfirst := (List.pairwise_cons.mp h).1
    by_cases hdue : t.due ≤ now
    · simp [hdue]
    · have hnone : ts.countP (·.due ≤ now) = 0 := by
        rw [List.countP_eq_zero]
        intro u hu
        have hle := hfirst u hu
        simp only [decide_eq_true_eq]
        omega
      simp [hdue, hnone]

end Take

/-! ### The order of the agenda -/

theorem inOrder_plan {a : Agenda Message} (h : a.InOrder) (now : Nat) (ms : List Message) :
    (plan now ms a).InOrder := by
  induction ms generalizing a with
  | nil => exact h
  | cons m ms ih => exact ih (h.schedule _ _)

/-- A turn keeps the tasks in order, however much time has passed. -/
theorem Turn.inOrder {s u : Session} {i : Input} {ts : List Trigger} {ms : List Message}
    (h : Turn s i ts ms u) (ho : s.agenda.InOrder) : u.agenda.InOrder := by
  cases h with
  | still => exact ho
  | elapse => exact ho
  | begin => exact inOrder_plan ho _ _
  | drain => exact inOrder_plan ho s.now (s.script.opening ++ s.script.timed)
  | answer => exact inOrder_plan ho _ _
  | send _ htake => exact inOrder_of_take ho htake
  | sendAnswer _ htake => exact inOrder_plan (inOrder_of_take ho htake) _ _
  | _ => exact Agenda.inOrder_of_tasks_nil rfl

theorem Sound.inOrder_run {s : Session} (hs : s.Sound) (ho : s.agenda.InOrder) (is : List Input) :
    (s.run is).agenda.InOrder :=
  hs.run_induction (P := fun u => u.agenda.InOrder) ho (fun _ hturn hu => hturn.inOrder hu) is

/-! ### What can still be sent now -/

/-- How many replies to messages of the session are left that leave their queue. -/
def chainsLeft (s : Session) : Nat :=
  s.replies.items.countP fun reply => reply.1.isOwn && reply.2.leaves

/-- What bounds the messages that are sent at this time: those that are due, and the replies that
can follow at once. -/
def pendingNow (s : Session) : Nat := s.agenda.countDue s.now + s.chainsLeft

/-- Whether every reply to a message of the session that stays in its queue waits for a while. -/
def Patient (replies : Replies) : Prop :=
  ∀ text, ∀ m ∈ Queues.queue replies (.sent text), m.leaves = false → 0 < m.delay

theorem queue?_of_lookup {s : Session} {t : Trigger} {m : Message} (h : s.lookup t = .reply m) :
    ∃ rest, s.replies.queue? t = some (m :: rest) := by
  unfold lookup at h
  split at h
  · rename_i m' rest hq
    cases h
    exact ⟨rest, hq⟩
  · cases h
  · cases h

/-- A reply to a message of the session leaves its queue, or it waits for a while. -/
theorem Sound.waits_of_lookup {s : Session} (hs : s.Sound) (hpatient : Patient s.script.replies)
    {text : String} {m : Message} (h : s.lookup (.sent text) = .reply m)
    (hstays : m.leaves = false) : 0 < m.delay := by
  obtain ⟨rest, hq⟩ := queue?_of_lookup h
  exact hpatient text m ((hs.replies.queue _ _ hq).subset (.head rest)) hstays

/-- A reply to a message of the session is one less that is left, or it waits for a while. -/
theorem Sound.chainsLeft_use {s : Session} (hs : s.Sound) (hpatient : Patient s.script.replies)
    {text : String} {m : Message} (h : s.lookup (.sent text) = .reply m) :
    (s.use (.sent text)).chainsLeft + (if m.delay = 0 then 1 else 0) ≤ s.chainsLeft := by
  obtain ⟨rest, hq⟩ := queue?_of_lookup h
  rw [use, hq]
  by_cases hleaves : m.leaves = true
  · obtain ⟨pre, post, hitems, hdrop⟩ := QueueMap.exists_items_dropFirst hq
    simp only [if_pos hleaves, chainsLeft, hdrop]
    rw [hitems, List.countP_append, List.countP_append,
      List.countP_cons_of_pos (by simp [Trigger.isOwn, hleaves])]
    split <;> omega
  · have hwaits : 0 < m.delay := hs.waits_of_lookup hpatient h (by simpa using hleaves)
    have hne : m.delay ≠ 0 := by omega
    simp [hleaves, hne]

/-! ### Sending what is due -/

/-- A turn that sends something closes the session, or it takes a task from the agenda, and perhaps
accepts the reply that follows. -/
theorem Turn.of_sent {s u : Session} {ts : List Trigger} {ms : List Message}
    (h : Turn s .emit ts ms u) (hsent : u.sent ≠ s.sent) :
    (u.phase = .closed ∧ u.replies = s.replies) ∨
    ∃ task rest, s.agenda.take? s.now = some (task, rest) ∧
      ((u.agenda = rest ∧ u.replies = s.replies) ∨
        ∃ t ∈ ts, ∃ m, s.lookup t = .reply m ∧ u.agenda = plan s.now [m] rest ∧
          u.replies = (s.use t).replies) := by
  cases h with
  | still | answer => exact absurd rfl hsent
  | send _ htake => exact Or.inr ⟨_, _, htake, Or.inl ⟨rfl, rfl⟩⟩
  | @sendAnswer _ t m _ _ _ htake hm =>
    exact Or.inr ⟨_, _, htake, Or.inr ⟨t, .head [], m, hm, rfl, rfl⟩⟩
  | _ => exact Or.inl ⟨rfl, rfl⟩

/-- What the session does when a task is due. It closes, or it goes on without the task, and perhaps
with the reply that follows it. -/
theorem Sound.emit_of_take {s : Session} (hs : s.Sound) {task : Agenda.Task Message}
    {rest : Agenda Message} (htake : s.agenda.take? s.now = some (task, rest)) :
    (s.emit.phase = .closed ∧ s.emit.replies = s.replies) ∨
    (s.emit.agenda = rest ∧ s.emit.replies = s.replies) ∨
    ∃ text m, s.lookup (.sent text) = .reply m ∧ s.emit.agenda = plan s.now [m] rest ∧
      s.emit.replies = (s.use (.sent text)).replies := by
  have hl : s.isLive = true := hs.live_of_take htake
  have hemit : s.emit = if s.isAwaited task.item = true then
      ({ s with agenda := rest } : Session).deliver task.item else s.finish :=
    step_emit_of_take htake
  by_cases hawait : s.isAwaited task.item = true
  · have hlive : ({ s with agenda := rest } : Session).isLive = true := hl
    have hprefix := sent_prefix_deliver hlive task.item
    have hturn := hs.turn_deliver (i := .emit) hl htake rfl
    rw [if_pos hawait] at hemit
    rw [← hemit] at hprefix hturn
    -- something is sent, which leaves only the turns that send
    have hsent : s.emit.sent ≠ s.sent := by
      intro heq
      have hle := hprefix.length_le
      rw [heq, List.length_append] at hle
      exact Nat.not_succ_le_self _ hle
    rcases hturn.of_sent hsent with hclosed | ⟨_, _, htake', hrest | ⟨t, ht, m, hm, ha, hr⟩⟩
    · exact Or.inl hclosed
    · rw [htake] at htake'
      cases htake'
      exact Or.inr (Or.inl hrest)
    · rw [htake] at htake'
      cases htake'
      split at ht
      · obtain rfl := List.mem_singleton.mp ht
        exact Or.inr (Or.inr ⟨_, m, hm, ha, hr⟩)
      · cases ht
  · rw [if_neg hawait, finish, close_of_live hl] at hemit
    rw [hemit]
    exact Or.inl ⟨rfl, rfl⟩

/-- Each message that is sent makes the rest less. -/
theorem Sound.pendingNow_emit {s : Session} (hs : s.Sound) (hpatient : Patient s.script.replies)
    {task : Agenda.Task Message} {rest : Agenda Message}
    (htake : s.agenda.take? s.now = some (task, rest)) :
    s.emit.pendingNow < s.pendingNow := by
  have hcount := countDue_of_take htake
  simp only [pendingNow, now_emit]
  -- a close drops what is due; a message without a reply leaves one less; and a reply that is due
  -- at once takes the place of a message, but spends itself
  rcases hs.emit_of_take htake with ⟨hp, hr⟩ | ⟨ha, hr⟩ | ⟨text, m, hm, ha, hr⟩
  · have hsound : s.emit.Sound := hs.step .emit
    have hnil : s.emit.agenda.countDue s.now = 0 := by
      rw [Agenda.countDue, (hsound.closed hp).1]
      rfl
    have hchains : s.emit.chainsLeft = s.chainsLeft := by rw [chainsLeft, hr, chainsLeft]
    omega
  · have hchains : s.emit.chainsLeft = s.chainsLeft := by rw [chainsLeft, hr, chainsLeft]
    rw [ha]
    omega
  · have hchains : s.emit.chainsLeft = (s.use (.sent text)).chainsLeft := by
      rw [chainsLeft, hr, chainsLeft]
    have hless := hs.chainsLeft_use hpatient hm
    have hmore := Agenda.countDue_schedule s.now (s.now + m.delay) m rest
    have hdue : (s.now + m.delay ≤ s.now) = (m.delay = 0) := by
      rw [eq_iff_iff]
      omega
    simp only [hdue] at hmore
    rw [ha, hchains, plan_cons, plan_nil]
    omega

/-! ### Coming to rest -/

theorem emit_of_idle {s : Session} (h : s.agenda.take? s.now = none) :
    s.emit = if s.canFinish then s.finish else s := by
  rw [emit, h]

/-- With no task that is due, one more step leaves nothing to do: it closes, or changes nothing. -/
theorem Sound.isDue_emit_of_idle {s : Session} (hs : s.Sound)
    (h : s.agenda.take? s.now = none) : s.emit.isDue = false := by
  rw [emit_of_idle h]
  by_cases hfin : s.canFinish = true
  · have hp : s.phase = .closing := by
      rw [canFinish, Bool.and_eq_true] at hfin
      exact of_decide_eq_true hfin.1
    have hsound : s.finish.Sound := (finish_of_closing hp).sound hs
    have hclosed : s.finish.phase = .closed := by
      rw [finish, close_of_live (isLive_of_closing hp)]
    rw [if_pos hfin]
    exact isDue_of_closed hsound hclosed
  · rw [if_neg hfin, isDue, h]
    simpa using hfin

/-- Steps of `emit`. -/
def emits (n : Nat) (s : Session) : Session := s.run (List.replicate n .emit)

@[simp] theorem emits_zero (s : Session) : s.emits 0 = s := rfl

theorem emits_succ (n : Nat) (s : Session) : s.emits (n + 1) = s.emit.emits n := rfl

theorem emits_add (m n : Nat) (s : Session) : s.emits (m + n) = (s.emits m).emits n := by
  rw [emits, ← List.replicate_append_replicate, run_append]
  rfl

@[simp] theorem now_emits (n : Nat) (s : Session) : (s.emits n).now = s.now := by
  induction n generalizing s with
  | zero => rfl
  | succ n ih => rw [emits_succ, ih, now_emit]

theorem Sound.emits {s : Session} (hs : s.Sound) (n : Nat) : (s.emits n).Sound := hs.run _

/-- At most `pendingNow` messages are sent before no task is due any more. -/
theorem Sound.exists_idle {s : Session} (hs : s.Sound) (hpatient : Patient s.script.replies) :
    ∃ n ≤ s.pendingNow,
      (∀ k < n, (s.emits k).agenda.take? s.now ≠ none) ∧
      (s.emits n).agenda.take? s.now = none := by
  -- on the bound: each message that is sent makes it less
  induction hbound : s.pendingNow using Nat.strongRecOn generalizing s with
  | ind bound ih =>
    subst hbound
    cases htake : s.agenda.take? s.now with
    | none => exact ⟨0, Nat.zero_le _, by simp, htake⟩
    | some found =>
      obtain ⟨task, rest⟩ := found
      have hless := hs.pendingNow_emit hpatient htake
      have hscript : s.emit.script = s.script := script_turn (hs.turn .emit)
      have hemit : s.emit.Sound := hs.step .emit
      obtain ⟨n, hn, hbusy, hidle⟩ :=
        ih s.emit.pendingNow hless hemit (by rw [hscript]; exact hpatient) rfl
      rw [now_emit] at hbusy hidle
      refine ⟨n + 1, by omega, ?_, hidle⟩
      intro k hk
      cases k with
      | zero => simp [htake]
      | succ k => exact hbusy k (by omega)

/-- `settle` takes enough steps to come to an end. -/
theorem settle_eq_emits {s : Session} {n : Nat} (hn : n ≤ s.bound)
    (h : (s.emits n).isDue = false) : s.settle = s.emits n := by
  obtain ⟨k, hk⟩ := Nat.exists_eq_add_of_le hn
  rw [settle_eq_run, ← emits, hk, emits_add]
  exact run_replicate_emit_of_not_due h k

theorem pendingNow_lt_bound (s : Session) : s.pendingNow < s.bound := by
  have hdue : s.agenda.countDue s.now ≤ s.agenda.tasks.length := List.countP_le_length
  have hleft : s.chainsLeft ≤ s.replies.items.length := List.countP_le_length
  have hmul : s.agenda.tasks.length + s.replies.items.length ≤
      (s.agenda.tasks.length + s.replies.items.length) * (s.replies.items.length + 1) :=
    Nat.le_mul_of_pos_right _ (Nat.succ_pos _)
  rw [pendingNow, bound]
  omega

/-- Once no task is due any more, the session has settled but for its close. -/
theorem Sound.settle_of_idle {s : Session} (hs : s.Sound) {n : Nat} (hn : n ≤ s.pendingNow)
    (hidle : (s.emits n).agenda.take? s.now = none) :
    s.settle = (if (s.emits n).canFinish then (s.emits n).finish else s.emits n) ∧
      s.settle.isDue = false := by
  have hidle' : (s.emits n).agenda.take? (s.emits n).now = none := by
    rw [now_emits]
    exact hidle
  have hrest : (s.emits (n + 1)).isDue = false := by
    rw [emits_add]
    exact (hs.emits n).isDue_emit_of_idle hidle'
  have hsettle : s.settle = s.emits (n + 1) :=
    settle_eq_emits (Nat.lt_of_le_of_lt hn s.pendingNow_lt_bound) hrest
  refine ⟨?_, by rw [hsettle]; exact hrest⟩
  rw [hsettle, emits_add]
  exact emit_of_idle hidle'

/-- Settling comes to an end, if no reply that stays follows at once. -/
theorem Sound.isDue_settle {s : Session} (hs : s.Sound) (hpatient : Patient s.script.replies) :
    s.settle.isDue = false := by
  obtain ⟨n, hn, -, hidle⟩ := hs.exists_idle hpatient
  exact (hs.settle_of_idle hn hidle).2

/-! ### What is sent on the way -/

/-- A turn sends at most one message, and all that it sends it sends now. -/
theorem Turn.sent_eq {s u : Session} {i : Input} {ts : List Trigger} {ms : List Message}
    (h : Turn s i ts ms u) :
    ∃ sent, u.sent = s.sent ++ sent ∧ (∀ f ∈ sent, f.time = s.now) ∧
      sent.countP (fun f => !f.frame.isClose) ≤ 1 := by
  cases h with
  | still | elapse | begin | drain | answer | abandon => exact ⟨[], by simp⟩
  | _ => exact ⟨_, rfl, by simp, by simp⟩

/-- What some letting out sends is sent now, and is one message each at most. -/
theorem Sound.sent_emits {s : Session} (hs : s.Sound) (n : Nat) :
    ∃ sent, (s.emits n).sent = s.sent ++ sent ∧ (∀ f ∈ sent, f.time = s.now) ∧
      sent.countP (fun f => !f.frame.isClose) ≤ n := by
  induction n generalizing s with
  | zero => exact ⟨[], by simp⟩
  | succ n ih =>
    obtain ⟨first, hfirst, hnow, hone⟩ := (hs.turn .emit).sent_eq
    obtain ⟨others, hothers, hlater, hcount⟩ := ih (s := s.emit) (hs.step .emit)
    rw [now_emit] at hlater
    refine ⟨first ++ others, ?_, ?_, ?_⟩
    · rw [emits_succ, hothers, ← List.append_assoc, ← hfirst]
      rfl
    · intro f hf
      exact (List.mem_append.mp hf).elim (hnow f) (hlater f)
    · rw [List.countP_append]
      omega

/-- **Quiescence.** Let every reply to a message of the session that stays in its queue wait for a
while. Then every session of the script comes to rest, whatever has happened to it before. There is
a number `n` of steps, no more than the tasks that are due and the replies to messages of the
session that are left and leave their queue, such that

* before each of the `n` steps a task is due, and after them none is;
* they send at most `n` messages, and all that they send they send now;
* `settle` takes these steps, and then closes the session if it has nothing to wait for any more;
* after that there is nothing to do. -/
theorem quiescence (script : Script) (closeTimeout now : Nat) (is : List Input)
    (h : ∀ text, ∀ m ∈ Queues.queue script.replies (.sent text), m.leaves = false → 0 < m.delay) :
    let s := (start script closeTimeout now).run is
    ∃ n ≤ s.agenda.countDue s.now + s.chainsLeft,
      (∀ k < n, 0 < (s.emits k).agenda.countDue s.now) ∧
      (s.emits n).agenda.countDue s.now = 0 ∧
      (∃ sent, (s.emits n).sent = s.sent ++ sent ∧ (∀ f ∈ sent, f.time = s.now) ∧
        sent.countP (fun f => !f.frame.isClose) ≤ n) ∧
      s.settle = (if (s.emits n).canFinish then (s.emits n).finish else s.emits n) ∧
      s.settle.isDue = false := by
  intro s
  have hs : s.Sound := sound_run script closeTimeout now is
  have hscript : s.script = script := script_run (sound_start script closeTimeout now) is
  have horder : s.agenda.InOrder :=
    (sound_start script closeTimeout now).inOrder_run (Agenda.inOrder_of_tasks_nil rfl) is
  have hpatient : Patient s.script.replies := by
    rw [hscript]
    exact h
  obtain ⟨n, hn, hbusy, hidle⟩ := hs.exists_idle hpatient
  have hzero (k : Nat) : (s.emits k).agenda.countDue s.now = 0 ↔
      (s.emits k).agenda.take? s.now = none :=
    countDue_eq_zero_iff (hs.inOrder_run horder (List.replicate k .emit))
  -- nothing is due exactly if the timer has nothing to take
  refine ⟨n, hn, ?_, (hzero n).mpr hidle, hs.sent_emits n, hs.settle_of_idle hn hidle⟩
  intro k hk
  exact Nat.pos_of_ne_zero fun hnone => hbusy k hk ((hzero k).mp hnone)

/-- A message is answered with another, and that with the first one again. Then a reply is left that
stays, and is not due yet. -/
theorem quiescence_circular :
    let reply (text : String) (delay : Nat) (leaves : Bool) : Message :=
      ⟨.text text, delay, leaves, none⟩
    let script : Script := ⟨[.ofText "a"], [],
      [(.sent "a", reply "b" 0 true), (.sent "b", reply "a" 0 true),
        (.sent "a", reply "a" 5 false)],
      none⟩
    let s := (start script 2000 0).run [.opened]
    s.agenda.countDue s.now = 1 ∧ s.chainsLeft = 2 ∧
      s.settle.sent = [⟨0, .text "a"⟩, ⟨0, .text "b"⟩, ⟨0, .text "a"⟩] ∧
      s.settle.agenda.nextDue? = some 5 ∧ s.settle.isDue = false := by
  intro reply script s
  have hwaits : ∀ text, ∀ m ∈ Queues.queue script.replies (.sent text),
      m.leaves = false → 0 < m.delay := by
    intro text m hm hstays
    obtain ⟨item, hitem, rfl⟩ := List.mem_map.mp hm
    have hall : ∀ item ∈ script.replies, item.2.leaves = false → 0 < item.2.delay := by decide
    exact hall item (List.mem_filter.mp hitem).1 hstays
  have hrun : s.agenda.countDue s.now = 1 ∧ s.chainsLeft = 2 ∧
      s.settle.sent = [⟨0, .text "a"⟩, ⟨0, .text "b"⟩, ⟨0, .text "a"⟩] ∧
      s.settle.agenda.nextDue? = some 5 := by decide +kernel
  obtain ⟨hdue, hleft, hsent, hnext⟩ := hrun
  obtain ⟨-, -, -, -, -, -, hrest⟩ := quiescence script 2000 0 [.opened] hwaits
  exact ⟨hdue, hleft, hsent, hnext, hrest⟩

end Session

end Understudy
