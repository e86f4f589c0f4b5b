import Understudy.Proofs.Agenda.Ledger
import Understudy.Proofs.Session.CloseProtocol

/-!
# Understudy.Proofs.Session.Delivery

Which messages are sent, when, and in which order.

A run accepts messages: those of the script when the session opens, and each reply when its trigger
is looked up. `book` lists them in the order in which they are accepted, each with the time. A
message becomes a task that is due after its delay and is numbered by its place in the book.

`delivery` is about the runs in which time does not pass beyond a message that waits (`Timely`).
There the tasks are split into those that are done and those that wait, in the order of `Before`.
What has been sent is exactly what is done, each message at the time at which it is due. Only a
close keeps a message from being sent: it comes no later than the message is due. The invariant of a
session is its `Account`, and `Turn.account` keeps it.
-/

namespace Understudy

namespace Session

open Agenda (Ledger)

/-! ### The messages of a run -/

/-- A message that was accepted, and when. -/
structure Entry where
  time : Nat
  message : Message
deriving Repr, DecidableEq

/-- The messages that a run accepts, in order. -/
def book (s : Session) : List Input → List Entry
  | [] => []
  | i :: is => (s.accepted i).map (Entry.mk s.now) ++ (s.step i).book is

/-- Messages as tasks, each due after its delay, and numbered by its place. -/
def tasks (es : List Entry) : List (Agenda.Task Message) :=
  es.mapIdx fun k e => ⟨e.time + e.message.delay, k, e.message⟩

/-- What is sent for a task that runs when it is due. -/
def taskSent (t : Agenda.Task Message) : Sent := ⟨t.due, .ofPayload t.item.payload⟩

/-- Whether a step lets no time pass beyond a message that waits. -/
def IsTimely (s : Session) : Input → Prop
  | .elapse milliseconds => ∀ t ∈ s.agenda.tasks, s.now + milliseconds ≤ t.due
  | _ => True

/-- Whether no time passes beyond a message that waits, in the whole of a run. -/
def Timely (s : Session) : List Input → Prop
  | [] => True
  | i :: is => s.IsTimely i ∧ (s.step i).Timely is

instance (s : Session) (i : Input) : Decidable (s.IsTimely i) :=
  match i with
  | .elapse milliseconds =>
    inferInstanceAs (Decidable (∀ t ∈ s.agenda.tasks, s.now + milliseconds ≤ t.due))
  | .opened | .message _ | .binary _ | .request _ | .closed _ _ | .emit | .sendDue => isTrue trivial

instance decidableTimely (s : Session) : (is : List Input) → Decidable (s.Timely is)
  | [] => isTrue trivial
  | i :: is =>
    have := decidableTimely (s.step i) is
    inferInstanceAs (Decidable (s.IsTimely i ∧ (s.step i).Timely is))

theorem Timely.of_append {s : Session} {pre post : List Input} (h : s.Timely (pre ++ post)) :
    s.Timely pre := by
  induction pre generalizing s with
  | nil => exact trivial
  | cons i pre ih => exact ⟨h.1, ih h.2⟩

theorem book_append (s : Session) (is js : List Input) :
    s.book (is ++ js) = s.book is ++ (s.run is).book js := by
  induction is generalizing s with
  | nil => rfl
  | cons i is ih => rw [List.cons_append, book, book, ih, List.append_assoc, run_cons]

theorem tasks_concat (es : List Entry) (e : Entry) :
    tasks (es ++ [e]) = tasks es ++ [⟨e.time + e.message.delay, es.length, e.message⟩] := by
  simp [tasks, List.mapIdx_append]

@[simp] theorem length_tasks (es : List Entry) : (tasks es).length = es.length := by
  simp [tasks]

/-- A task with a number from `es.length` on comes from what was accepted after `es`. -/
theorem mem_tasks_append {es fs : List Entry} {t : Agenda.Task Message} (ht : t ∈ tasks (es ++ fs))
    (hnumber : es.length ≤ t.number) : ∃ e ∈ fs, t.due = e.time + e.message.delay := by
  obtain ⟨k, hk, rfl⟩ := List.mem_mapIdx.mp ht
  simp only at hnumber
  have hk' : k - es.length < fs.length := by
    rw [List.length_append] at hk
    omega
  refine ⟨fs[k - es.length], List.getElem_mem hk', ?_⟩
  simp only
  rw [List.getElem_append_right hnumber]

theorem tasks_subset_append (es fs : List Entry) : tasks es ⊆ tasks (es ++ fs) := by
  intro t ht
  rw [tasks, List.mapIdx_append]
  exact List.mem_append_left _ ht

/-! ### Accounts -/

/-- Accepting messages keeps the ledger of an agenda. -/
theorem ledger_plan {now : Nat} {a : Agenda Message} {log : List Entry}
    {done : List (Agenda.Task Message)} (ha : a.stopped = false) (hnext : a.next = log.length)
    (h : Ledger now (tasks log) done a.tasks) (ms : List Message) :
    (plan now ms a).next = (log ++ ms.map (Entry.mk now)).length ∧
      Ledger now (tasks (log ++ ms.map (Entry.mk now))) done (plan now ms a).tasks := by
  -- the book grows with the agenda, so that the next number is always its length
  induction ms generalizing a log with
  | nil => simpa using ⟨hnext, h⟩
  | cons m ms ih =>
    have hsched : a.schedule (now + m.delay) m =
        ⟨Agenda.place ⟨now + m.delay, a.next, m⟩ a.tasks, a.next + 1, false⟩ := by
      rw [Agenda.schedule, if_neg (by simp [ha])]
    have hnext' : a.next + 1 = (log ++ [Entry.mk now m]).length := by simp [hnext]
    have hledger : Ledger now (tasks (log ++ [Entry.mk now m])) done
        (Agenda.place ⟨now + m.delay, a.next, m⟩ a.tasks) := by
      rw [tasks_concat, ← hnext]
      exact h.accept (Nat.le_add_right now m.delay) (by simp [hnext])
    rw [plan_cons, hsched, List.map_cons, List.append_cons]
    exact ih rfl hnext' hledger

/-- The account of a session: of the messages that it has accepted, those that are done have been
sent, and nothing else; and the others wait, unless the session has closed. -/
inductive Account (s : Session) (log : List Entry)
    (done waiting : List (Agenda.Task Message)) : Prop
  /-- The session is not closed. -/
  | going :
      s.phase ≠ .closed → s.agenda.next = log.length → waiting = s.agenda.tasks →
      Ledger s.now (tasks log) done waiting → s.sent = done.map taskSent →
      Account s log done waiting
  /-- The session has been closed before any of the messages that waited was late. -/
  | ended {time : Nat} {code : UInt16} {reason : String} :
      s.phase = .closed → Ledger time (tasks log) done waiting →
      s.sent = done.map taskSent ++ [⟨time, .close code reason⟩] →
      Account s log done waiting
  /-- The session has been closed before it opened. -/
  | silent :
      s.phase = .closed → log = [] → s.sent = [] → done = [] → waiting = [] →
      Account s log done waiting

theorem account_start (script : Script) (closeTimeout now : Nat) :
    Account (start script closeTimeout now) [] [] [] :=
  Account.going (by simp [start]) rfl rfl (Agenda.ledger_nil now) rfl

section Account

variable {s : Session} {log : List Entry} {done waiting : List (Agenda.Task Message)}

/-- What the account of a session says while the session is not closed. -/
theorem Account.ledger (h : s.Account log done waiting) (hp : s.phase ≠ .closed) :
    s.agenda.next = log.length ∧ Ledger s.now (tasks log) done s.agenda.tasks ∧
      s.sent = done.map taskSent := by
  cases h with
  | going _ hnext hw hl hsent => exact ⟨hnext, hw ▸ hl, hsent⟩
  | ended hp' => exact absurd hp' hp
  | silent hp' => exact absurd hp' hp

theorem Account.perm (h : s.Account log done waiting) : (done ++ waiting).Perm (tasks log) := by
  cases h with
  | going _ _ _ hl => exact hl.perm
  | ended _ hl => exact hl.perm
  | silent _ hlog _ hdone hwaiting =>
    rw [hlog, hdone, hwaiting]
    exact List.Perm.refl _

theorem Account.order (h : s.Account log done waiting) :
    (done ++ waiting).Pairwise Agenda.Task.Before := by
  cases h with
  | going _ _ _ hl => exact hl.order
  | ended _ hl => exact hl.order
  | silent _ _ _ hdone hwaiting =>
    rw [hdone, hwaiting]
    exact List.Pairwise.nil

/-- The data that was sent is what is done. -/
theorem Account.data (h : s.Account log done waiting) :
    s.sent.filter (fun f => !f.frame.isClose) = done.map taskSent := by
  have hdata : (done.map taskSent).filter (fun f => !f.frame.isClose) = done.map taskSent := by
    rw [List.filter_eq_self]
    intro f hf
    obtain ⟨t, -, rfl⟩ := List.mem_map.mp hf
    simp [taskSent]
  cases h with
  | going _ _ _ _ hsent => rw [hsent, hdata]
  | ended _ _ hsent =>
    rw [hsent, List.filter_append, hdata]
    simp [Frame.isClose]
  | silent _ _ hsent hdone =>
    rw [hsent, hdone]
    rfl

end Account

/-- Closing a session that has not closed settles its account. -/
theorem account_close {s u : Session} {log : List Entry} {done : List (Agenda.Task Message)}
    {code : UInt16} {reason : String} (hl : Ledger s.now (tasks log) done s.agenda.tasks)
    (hsent : s.sent = done.map taskSent) (hp : u.phase = .closed)
    (hu : u.sent = s.sent ++ [⟨s.now, .close code reason⟩]) :
    ∃ done waiting, u.Account log done waiting :=
  ⟨done, s.agenda.tasks, .ended hp hl (by rw [hu, hsent])⟩

/-- A task that is taken was the first one, and is due. -/
theorem take?_eq_some {now : Nat} {a rest : Agenda Message} {task : Agenda.Task Message}
    (h : a.take? now = some (task, rest)) :
    a.tasks = task :: rest.tasks ∧ task.due ≤ now ∧ rest.next = a.next := by
  unfold Agenda.take? at h
  split at h
  · cases h
  · rename_i t ts htasks
    split at h
    · rename_i hdue
      cases h
      exact ⟨htasks, hdue, rfl⟩
    · cases h

/-- Sending the first message that is due moves it to what is done. -/
theorem ledger_send {s : Session} {log : List Entry} {done : List (Agenda.Task Message)}
    {task : Agenda.Task Message} {rest : Agenda Message}
    (htake : s.agenda.take? s.now = some (task, rest))
    (hl : Ledger s.now (tasks log) done s.agenda.tasks) (hsent : s.sent = done.map taskSent) :
    Ledger s.now (tasks log) (done ++ [task]) rest.tasks ∧
      s.sent ++ [⟨s.now, .ofPayload task.item.payload⟩] = (done ++ [task]).map taskSent := by
  obtain ⟨htasks, hdue, -⟩ := take?_eq_some htake
  rw [htasks] at hl
  obtain ⟨hnow, hl⟩ := hl.take hdue
  refine ⟨hl, ?_⟩
  rw [hsent, List.map_append, List.map_singleton, taskSent, hnow]

/-- A turn keeps the account of a session whose script does not fail. -/
theorem Turn.account {s u : Session} {i : Input} {ts : List Trigger} {ms : List Message}
    (h : Turn s i ts ms u) (hs : s.Sound) (hf : s.script.failure = none) (ht : s.IsTimely i)
    {log : List Entry} {done waiting : List (Agenda.Task Message)}
    (ha : s.Account log done waiting) :
    ∃ done waiting, u.Account (log ++ ms.map (Entry.mk s.now)) done waiting := by
  have hpending (hp : s.phase = .pending) : s.phase ≠ .closed := by simp [hp]
  have hopen (hp : s.phase = .open) : s.phase ≠ .closed := by simp [hp]
  cases h with
  | still =>
    rw [List.map_nil, List.append_nil]
    exact ⟨done, waiting, ha⟩
  | elapse n =>
    rw [List.map_nil, List.append_nil]
    refine ⟨done, waiting, ?_⟩
    cases ha with
    | going hp hnext hw hl hsent =>
      exact .going hp hnext hw (hl.elapse (Nat.le_add_right _ _) (hw ▸ ht)) hsent
    | ended hp hl hsent => exact .ended hp hl hsent
    | silent hp hlog hsent hdone hw => exact .silent hp hlog hsent hdone hw
  | begin hp _ _ =>
    obtain ⟨hnext, hl, hsent⟩ := ha.ledger (hpending hp)
    have hstopped : s.agenda.stopped = false := by rw [(hs.pending hp).1]; rfl
    obtain ⟨hnext, hl⟩ :=
      ledger_plan hstopped hnext hl (s.script.opening ++ s.script.timed)
    exact ⟨done, _, .going (by simp) hnext rfl hl hsent⟩
  | drain hp _ _ =>
    obtain ⟨hnext, hl, hsent⟩ := ha.ledger (hpending hp)
    have hstopped : s.agenda.stopped = false := by rw [(hs.pending hp).1]; rfl
    obtain ⟨hnext, hl⟩ :=
      ledger_plan hstopped hnext hl (s.script.opening ++ s.script.timed)
    exact ⟨done, _, .going (by simp) hnext rfl hl hsent⟩
  | fail _ hfail =>
    rw [hf] at hfail
    cases hfail
  | @answer _ _ _ m hp =>
    obtain ⟨hnext, hl, hsent⟩ := ha.ledger (hopen hp)
    obtain ⟨hnext, hl⟩ := ledger_plan (hs.isOpen hp).1 hnext hl [m]
    exact ⟨done, _, .going (hopen hp) hnext rfl hl hsent⟩
  | reject hlv =>
    obtain ⟨-, hl, hsent⟩ := ha.ledger (ne_closed_of_live hlv)
    rw [List.map_nil, List.append_nil]
    exact account_close hl hsent rfl rfl
  | abandon hp =>
    -- nothing has been accepted or sent while the session was pending
    obtain ⟨hnext, -, -⟩ := ha.ledger (hpending hp)
    obtain ⟨hagenda, hsent⟩ := hs.pending hp
    have hlog : log = [] := by
      rw [← List.length_eq_zero_iff, ← hnext, hagenda]
      rfl
    rw [List.map_nil, List.append_nil]
    exact ⟨[], [], .silent rfl hlog hsent rfl rfl⟩
  | leave hlv =>
    obtain ⟨-, hl, hsent⟩ := ha.ledger (ne_closed_of_live hlv)
    rw [List.map_nil, List.append_nil]
    exact account_close hl hsent rfl rfl
  | finish hp =>
    obtain ⟨-, hl, hsent⟩ := ha.ledger (ne_closed_of_live (isLive_of_closing hp))
    rw [List.map_nil, List.append_nil]
    exact account_close hl hsent rfl rfl
  | send hlv htake =>
    obtain ⟨hnext, hl, hsent⟩ := ha.ledger (ne_closed_of_live hlv)
    obtain ⟨hl, hsent⟩ := ledger_send htake hl hsent
    rw [List.map_nil, List.append_nil]
    have hnext := (take?_eq_some htake).2.2.trans hnext
    exact ⟨_, _, .going (ne_closed_of_live hlv) hnext rfl hl hsent⟩
  | @sendAnswer _ _ m _ _ hp htake =>
    obtain ⟨hnext, hl, hsent⟩ := ha.ledger (hopen hp)
    obtain ⟨hl, hsent⟩ := ledger_send htake hl hsent
    -- the reply is accepted by the agenda that the message has left
    have hstopped := (stopped_of_take htake).trans (hs.isOpen hp).1
    have hnext := (take?_eq_some htake).2.2.trans hnext
    obtain ⟨hnext, hl⟩ := ledger_plan hstopped hnext hl [m]
    exact ⟨_, _, .going (hopen hp) hnext rfl hl hsent⟩
  | @sendLast _ _ code reason _ task _ hlv htake =>
    obtain ⟨-, hl, hsent⟩ := ha.ledger (ne_closed_of_live hlv)
    obtain ⟨hl, hsent⟩ := ledger_send htake hl hsent
    have hclose : s.sent ++ [⟨s.now, .ofPayload task.item.payload⟩,
        ⟨s.now, .close code (cutReason reason)⟩] =
        (done ++ [task]).map taskSent ++ [⟨s.now, .close code (cutReason reason)⟩] := by
      rw [← hsent, List.append_assoc]
      rfl
    rw [List.map_nil, List.append_nil]
    exact ⟨_, _, .ended rfl hl hclose⟩

/-- There is an account of a session after every run in time. -/
theorem Sound.account_run {s : Session} (hs : s.Sound) (hf : s.script.failure = none)
    {is : List Input} (ht : s.Timely is) {log : List Entry}
    {done waiting : List (Agenda.Task Message)} (ha : s.Account log done waiting) :
    ∃ done waiting, (s.run is).Account (log ++ s.book is) done waiting := by
  induction is generalizing s log done waiting with
  | nil =>
    rw [book, List.append_nil]
    exact ⟨done, waiting, ha⟩
  | cons i is ih =>
    obtain ⟨done', waiting', ha'⟩ := (hs.turn i).account hs hf ht.1 ha
    have hf' : (s.step i).script.failure = none := by rw [script_turn (hs.turn i), hf]
    rw [book, ← List.append_assoc]
    exact ih (hs.step i) hf' ht.2 ha'

/-! ### What comes later -/

theorem Turn.now_le {s u : Session} {i : Input} {ts : List Trigger} {ms : List Message}
    (h : Turn s i ts ms u) : s.now ≤ u.now := by
  cases h with
  | elapse n => exact Nat.le_add_right _ _
  | _ => exact Nat.le_refl _

/-- What a run accepts, it accepts from now on. -/
theorem Sound.now_le_book {s : Session} (hs : s.Sound) {is : List Input} {e : Entry}
    (he : e ∈ s.book is) : s.now ≤ e.time := by
  induction is generalizing s with
  | nil => cases he
  | cons i is ih =>
    rw [book] at he
    rcases List.mem_append.mp he with he | he
    · obtain ⟨m, -, rfl⟩ := List.mem_map.mp he
      exact Nat.le_refl _
    · exact Nat.le_trans (hs.turn i).now_le (ih (hs.step i) he)

/-- What is due at some point of a run goes before all that the run accepts from there on. -/
theorem Sound.due_before {s : Session} (hs : s.Sound) {log : List Entry}
    {done waiting : List (Agenda.Task Message)} (ha : s.Account log done waiting)
    {u : Agenda.Task Message} (hu : u ∈ s.agenda.tasks) (hdue : u.due ≤ s.now)
    (is : List Input) :
    u ∈ tasks log ∧
      ∀ t ∈ tasks (log ++ s.book is), log.length ≤ t.number → u.Before t := by
  have hp : s.phase ≠ .closed := by
    intro hp
    rw [(hs.closed hp).1] at hu
    cases hu
  obtain ⟨-, hl, -⟩ := ha.ledger hp
  have hmem : u ∈ tasks log := hl.perm.mem_iff.mp (List.mem_append_right done hu)
  refine ⟨hmem, fun t ht hnumber => ?_⟩
  obtain ⟨e, he, hte⟩ := mem_tasks_append ht hnumber
  have hunumber := hl.numbers u hmem
  rw [length_tasks] at hunumber
  refine Agenda.Task.before_of_number ?_ (Nat.lt_of_lt_of_le hunumber hnumber)
  calc u.due ≤ s.now := hdue
    _ ≤ e.time := hs.now_le_book he
    _ ≤ t.due := by rw [hte]; exact Nat.le_add_right _ _

/-- A message that is due goes out next, unless the session closes since it waits no longer. -/
theorem Sound.emit_due {s : Session} (hs : s.Sound) {log : List Entry}
    {done waiting : List (Agenda.Task Message)} (ha : s.Account log done waiting)
    {u : Agenda.Task Message} {rest : List (Agenda.Task Message)}
    (hu : s.agenda.tasks = u :: rest) (hdue : u.due ≤ s.now) :
    s.sent ++ [taskSent u] <+: (s.step .emit).sent ∨
      s.phase = .closing ∧ s.closeTimeout ≤ u.item.delay ∧ (s.step .emit).phase = .closed := by
  have htake : s.agenda.take? s.now = some (u, ⟨rest, s.agenda.next, s.agenda.stopped⟩) := by
    rw [Agenda.take?, hu]
    simp only [if_pos hdue]
  have hlv : s.isLive = true := hs.live_of_take htake
  obtain ⟨-, hl, -⟩ := ha.ledger (ne_closed_of_live hlv)
  rw [hu] at hl
  have hnow : u.due = s.now := (hl.take hdue).1
  rw [step_emit_of_take htake]
  by_cases hawait : s.isAwaited u.item = true
  · have hlive : ({ s with agenda := ⟨rest, s.agenda.next, s.agenda.stopped⟩ } :
        Session).isLive = true := hlv
    rw [if_pos hawait, taskSent, hnow]
    exact Or.inl (sent_prefix_deliver hlive u.item)
  · have hnot : s.phase = .closing ∧ s.closeTimeout ≤ u.item.delay ∧ u.item.delay ≠ 0 := by
      simpa [isAwaited, and_assoc] using hawait
    rw [if_neg hawait, finish, close_of_live hlv]
    exact Or.inr ⟨hnot.1, hnot.2.1, rfl⟩

/-! ### Scripts that fail -/

/-- What a script that fails sends. -/
def failureSent (f : Failure) (time : Nat) : List Sent :=
  [⟨time, .ofPayload f.message.payload⟩, ⟨time, .close internalError (cutReason f.cause)⟩]

/-- A session with a failing script accepts no message, and sends nothing but the message and the
close of its failure. -/
theorem Turn.failing {s u : Session} {i : Input} {ts : List Trigger} {ms : List Message}
    (h : Turn s i ts ms u) (hs : s.Sound) {f : Failure} (hf : s.script.failure = some f) :
    ms = [] ∧ (u.sent = s.sent ∨ s.phase = .pending ∧ u.sent = s.sent ++ failureSent f s.now) := by
  have hdead (hl : s.isLive = true) : False := by
    have hnone := hs.failure_of_live hl
    rw [hf] at hnone
    cases hnone
  -- only the turns of a session that is not live are left, and the one that fails
  cases h with
  | still => exact ⟨rfl, Or.inl rfl⟩
  | elapse => exact ⟨rfl, Or.inl rfl⟩
  | begin _ hnone => rw [hf] at hnone; cases hnone
  | drain _ hnone => rw [hf] at hnone; cases hnone
  | fail hp hfail =>
    rw [hf] at hfail
    cases hfail
    exact ⟨rfl, Or.inr ⟨hp, rfl⟩⟩
  | answer hp => exact (hdead (isLive_of_open hp)).elim
  | reject hl => exact (hdead hl).elim
  | abandon => exact ⟨rfl, Or.inl rfl⟩
  | leave hl => exact (hdead hl).elim
  | finish hp => exact (hdead (isLive_of_closing hp)).elim
  | send hl => exact (hdead hl).elim
  | sendAnswer hp => exact (hdead (isLive_of_open hp)).elim
  | sendLast _ _ _ _ hl => exact (hdead hl).elim

/-- A session with a failing script sends nothing but the message and the close of its failure. -/
theorem Sound.failing_run {s : Session} (hs : s.Sound) {f : Failure}
    (hf : s.script.failure = some f)
    (hsent : s.sent = [] ∨ ∃ time, s.sent = failureSent f time) (is : List Input) :
    s.book is = [] ∧ ((s.run is).sent = [] ∨ ∃ time, (s.run is).sent = failureSent f time) := by
  induction is generalizing s with
  | nil => exact ⟨rfl, hsent⟩
  | cons i is ih =>
    obtain ⟨hms, hstep⟩ := (hs.turn i).failing hs hf
    have hf' : (s.step i).script.failure = some f := by rw [script_turn (hs.turn i), hf]
    have hsent' : (s.step i).sent = [] ∨ ∃ time, (s.step i).sent = failureSent f time := by
      rcases hstep with heq | ⟨hp, heq⟩
      · rw [heq]
        exact hsent
      · rw [(hs.pending hp).2, List.nil_append] at heq
        exact Or.inr ⟨s.now, heq⟩
    rw [book, hms, List.map_nil, List.nil_append]
    exact ih (hs.step i) hf' hsent'

/-! ### Delivery -/

/-- **Delivery.** In every run of a session in which no time passes beyond a message that waits:

* the messages that were accepted are done or wait, each on one side only, and in order;
* the data that was sent is what is done, each message at the time at which it is due;
* while the session is not closed, the others wait on its agenda, and none is late;
* the first of them goes out when it is due, unless a closing session waits no longer: then it
  closes;
* a closed session sends nothing more, and it closed no later than any of the others was due, if
  it accepted anything at all;
* what is due at some point, as when a message is sent, goes before all that is accepted from there
  on, also without delay;
* a script that fails accepts nothing, and sends at most its message and then a close. -/
theorem delivery (script : Script) (closeTimeout now : Nat) (is : List Input)
    (h : (start script closeTimeout now).Timely is) :
    let s₀ := start script closeTimeout now
    let s := s₀.run is
    let all := tasks (s₀.book is)
    (script.failure = none →
      (∃ done waiting,
        (done ++ waiting).Perm all ∧
        (done ++ waiting).Pairwise Agenda.Task.Before ∧
        s.sent.filter (fun f => !f.frame.isClose) = done.map taskSent ∧
        (s.phase ≠ .closed → waiting = s.agenda.tasks ∧ ∀ t ∈ waiting, s.now ≤ t.due) ∧
        (s.phase = .closed →
          (∀ more, (s.run more).sent = s.sent) ∧
          (all = [] ∧ s.sent = [] ∨
            ∃ time code reason, s.sent = done.map taskSent ++ [⟨time, .close code reason⟩] ∧
              (∀ t ∈ done, t.due ≤ time) ∧ ∀ t ∈ waiting, time ≤ t.due))) ∧
      (∀ u rest, s.agenda.tasks = u :: rest → u.due ≤ s.now →
        s.sent ++ [taskSent u] <+: (s.step .emit).sent ∨
          s.phase = .closing ∧ s.closeTimeout ≤ u.item.delay ∧
            (s.step .emit).phase = .closed) ∧
      ∀ pre post, is = pre ++ post →
        ∀ u ∈ (s₀.run pre).agenda.tasks, u.due ≤ (s₀.run pre).now →
          u ∈ all ∧ ∀ t ∈ all, (s₀.book pre).length ≤ t.number → u.Before t) ∧
    (∀ f, script.failure = some f → all = [] ∧
      (s.sent = [] ∨ ∃ time, s.sent = [⟨time, .ofPayload f.message.payload⟩,
        ⟨time, .close 1011 (cutReason f.cause)⟩])) := by
  intro s₀ s all
  have hs₀ : s₀.Sound := sound_start script closeTimeout now
  have hs : s.Sound := hs₀.run is
  refine ⟨fun hf => ⟨?_, ?_, ?_⟩, fun f hf => ?_⟩
  · obtain ⟨done, waiting, ha⟩ :=
      hs₀.account_run hf h (account_start script closeTimeout now)
    refine ⟨done, waiting, ha.perm, ha.order, ha.data, ?_, ?_⟩
    · intro hp
      cases ha with
      | going _ _ hw hl _ => exact ⟨hw, hl.future⟩
      | ended hp' => exact absurd hp' hp
      | silent hp' => exact absurd hp' hp
    · intro hp
      refine ⟨hs.sent_run_of_closed hp, ?_⟩
      cases ha with
      | going hp' => exact absurd hp hp'
      | ended _ hl hsent => exact Or.inr ⟨_, _, _, hsent, hl.past, hl.future⟩
      | silent _ hlog hsent _ _ =>
        refine Or.inl ⟨?_, hsent⟩
        rw [List.nil_append] at hlog
        simp only [all, hlog]
        rfl
  · -- a due message is sent next, unless the timeout of a closing session is over
    intro u rest hu hdue
    obtain ⟨_, _, ha⟩ := hs₀.account_run hf h (account_start script closeTimeout now)
    exact hs.emit_due ha hu hdue
  · -- what comes up later is accepted later, and so it has a greater number
    rintro pre post rfl u hu hdue
    obtain ⟨_, _, ha⟩ :=
      hs₀.account_run hf h.of_append (account_start script closeTimeout now)
    obtain ⟨hmem, hbefore⟩ := (hs₀.run pre).due_before ha hu hdue post
    simp only [all]
    rw [book_append]
    exact ⟨tasks_subset_append _ _ hmem, hbefore⟩
  · obtain ⟨hbook, hsent⟩ := hs₀.failing_run hf (Or.inl rfl) is
    refine ⟨?_, hsent⟩
    simp only [all, hbook]
    rfl

/-- The reply to the first of two messages goes out after the second, and before one that is due
later but was accepted earlier. -/
theorem delivery_chained :
    let message (text : String) (delay : Nat) : Message := ⟨.text text, delay, true, none⟩
    let script : Script :=
      ⟨[message "a" 0, message "b" 0], [message "c" 10], [(.sent "a", message "d" 0)], none⟩
    let is : List Input := [.opened, .emit, .emit, .emit, .elapse 10, .emit]
    let s₀ := start script 2000 0
    s₀.Timely is ∧
      tasks (s₀.book is) =
        [⟨0, 0, message "a" 0⟩, ⟨0, 1, message "b" 0⟩, ⟨10, 2, message "c" 10⟩,
          ⟨0, 3, message "d" 0⟩] ∧
      ∃ done waiting : List (Agenda.Task Message), (done ++ waiting).Perm (tasks (s₀.book is)) ∧
        (done ++ waiting).Pairwise Agenda.Task.Before ∧
        done.map taskSent =
          [⟨0, .text "a"⟩, ⟨0, .text "b"⟩, ⟨0, .text "d"⟩, ⟨10, .text "c"⟩] := by
  intro message script is s₀
  have htimely : s₀.Timely is := by decide +kernel
  have hall : tasks (s₀.book is) =
      [⟨0, 0, message "a" 0⟩, ⟨0, 1, message "b" 0⟩, ⟨10, 2, message "c" 10⟩,
        ⟨0, 3, message "d" 0⟩] := by decide +kernel
  have hsent : (s₀.run is).sent.filter (fun f => !f.frame.isClose) =
      [⟨0, .text "a"⟩, ⟨0, .text "b"⟩, ⟨0, .text "d"⟩, ⟨10, .text "c"⟩] := by decide +kernel
  obtain ⟨done, waiting, hperm, horder, hdata, -⟩ :=
    ((delivery script 2000 0 is htimely).1 rfl).1
  exact ⟨htimely, hall, done, waiting, hperm, horder, hdata.symm.trans hsent⟩

end Session

end Understudy
