import Understudy.Session

/-!
# Understudy.Proofs.Session.Step

What one step of a session can do.

The steps of a session share a handful of ends: nothing happens, time passes, the script begins, a
reply is put on the agenda, a message goes out, the session closes. `Turn` lists them, each with the
triggers that were looked up on the way, the messages that were accepted, and the session after it
as one update of the fields. `Sound.turn` says that every step is one of them. Proofs about runs
take `Turn` apart and never open the steps again.

`Sound` is what every reachable session keeps (`sound_run`): it is what makes the list this short. A
session that is not open has nothing on its agenda, and one that is closing has no triggers. No step
registers a trigger or drops one, also not when the last of its replies is used (`keys_use`).
-/

namespace Understudy

/-! ### What is left of queues -/

/-- Whether queues are what is left of some items: each key still has a queue, and in it are the
last ones of its items, in order. -/
structure QueueMap.LeftOf {κ α : Type} [DecidableEq κ] (left : QueueMap κ α)
    (items : Queues κ α) : Prop where
  keys : left.keys = items.keys
  queue : ∀ key q, left.queue? key = some q → q <:+ items.queue key

section LeftOf

variable {κ α : Type} [DecidableEq κ]

/-- At first every queue is whole. -/
theorem Queues.leftOf_toMap (items : Queues κ α) : items.toMap.LeftOf items where
  keys := items.keys_toMap
  queue := by
    intro key q hq
    rw [queue?_toMap] at hq
    split at hq
    · obtain rfl := Option.some.inj hq
      exact List.suffix_refl _
    · cases hq

/-- What is left keeps being the ends of the queues when the first of one goes. -/
theorem QueueMap.LeftOf.dropFirst {left : QueueMap κ α} {items : Queues κ α}
    (h : left.LeftOf items) (key : κ) : (left.dropFirst key).LeftOf items where
  keys := by rw [keys_dropFirst, h.keys]
  queue := by
    intro other q hq
    rw [queue?_dropFirst] at hq
    split at hq
    · obtain ⟨p, hp, rfl⟩ := Option.map_eq_some_iff.mp hq
      exact (List.tail_suffix p).trans (h.queue other p hp)
    · exact h.queue other q hq

end LeftOf

namespace Session

/-! ### Parts of steps as updates -/

theorem isLive_iff {s : Session} :
    s.isLive = true ↔ s.phase = .open ∨ s.phase = .closing := by
  simp [isLive]

theorem isLive_of_open {s : Session} (h : s.phase = .open) : s.isLive = true :=
  isLive_iff.mpr (Or.inl h)

theorem isLive_of_closing {s : Session} (h : s.phase = .closing) : s.isLive = true :=
  isLive_iff.mpr (Or.inr h)

theorem ne_closed_of_live {s : Session} (h : s.isLive = true) : s.phase ≠ .closed := by
  rcases isLive_iff.mp h with hp | hp <;> simp [hp]

theorem send_of_live {s : Session} (h : s.isLive = true) (frame : Frame) :
    s.send frame = { s with sent := s.sent ++ [⟨s.now, frame⟩] } := by
  rw [send, if_pos h]

theorem isClosed_of_live {s : Session} (h : s.isLive = true) : s.isClosed = false := by
  simp [isClosed, ne_closed_of_live h]

/-- A live session closes with a frame. -/
theorem close_of_live {s : Session} (h : s.isLive = true) (code : UInt16) (reason : String) :
    s.close code reason =
      { s with
        phase := .closed
        agenda := s.agenda.cancel
        sent := s.sent ++ [⟨s.now, .close code (cutReason reason)⟩]
        events := s.events ++ [.closed] } := by
  rw [close, if_neg (by simp [isClosed_of_live h]), send_of_live h]
  rfl

/-- A session that never opened closes without a frame. -/
theorem close_of_pending {s : Session} (h : s.phase = .pending) (code : UInt16)
    (reason : String) :
    s.close code reason =
      { s with
        phase := .closed
        agenda := s.agenda.cancel
        events := s.events ++ [.closed] } := by
  have hlive : s.isLive = false := by simp [isLive, h]
  rw [close, if_neg (by simp [isClosed, h]), send, if_neg (by simp [hlive])]
  rfl

theorem close_of_closed {s : Session} (h : s.phase = .closed) (code : UInt16)
    (reason : String) : s.close code reason = s := by
  rw [close, if_pos (by simp [isClosed, h])]

/-- What a live session does not expect closes it with a reason that names it. -/
theorem reject_of_live {s : Session} (h : s.isLive = true) (what : String) :
    s.reject what =
      { s with
        phase := .closed
        agenda := s.agenda.cancel
        sent := s.sent ++ [⟨s.now, .close protocolError (cutReason (unexpectedReason ++ what))⟩]
        events := s.events ++ [.unexpected, .closed] } := by
  have hlive : (s.count .unexpected).isLive = true := h
  rw [reject, close_of_live hlive]
  simp [count]

/-- Using a trigger changes nothing but the replies. -/
theorem use_eq (t : Trigger) (s : Session) :
    s.use t = { s with replies := (s.use t).replies } := by
  unfold use
  split
  · split <;> rfl
  · rfl

/-- Using a reply leaves its trigger registered. -/
@[simp] theorem keys_use (t : Trigger) (s : Session) :
    (s.use t).replies.keys = s.replies.keys := by
  unfold use
  split
  · split
    · exact QueueMap.keys_dropFirst _ _
    · rfl
  · rfl

theorem closeIfFinished_of_triggers {s : Session} (h : s.replies ≠ []) :
    s.closeIfFinished = s := by
  rw [closeIfFinished, if_neg (fun hc => h hc.2)]

/-- The agenda with messages that wait from a time on, each for as long as it says. -/
def plan (now : Nat) (ms : List Message) (a : Agenda Message) : Agenda Message :=
  ms.foldl (fun a m => a.schedule (now + m.delay) m) a

@[simp] theorem plan_nil (now : Nat) (a : Agenda Message) : plan now [] a = a := rfl

@[simp] theorem plan_cons (now : Nat) (m : Message) (ms : List Message) (a : Agenda Message) :
    plan now (m :: ms) a = plan now ms (a.schedule (now + m.delay) m) := rfl

theorem foldl_schedule (ms : List Message) (s : Session) :
    ms.foldl (fun s m => s.schedule m) s = { s with agenda := plan s.now ms s.agenda } := by
  induction ms generalizing s with
  | nil => rfl
  | cons m ms ih => rw [List.foldl_cons, ih]; rfl

/-! ### What a step looks up and accepts -/

/-- The reply that was found, if there is one. -/
def Found.replies : Found → List Message
  | .reply m => [m]
  | _ => []

/-- Those of some triggers that are looked up: they are tried up to the first that has a queue. -/
def tried (s : Session) : List Trigger → List Trigger
  | [] => []
  | t :: ts => if s.lookup t = .unregistered then t :: s.tried ts else [t]

/-- The triggers that a step looks up, in order. -/
def lookups (s : Session) : Input → List Trigger
  | .message text => if s.phase = .open then [.message text] else []
  | .binary octets => if s.phase = .open then [.message (Utf8.decodeLossy octets)] else []
  | .request r => if s.phase = .open then s.tried (r.keys.map .request) else []
  | .emit =>
    match s.agenda.take? s.now with
    | some (task, _) =>
      if s.isLive ∧ s.isAwaited task.item ∧ task.item.closingCode = none then
        [.sent task.item.payload.asText]
      else []
    | none => []
  | .sendDue =>
    match s.agenda.take? s.now with
    | some (task, _) =>
      if s.isLive ∧ task.item.closingCode = none then [.sent task.item.payload.asText] else []
    | none => []
  | _ => []

/-- The messages that a step accepts for scheduling, in order: those of the script when the session
opens, and the replies that were found. -/
def accepted (s : Session) : Input → List Message
  | .opened =>
    if s.phase = .pending ∧ s.script.failure = none then s.script.opening ++ s.script.timed
    else []
  | i => (s.lookups i).flatMap fun t => (s.lookup t).replies

/-! ### Sound sessions -/

/-- What holds of a session at every point of a run. -/
structure Sound (s : Session) : Prop where
  /-- The replies that are left are those of the script, but for some that have been used. -/
  replies : s.replies.LeftOf s.script.replies
  /-- Nothing has happened before the session opens. -/
  pending : s.phase = .pending → s.agenda = .empty ∧ s.sent = []
  /-- An open session accepts messages, and has triggers to wait for. -/
  isOpen : s.phase = .open → s.agenda.stopped = false ∧ s.script.replies ≠ []
  /-- A closing session accepts nothing more, and nothing can ask it to. -/
  closing : s.phase = .closing → s.agenda.stopped = true ∧ s.script.replies = []
  /-- A closed session has nothing to do. -/
  closed : s.phase = .closed → s.agenda.tasks = [] ∧ s.agenda.stopped = true
  /-- A script that fails is never under way. -/
  failing : s.script.failure ≠ none → s.isLive = false

theorem sound_start (script : Script) (closeTimeout now : Nat) :
    (start script closeTimeout now).Sound where
  replies := script.replies.leftOf_toMap
  pending := fun _ => ⟨rfl, rfl⟩
  isOpen := fun h => by cases h
  closing := fun h => by cases h
  closed := fun h => by cases h
  failing := fun _ => rfl

theorem Sound.pending_or_closed {s : Session} (hs : s.Sound) (h : s.isLive = false) :
    s.agenda.tasks = [] := by
  cases hp : s.phase with
  | pending => rw [(hs.pending hp).1]; rfl
  | «open» => rw [isLive_of_open hp] at h; cases h
  | closing => rw [isLive_of_closing hp] at h; cases h
  | closed => exact (hs.closed hp).1

theorem take?_of_tasks_nil {now : Nat} {a : Agenda Message} (h : a.tasks = []) :
    a.take? now = none := by
  rw [Agenda.take?, h]

/-- A task can only be taken while the session is live. -/
theorem Sound.live_of_take {s : Session} (hs : s.Sound) {task : Agenda.Task Message}
    {rest : Agenda Message} (h : s.agenda.take? s.now = some (task, rest)) :
    s.isLive = true := by
  cases hl : s.isLive with
  | true => rfl
  | false =>
    rw [take?_of_tasks_nil (hs.pending_or_closed hl)] at h
    cases h

/-- The session has triggers exactly if its script has. -/
theorem Sound.replies_eq_nil_iff {s : Session} (hs : s.Sound) :
    s.replies = [] ↔ s.script.replies = [] := by
  rw [← Queues.keys_eq_nil_iff s.script.replies, ← hs.replies.keys, QueueMap.keys,
    List.map_eq_nil_iff]

/-- A session that is closing finds no reply to anything. -/
theorem Sound.lookup_of_closing {s : Session} (hs : s.Sound) (h : s.phase = .closing)
    (t : Trigger) : s.lookup t = .unregistered := by
  have hreplies : s.replies = [] := hs.replies_eq_nil_iff.mpr (hs.closing h).2
  rw [lookup, hreplies]
  rfl

/-- A session that finds a reply, and can send it, is open. -/
theorem Sound.open_of_lookup {s : Session} (hs : s.Sound) (hl : s.isLive = true)
    {t : Trigger} (h : s.lookup t ≠ .unregistered) : s.phase = .open := by
  rcases isLive_iff.mp hl with hp | hp
  · exact hp
  · exact absurd (hs.lookup_of_closing hp t) h

/-- Using a reply keeps the others what is left of the script. -/
theorem Sound.leftOf_use {s : Session} (hs : s.Sound) (t : Trigger) :
    (s.use t).replies.LeftOf s.script.replies := by
  unfold use
  split
  · split
    · exact hs.replies.dropFirst t
    · exact hs.replies
  · exact hs.replies

/-! ### Turns -/

/-- `Turn s i ts ms u`: in the session `s`, the step `i` can look up the triggers `ts`, accept the
messages `ms` for scheduling, and lead to the session `u`. -/
inductive Turn (s : Session) : Input → List Trigger → List Message → Session → Prop
  /-- Nothing happens. -/
  | still {i : Input} {ts : List Trigger} :
      (i = .opened → s.phase ≠ .pending) →
      (∀ t ∈ ts, s.lookup t = .unregistered) →
      Turn s i ts [] s
  /-- Time passes. -/
  | elapse (milliseconds : Nat) :
      Turn s (.elapse milliseconds) [] [] { s with now := s.now + milliseconds }
  /-- The script begins, and there is something to wait for. -/
  | begin :
      s.phase = .pending → s.script.failure = none → s.script.replies ≠ [] →
      Turn s .opened [] (s.script.opening ++ s.script.timed)
        { s with
          phase := .open
          agenda := plan s.now (s.script.opening ++ s.script.timed) s.agenda
          events := s.events ++ [.opened] }
  /-- The script begins, and all that is left is to send what it says. -/
  | drain :
      s.phase = .pending → s.script.failure = none → s.script.replies = [] →
      Turn s .opened [] (s.script.opening ++ s.script.timed)
        { s with
          phase := .closing
          deadline := s.now + s.closeTimeout
          agenda := (plan s.now (s.script.opening ++ s.script.timed) s.agenda).stop
          events := s.events ++ [.opened] }
  /-- The script fails as soon as it begins. -/
  | fail {failure : Failure} :
      s.phase = .pending → s.script.failure = some failure →
      Turn s .opened [] []
        { s with
          phase := .closed
          agenda := s.agenda.cancel
          sent := s.sent ++ [⟨s.now, .ofPayload failure.message.payload⟩,
            ⟨s.now, .close internalError (cutReason failure.cause)⟩]
          events := s.events ++ [.opened, .failed, .closed] }
  /-- A reply is found, and accepted. -/
  | answer {i : Input} {ts : List Trigger} {t : Trigger} {m : Message} :
      s.phase = .open → (∀ u ∈ ts, s.lookup u = .unregistered) → s.lookup t = .reply m →
      Turn s i (ts ++ [t]) [m]
        { s with
          replies := (s.use t).replies
          agenda := plan s.now [m] s.agenda }
  /-- Something unexpected closes the session. -/
  | reject {i : Input} {ts : List Trigger} {what : String} :
      s.isLive = true → (∀ t ∈ ts, ∀ m, s.lookup t ≠ .reply m) →
      Turn s i ts []
        { s with
          phase := .closed
          agenda := s.agenda.cancel
          sent := s.sent ++ [⟨s.now, .close protocolError (cutReason (unexpectedReason ++ what))⟩]
          events := s.events ++ [.unexpected, .closed] }
  /-- The peer closes before the session has opened. -/
  | abandon {code : UInt16} {reason : String} :
      s.phase = .pending →
      Turn s (.closed code reason) [] []
        { s with
          phase := .closed
          agenda := s.agenda.cancel
          events := s.events ++ [.closed] }
  /-- The peer closes. -/
  | leave {code : UInt16} {reason : String} :
      s.isLive = true →
      Turn s (.closed code reason) [] []
        { s with
          phase := .closed
          agenda := s.agenda.cancel
          sent := s.sent ++ [⟨s.now, .close code (cutReason reason)⟩]
          events := s.events ++ [.closed] }
  /-- A session that was closing has nothing left to wait for. -/
  | finish :
      s.phase = .closing →
      Turn s .emit [] []
        { s with
          phase := .closed
          agenda := s.agenda.cancel
          sent := s.sent ++ [⟨s.now, .close normalClosure (cutReason closingReason)⟩]
          events := s.events ++ [.closed] }
  /-- A message is sent, and nothing follows it. -/
  | send {i : Input} {ts : List Trigger} {task : Agenda.Task Message} {rest : Agenda Message} :
      s.isLive = true → s.agenda.take? s.now = some (task, rest) →
      (∀ t ∈ ts, s.lookup t = .unregistered) →
      Turn s i ts []
        { s with
          agenda := rest
          sent := s.sent ++ [⟨s.now, .ofPayload task.item.payload⟩] }
  /-- A message is sent, and the reply that follows it is accepted. -/
  | sendAnswer {i : Input} {t : Trigger} {m : Message} {task : Agenda.Task Message}
      {rest : Agenda Message} :
      s.phase = .open → s.agenda.take? s.now = some (task, rest) → s.lookup t = .reply m →
      Turn s i [t] [m]
        { s with
          replies := (s.use t).replies
          agenda := plan s.now [m] rest
          sent := s.sent ++ [⟨s.now, .ofPayload task.item.payload⟩] }
  /-- A message is sent that closes the session, or that should have been followed by another. -/
  | sendLast {i : Input} (ts : List Trigger) (code : UInt16) (reason : String)
      (events : List Event) {task : Agenda.Task Message} {rest : Agenda Message} :
      s.isLive = true → s.agenda.take? s.now = some (task, rest) →
      (∀ t ∈ ts, ∀ m, s.lookup t ≠ .reply m) →
      (task.item.closingCode = some code ∧ reason = "" ∧ events = [.closed] ∨
        code = protocolError ∧ events = [.unexpected, .closed]) →
      Turn s i ts []
        { s with
          phase := .closed
          agenda := rest.cancel
          sent := s.sent ++ [⟨s.now, .ofPayload task.item.payload⟩,
            ⟨s.now, .close code (cutReason reason)⟩]
          events := s.events ++ events }

theorem flatMap_replies_of_not_reply {s : Session} {ts : List Trigger}
    (h : ∀ t ∈ ts, ∀ m, s.lookup t ≠ .reply m) :
    ts.flatMap (fun t => (s.lookup t).replies) = [] := by
  rw [List.flatMap_eq_nil_iff]
  intro t ht
  cases hf : s.lookup t with
  | reply m => exact absurd hf (h t ht m)
  | exhausted => rfl
  | unregistered => rfl

theorem not_reply_of_unregistered {s : Session} {ts : List Trigger}
    (h : ∀ t ∈ ts, s.lookup t = .unregistered) : ∀ t ∈ ts, ∀ m, s.lookup t ≠ .reply m := by
  intro t ht m hm
  rw [h t ht] at hm
  cases hm

theorem flatMap_replies_singleton {s : Session} {t : Trigger} {m : Message}
    (ht : s.lookup t = .reply m) : [t].flatMap (fun t => (s.lookup t).replies) = [m] := by
  simp [ht, Found.replies]

theorem flatMap_replies_concat {s : Session} {ts : List Trigger} {t : Trigger} {m : Message}
    (h : ∀ u ∈ ts, s.lookup u = .unregistered) (ht : s.lookup t = .reply m) :
    (ts ++ [t]).flatMap (fun t => (s.lookup t).replies) = [m] := by
  rw [List.flatMap_append, flatMap_replies_of_not_reply (not_reply_of_unregistered h),
    flatMap_replies_singleton ht]
  rfl

/-- An open session that finds a reply keeps waiting for more. -/
theorem Sound.answer_eq {s : Session} (hs : s.Sound) (hp : s.phase = .open) (t : Trigger)
    (m : Message) :
    ((s.use t).schedule m).closeIfFinished =
      { s with replies := (s.use t).replies, agenda := plan s.now [m] s.agenda } := by
  have htriggers : ((s.use t).schedule m).replies ≠ [] := by
    intro hnone
    have hkeys : s.replies.keys = [] := by
      rw [← keys_use t s]
      exact congrArg QueueMap.keys hnone
    rw [hs.replies.keys, Queues.keys_eq_nil_iff] at hkeys
    exact (hs.isOpen hp).2 hkeys
  rw [closeIfFinished_of_triggers htriggers, use_eq]
  rfl

/-- A list of request keys is decided by the first of them that the script knows. -/
theorem onKeys_cases (path : String) (keys : List RequestKey) (s : Session) :
    ((∀ t ∈ s.tried (keys.map .request), s.lookup t = .unregistered) ∧
        s.onKeys path keys = s) ∨
      ∃ ts t, s.tried (keys.map .request) = ts ++ [t] ∧
        (∀ u ∈ ts, s.lookup u = .unregistered) ∧
        ((∃ m, s.lookup t = .reply m ∧
            s.onKeys path keys = ((s.use t).schedule m).closeIfFinished) ∨
          s.lookup t = .exhausted ∧ s.onKeys path keys = s.reject ("from http " ++ path)) := by
  -- on the keys: one without a queue leaves the decision to those after it
  induction keys with
  | nil => exact Or.inl ⟨by simp [tried], rfl⟩
  | cons key keys ih =>
    rw [List.map_cons, tried]
    cases hf : s.lookup (.request key) with
    | reply m =>
      refine Or.inr ⟨[], .request key, by simp, by simp, Or.inl ⟨m, hf, ?_⟩⟩
      rw [onKeys, hf]
    | exhausted =>
      refine Or.inr ⟨[], .request key, by simp, by simp, Or.inr ⟨hf, ?_⟩⟩
      rw [onKeys, hf]
    | unregistered =>
      have hrest : s.onKeys path (key :: keys) = s.onKeys path keys := by
        rw [onKeys, hf]
      rw [if_pos rfl, hrest]
      rcases ih with ⟨hall, heq⟩ | ⟨ts, t, htried, hall, hend⟩
      · refine Or.inl ⟨?_, heq⟩
        intro t ht
        rcases List.mem_cons.mp ht with rfl | ht
        · exact hf
        · exact hall t ht
      · refine Or.inr ⟨.request key :: ts, t, by rw [htried]; rfl, ?_, hend⟩
        intro u hu
        rcases List.mem_cons.mp hu with rfl | hu
        · exact hf
        · exact hall u hu

/-! ### Every step is a turn -/

/-- Opening is a turn: a failing script ends there, one without triggers begins to close, and any
other one goes on. -/
theorem Sound.turn_opened {s : Session} (hs : s.Sound) :
    Turn s .opened (s.lookups .opened) (s.accepted .opened) (s.step .opened) := by
  by_cases hp : s.phase = .pending
  · cases hf : s.script.failure with
    | some failure =>
      have haccepted : s.accepted .opened = [] := by simp [accepted, hf]
      have hstep : s.step .opened =
          { s with
            phase := .closed
            agenda := s.agenda.cancel
            sent := s.sent ++ [⟨s.now, .ofPayload failure.message.payload⟩,
              ⟨s.now, .close internalError (cutReason failure.cause)⟩]
            events := s.events ++ [.opened, .failed, .closed] } := by
        rw [step, onOpen, if_pos hp]
        simp only [count, hf]
        rw [send_of_live (isLive_of_open rfl),
          close_of_live (isLive_of_open rfl)]
        simp
      rw [haccepted, hstep]
      exact Turn.fail hp hf
    | none =>
      have haccepted : s.accepted .opened = s.script.opening ++ s.script.timed := by
        simp [accepted, hp, hf]
      rw [haccepted, step, onOpen, if_pos hp]
      simp only [count, hf]
      rw [foldl_schedule]
      -- the session is finished at once exactly if its script has no triggers
      by_cases hr : s.replies = []
      · rw [closeIfFinished, if_pos ⟨rfl, hr⟩]
        exact Turn.drain hp hf (hs.replies_eq_nil_iff.mp hr)
      · rw [closeIfFinished, if_neg (fun hc => hr hc.2)]
        exact Turn.begin hp hf fun hnone => hr (hs.replies_eq_nil_iff.mpr hnone)
  · have haccepted : s.accepted .opened = [] := by simp [accepted, hp]
    rw [haccepted, step, onOpen, if_neg hp]
    exact Turn.still (fun _ => hp) (by simp [lookups])

/-- A message of the peer is a turn, in text or in octets. -/
theorem Sound.turn_message {s : Session} (hs : s.Sound) {i : Input} (hi : i ≠ .opened)
    {text : String}
    (hlook : s.lookups i = if s.phase = .open then [.message text] else [])
    (hstep : s.step i = s.onMessage text) (hacc : s.accepted i =
      (s.lookups i).flatMap fun t => (s.lookup t).replies) :
    Turn s i (s.lookups i) (s.accepted i) (s.step i) := by
  rw [hacc, hlook, hstep, onMessage]
  cases hp : s.phase with
  | pending => exact Turn.still (fun h => absurd h hi) (by simp)
  | closed => exact Turn.still (fun h => absurd h hi) (by simp)
  -- a closing session expects nothing any more
  | closing =>
    have hl : s.isLive = true := isLive_of_closing hp
    simp only [reduceCtorEq, if_false, List.flatMap_nil]
    rw [reject_of_live hl]
    exact Turn.reject hl (by simp)
  | «open» =>
    have hl : s.isLive = true := isLive_of_open hp
    simp only [if_true]
    cases hf : s.lookup (.message text) with
    | reply m =>
      rw [flatMap_replies_singleton hf]
      simp only
      rw [hs.answer_eq hp]
      show Turn s i ([] ++ [.message text]) [m] _
      exact Turn.answer hp (by simp) hf
    | exhausted =>
      have hno : ∀ t ∈ [Trigger.message text], ∀ m, s.lookup t ≠ .reply m := by simp [hf]
      rw [flatMap_replies_of_not_reply hno]
      simp only
      rw [reject_of_live hl]
      exact Turn.reject hl hno
    | unregistered =>
      have hno : ∀ t ∈ [Trigger.message text], ∀ m, s.lookup t ≠ .reply m := by simp [hf]
      rw [flatMap_replies_of_not_reply hno]
      simp only
      rw [reject_of_live hl]
      exact Turn.reject hl hno

/-- A request to the server is a turn. -/
theorem Sound.turn_request {s : Session} (hs : s.Sound) (r : Request) :
    Turn s (.request r) (s.lookups (.request r)) (s.accepted (.request r))
      (s.step (.request r)) := by
  rw [accepted, lookups, step, onRequest]
  · by_cases hp : s.phase = .open
    · simp only [if_pos hp]
      have hl : s.isLive = true := isLive_of_open hp
      -- either no key is registered, or the first one that is decides
      rcases onKeys_cases r.path r.keys s with ⟨hall, heq⟩ | ⟨ts, t, htried, hall, hend⟩
      · rw [heq, flatMap_replies_of_not_reply (not_reply_of_unregistered hall)]
        exact Turn.still (by simp) hall
      · rcases hend with ⟨m, hm, heq⟩ | ⟨hex, heq⟩
        · rw [heq, htried, flatMap_replies_concat hall hm, hs.answer_eq hp]
          exact Turn.answer hp hall hm
        · have hno : ∀ u ∈ ts ++ [t], ∀ m, s.lookup u ≠ .reply m := by
            intro u hu
            rcases List.mem_append.mp hu with hu | hu
            · exact not_reply_of_unregistered hall u hu
            · rw [List.mem_singleton.mp hu, hex]
              intro m hm
              cases hm
          rw [heq, htried, flatMap_replies_of_not_reply hno, reject_of_live hl]
          exact Turn.reject hl hno
    · simp only [if_neg hp, List.flatMap_nil]
      exact Turn.still (by simp) (by simp)
  · simp

/-- The session that has just sent a message from its agenda. -/
def afterSending (s : Session) (task : Agenda.Task Message) (rest : Agenda Message) : Session :=
  { s with
    agenda := rest
    sent := s.sent ++ [⟨s.now, .ofPayload task.item.payload⟩] }

theorem lookup_afterSending (s : Session) (task : Agenda.Task Message) (rest : Agenda Message)
    (t : Trigger) : (s.afterSending task rest).lookup t = s.lookup t := rfl

theorem replies_use_afterSending (s : Session) (task : Agenda.Task Message)
    (rest : Agenda Message) (t : Trigger) :
    ((s.afterSending task rest).use t).replies = (s.use t).replies := by
  unfold use
  simp only [afterSending]
  split
  · split <;> rfl
  · rfl

theorem step_emit_of_take {s : Session} {task : Agenda.Task Message} {rest : Agenda Message}
    (htake : s.agenda.take? s.now = some (task, rest)) :
    s.step .emit =
      if s.isAwaited task.item then ({ s with agenda := rest } : Session).deliver task.item
      else s.finish := by
  rw [step, emit, htake]

/-- A live session that delivers a message sends it first of all. -/
theorem sent_prefix_deliver {s : Session} (hl : s.isLive = true) (m : Message) :
    s.sent ++ [⟨s.now, .ofPayload m.payload⟩] <+: (s.deliver m).sent := by
  have hlive : (s.send (.ofPayload m.payload)).isLive = true := by
    rw [send_of_live hl]
    exact hl
  have hsent : (s.send (.ofPayload m.payload)).sent =
      s.sent ++ [⟨s.now, .ofPayload m.payload⟩] := by rw [send_of_live hl]
  rw [deliver, if_pos hl, ← hsent]
  cases m.closingCode with
  | some code =>
    simp only
    rw [close_of_live hlive]
    exact List.prefix_append _ _
  | none =>
    simp only
    cases (s.send (.ofPayload m.payload)).lookup (.sent m.payload.asText) with
    | reply next =>
      simp only
      rw [use_eq]
      exact List.prefix_rfl
    | exhausted =>
      simp only
      rw [reject_of_live hlive]
      exact List.prefix_append _ _
    | unregistered => exact List.prefix_rfl

/-- Delivering a message that was taken from the agenda of a live session. -/
theorem Sound.turn_deliver {s : Session} (hs : s.Sound) (hl : s.isLive = true)
    {task : Agenda.Task Message} {rest : Agenda Message}
    (htake : s.agenda.take? s.now = some (task, rest)) {i : Input} {ts : List Trigger}
    (hts : ts = if task.item.closingCode = none then [.sent task.item.payload.asText] else []) :
    Turn s i ts (ts.flatMap fun t => (s.lookup t).replies)
      ({ s with agenda := rest }.deliver task.item) := by
  have hlive : ({ s with agenda := rest } : Session).isLive = true := hl
  have hsent : (s.afterSending task rest).isLive = true := hl
  have hsend : ({ s with agenda := rest } : Session).send (.ofPayload task.item.payload) =
      s.afterSending task rest := send_of_live hlive _
  rw [deliver, if_pos hlive, hsend]
  cases hcode : task.item.closingCode with
  -- a closing code ends the session before any reply is looked for
  | some code =>
    have hlast := Turn.sendLast (i := i) [] code "" [.closed] hl htake (by simp)
      (Or.inl ⟨hcode, rfl, rfl⟩)
    rw [hts, hcode, if_neg (by simp)]
    simp only
    rw [close_of_live hsent]
    simpa [afterSending] using hlast
  | none =>
    rw [hts, hcode, if_pos rfl]
    simp only [lookup_afterSending]
    cases hf : s.lookup (.sent task.item.payload.asText) with
    | reply m =>
      have hp : s.phase = .open := hs.open_of_lookup hl (by rw [hf]; simp)
      rw [flatMap_replies_singleton hf]
      simp only
      rw [use_eq, replies_use_afterSending]
      exact Turn.sendAnswer hp htake hf
    | exhausted =>
      have hno : ∀ t ∈ [Trigger.sent task.item.payload.asText], ∀ m, s.lookup t ≠ .reply m := by
        simp [hf]
      have hlast := Turn.sendLast (i := i) [.sent task.item.payload.asText] protocolError
        (unexpectedReason ++ task.item.payload.asText) [.unexpected, .closed] hl htake hno
        (Or.inr ⟨rfl, rfl⟩)
      rw [flatMap_replies_of_not_reply hno]
      simp only
      rw [reject_of_live hsent]
      simpa [afterSending] using hlast
    | unregistered =>
      have hun : ∀ t ∈ [Trigger.sent task.item.payload.asText], s.lookup t = .unregistered := by
        simp [hf]
      rw [flatMap_replies_of_not_reply (not_reply_of_unregistered hun)]
      exact Turn.send hl htake hun

theorem finish_of_closing {s : Session} (h : s.phase = .closing) :
    Turn s .emit [] [] s.finish := by
  rw [finish, close_of_live (isLive_of_closing h)]
  exact Turn.finish h

/-- The timer letting a message out is a turn, and so is its coming to an end. -/
theorem Sound.turn_emit {s : Session} (hs : s.Sound) :
    Turn s .emit (s.lookups .emit) (s.accepted .emit) (s.step .emit) := by
  rw [accepted, lookups, step, emit]
  · cases htake : s.agenda.take? s.now with
    | some found =>
      obtain ⟨task, rest⟩ := found
      have hl : s.isLive = true := hs.live_of_take htake
      by_cases hawait : s.isAwaited task.item = true
      · have hts : (if s.isLive = true ∧ s.isAwaited task.item = true ∧
            task.item.closingCode = none then [Trigger.sent task.item.payload.asText] else []) =
            if task.item.closingCode = none then [.sent task.item.payload.asText] else [] := by
          simp [hl, hawait]
        simp only [if_pos hawait]
        exact hs.turn_deliver hl htake hts
      · -- only a closing session does not wait for a message
        have hp : s.phase = .closing := by
          by_cases hp : s.phase = .closing
          · exact hp
          · exact absurd (by simp [isAwaited, hp]) hawait
        simp only [hawait]
        simpa using finish_of_closing hp
    | none =>
      simp only [List.flatMap_nil]
      by_cases hfin : s.canFinish = true
      · have hp : s.phase = .closing := by
          rw [canFinish, Bool.and_eq_true] at hfin
          exact of_decide_eq_true hfin.1
        rw [if_pos hfin]
        exact finish_of_closing hp
      · rw [if_neg hfin]
        exact Turn.still (by simp) (by simp)
  · simp

/-- Sending what is due is a turn. -/
theorem Sound.turn_sendDue {s : Session} (hs : s.Sound) :
    Turn s .sendDue (s.lookups .sendDue) (s.accepted .sendDue) (s.step .sendDue) := by
  rw [accepted, lookups, step, sendDue]
  · cases htake : s.agenda.take? s.now with
    | some found =>
      obtain ⟨task, rest⟩ := found
      have hl : s.isLive = true := hs.live_of_take htake
      exact hs.turn_deliver hl htake (by simp [hl])
    | none =>
      simp only [List.flatMap_nil]
      exact Turn.still (by simp) (by simp)
  · simp

/-- The end of a connection is a turn. -/
theorem turn_closed (s : Session) (code : UInt16) (reason : String) :
    Turn s (.closed code reason) [] [] (s.close code reason) := by
  cases hp : s.phase with
  | pending =>
    rw [close_of_pending hp]
    exact Turn.abandon hp
  | «open» =>
    have hl := isLive_of_open hp
    rw [close_of_live hl]
    exact Turn.leave hl
  | closing =>
    have hl := isLive_of_closing hp
    rw [close_of_live hl]
    exact Turn.leave hl
  | closed =>
    rw [close_of_closed hp]
    exact Turn.still (by simp) (by simp)

/-- Every step of a sound session is a turn. -/
theorem Sound.turn {s : Session} (hs : s.Sound) (i : Input) :
    Turn s i (s.lookups i) (s.accepted i) (s.step i) := by
  cases i with
  | opened => exact hs.turn_opened
  | message text => exact hs.turn_message (by simp) rfl rfl rfl
  | binary octets => exact hs.turn_message (by simp) rfl rfl rfl
  | request r => exact hs.turn_request r
  | closed code reason => exact turn_closed s code reason
  | elapse milliseconds => exact Turn.elapse milliseconds
  | emit => exact hs.turn_emit
  | sendDue => exact hs.turn_sendDue

/-! ### What a turn keeps -/

/-- Scheduling does not make an agenda accept again. -/
theorem stopped_plan (now : Nat) (ms : List Message) (a : Agenda Message) :
    (plan now ms a).stopped = a.stopped := by
  induction ms generalizing a with
  | nil => rfl
  | cons m ms ih =>
    rw [plan_cons, ih, Agenda.schedule]
    split
    · rfl
    · rename_i h
      simpa using h

theorem stopped_of_take {now : Nat} {a rest : Agenda Message} {task : Agenda.Task Message}
    (h : a.take? now = some (task, rest)) : rest.stopped = a.stopped := by
  unfold Agenda.take? at h
  split at h
  · cases h
  · split at h
    · cases h
      rfl
    · cases h

theorem script_turn {s u : Session} {i : Input} {ts : List Trigger} {ms : List Message}
    (h : Turn s i ts ms u) : u.script = s.script := by
  cases h <;> rfl

/-- A session that is closed, and has dropped what waited, is sound. -/
theorem sound_of_closed {s : Session} (hr : s.replies.LeftOf s.script.replies)
    (hp : s.phase = .closed) (ha : s.agenda.tasks = [] ∧ s.agenda.stopped = true) :
    s.Sound where
  replies := hr
  pending := fun h => by rw [hp] at h; cases h
  isOpen := fun h => by rw [hp] at h; cases h
  closing := fun h => by rw [hp] at h; cases h
  closed := fun _ => ha
  failing := fun _ => by simp [isLive, hp]

/-- A session that is open, still accepts, and has triggers, is sound if its script does not
fail. -/
theorem sound_of_open {s : Session} (hr : s.replies.LeftOf s.script.replies)
    (hp : s.phase = .open) (ha : s.agenda.stopped = false) (ht : s.script.replies ≠ [])
    (hf : s.script.failure = none) : s.Sound where
  replies := hr
  pending := fun h => by rw [hp] at h; cases h
  isOpen := fun _ => ⟨ha, ht⟩
  closing := fun h => by rw [hp] at h; cases h
  closed := fun h => by rw [hp] at h; cases h
  failing := fun h => absurd hf h

/-- A session that is closing, accepts nothing, and has no triggers, is sound if its script does not
fail. -/
theorem sound_of_closing {s : Session} (hr : s.replies.LeftOf s.script.replies)
    (hp : s.phase = .closing) (ha : s.agenda.stopped = true) (ht : s.script.replies = [])
    (hf : s.script.failure = none) : s.Sound where
  replies := hr
  pending := fun h => by rw [hp] at h; cases h
  isOpen := fun h => by rw [hp] at h; cases h
  closing := fun _ => ⟨ha, ht⟩
  closed := fun h => by rw [hp] at h; cases h
  failing := fun h => absurd hf h

theorem Sound.failure_of_live {s : Session} (hs : s.Sound) (hl : s.isLive = true) :
    s.script.failure = none := by
  cases hf : s.script.failure with
  | none => rfl
  | some failure =>
    rw [hs.failing (by simp [hf])] at hl
    cases hl

/-- A turn keeps a session sound. -/
theorem Turn.sound {s u : Session} {i : Input} {ts : List Trigger} {ms : List Message}
    (h : Turn s i ts ms u) (hs : s.Sound) : u.Sound := by
  -- a turn that closes the session has dropped what waited; the others keep the phase's promise
  cases h with
  | still => exact hs
  | elapse n =>
    exact ⟨hs.replies, hs.pending, hs.isOpen, hs.closing, hs.closed, hs.failing⟩
  | begin hp hf hr =>
    refine sound_of_open hs.replies rfl ?_ hr hf
    simp only [stopped_plan, (hs.pending hp).1]
    rfl
  | drain hp hf hr => exact sound_of_closing hs.replies rfl rfl hr hf
  | fail => exact sound_of_closed hs.replies rfl ⟨rfl, rfl⟩
  | answer hp hts hm =>
    refine sound_of_open (hs.leftOf_use _) hp ?_ (hs.isOpen hp).2
      (hs.failure_of_live (isLive_of_open hp))
    simp only [stopped_plan]
    exact (hs.isOpen hp).1
  | reject => exact sound_of_closed hs.replies rfl ⟨rfl, rfl⟩
  | abandon => exact sound_of_closed hs.replies rfl ⟨rfl, rfl⟩
  | leave => exact sound_of_closed hs.replies rfl ⟨rfl, rfl⟩
  | finish => exact sound_of_closed hs.replies rfl ⟨rfl, rfl⟩
  | send hl htake hts =>
    have hstopped := stopped_of_take htake
    rcases isLive_iff.mp hl with hp | hp
    · exact sound_of_open hs.replies hp (hstopped.trans (hs.isOpen hp).1) (hs.isOpen hp).2
        (hs.failure_of_live hl)
    · exact sound_of_closing hs.replies hp (hstopped.trans (hs.closing hp).1)
        (hs.closing hp).2 (hs.failure_of_live hl)
  | sendAnswer hp htake hm =>
    refine sound_of_open (hs.leftOf_use _) hp ?_ (hs.isOpen hp).2
      (hs.failure_of_live (isLive_of_open hp))
    simp only [stopped_plan]
    exact (stopped_of_take htake).trans (hs.isOpen hp).1
  | sendLast => exact sound_of_closed hs.replies rfl ⟨rfl, rfl⟩

theorem Sound.step {s : Session} (hs : s.Sound) (i : Input) : (s.step i).Sound :=
  (hs.turn i).sound hs

theorem Sound.run {s : Session} (hs : s.Sound) (is : List Input) : (s.run is).Sound := by
  induction is generalizing s with
  | nil => exact hs
  | cons i is ih => exact ih (hs.step i)

theorem sound_run (script : Script) (closeTimeout now : Nat) (is : List Input) :
    ((start script closeTimeout now).run is).Sound :=
  (sound_start script closeTimeout now).run is

/-- What holds of a sound session, and is kept by every turn, holds after every run. -/
theorem Sound.run_induction {P : Session → Prop} {s : Session} (hs : s.Sound) (h : P s)
    (hturn : ∀ {s u : Session} {i : Input} {ts : List Trigger} {ms : List Message},
      s.Sound → Turn s i ts ms u → P s → P u) (is : List Input) : P (s.run is) := by
  induction is generalizing s with
  | nil => exact h
  | cons i is ih => exact ih (hs.step i) (hturn hs (hs.turn i) h)

theorem script_run {s : Session} (hs : s.Sound) (is : List Input) :
    (s.run is).script = s.script :=
  hs.run_induction (P := fun u => u.script = s.script) rfl
    (fun _ hturn hu => (script_turn hturn).trans hu) is

end Session

end Understudy
