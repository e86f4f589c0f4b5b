import Understudy.Proofs.Session.Farewell
import Understudy.Proofs.Session.Quiescence

/-!
# Understudy.Proofs.Session.SelfClosing

When a session closes without being told to.

Whether it does is decided by its script. A session that has triggers to wait for never says
farewell, however many of its replies have been used: no turn but that of a closing session does so,
and the peer's own words are all that can look alike (`Turn.farewell`).

A session without triggers is `Parting` from its opening on. It only ever gets rid of the tasks that
it had then, it has no use for requests, and a message of the peer ends it. What keeps it is on its
agenda, and its deadline does not move. When it has settled at its deadline, it can wait for nothing
more, and has closed (`Parting.closed_of_settled`).
-/

namespace Understudy

namespace Session

/-! ### Sessions with triggers -/

/-- Only a closing session says farewell, or a peer whose words are repeated. -/
theorem Turn.farewell {s u : Session} {i : Input} {ts : List Trigger} {ms : List Message}
    (h : Turn s i ts ms u) (hs : s.phase ≠ .closing) :
    ∃ sent, u.sent = s.sent ++ sent ∧
      ∀ f ∈ sent, f.frame = .close normalClosure closingReason →
        ∃ reason, i = .closed normalClosure reason ∧ cutReason reason = closingReason := by
  have hdata (p : Payload) : Frame.ofPayload p ≠ .close normalClosure closingReason :=
    ofPayload_ne_close p _ _
  have hprotocol (what : String) :
      Frame.close protocolError (cutReason what) ≠ .close normalClosure closingReason := by
    simp [protocolError, normalClosure]
  have hinternal (what : String) :
      Frame.close internalError (cutReason what) ≠ .close normalClosure closingReason := by
    simp [internalError, normalClosure]
  -- only `leave` can say the farewell, if the peer leaves with the same words
  cases h with
  | still | elapse | begin | drain | answer | abandon => exact ⟨[], by simp⟩
  | fail => exact ⟨_, rfl, by simp [hdata, hinternal]⟩
  | reject => exact ⟨_, rfl, by simp [hprotocol]⟩
  | @leave code reason =>
    refine ⟨_, rfl, ?_⟩
    intro f hf hfarewell
    rw [List.mem_singleton.mp hf] at hfarewell
    obtain ⟨rfl, hcut⟩ := Frame.close.inj hfarewell
    exact ⟨reason, rfl, hcut⟩
  | finish hp => exact absurd hp hs
  | send | sendAnswer => exact ⟨_, rfl, by simp [hdata]⟩
  | sendLast ts code reason events hl htake hts hcode =>
    have hclose : Frame.close code (cutReason reason) ≠ .close normalClosure closingReason := by
      rcases hcode with ⟨-, rfl, -⟩ | ⟨rfl, -⟩
      · have hempty : cutReason "" ≠ closingReason := by decide
        simp [hempty]
      · exact hprotocol reason
    exact ⟨_, rfl, by simp [hdata, hclose]⟩

/-! ### Sessions without triggers -/

/-- A session without triggers, some time after it has opened with some tasks and a deadline. -/
structure Parting (tasks : List (Agenda.Task Message)) (limit : Nat) (s : Session) : Prop where
  sound : s.Sound
  triggers : s.script.replies = []
  phase : s.phase = .closing ∨ s.phase = .closed
  deadline : s.deadline = limit
  tasks : s.agenda.tasks <:+ tasks

section Parting

variable {tasks : List (Agenda.Task Message)} {limit : Nat} {s : Session}

theorem Parting.ne_pending (h : s.Parting tasks limit) : s.phase ≠ .pending := by
  rcases h.phase with hp | hp <;> simp [hp]

theorem Parting.ne_open (h : s.Parting tasks limit) : s.phase ≠ .open := by
  rcases h.phase with hp | hp <;> simp [hp]

theorem Parting.closing_of_live (h : s.Parting tasks limit) (hl : s.isLive = true) :
    s.phase = .closing :=
  (isLive_iff.mp hl).resolve_left h.ne_open

/-- A turn leaves a parting session what it is, and accepts nothing. -/
theorem Turn.parting {u : Session} {i : Input} {ts : List Trigger} {ms : List Message}
    (hturn : Turn s i ts ms u) (h : s.Parting tasks limit) : u.Parting tasks limit ∧ ms = [] := by
  have hu : u.Sound := hturn.sound h.sound
  have htriggers : u.script.replies = [] := by rw [script_turn hturn, h.triggers]
  -- a turn that closes the session leaves no task; the others are out of the question, but for one
  cases hturn with
  | still => exact ⟨h, rfl⟩
  | elapse => exact ⟨⟨hu, htriggers, h.phase, h.deadline, h.tasks⟩, rfl⟩
  | begin hp | drain hp | fail hp | abandon hp => exact absurd hp h.ne_pending
  | answer hp | sendAnswer hp => exact absurd hp h.ne_open
  | @send _ _ _ rest hl htake =>
    have hrest : rest.tasks <:+ s.agenda.tasks := by
      rw [(take?_eq_some htake).1]
      exact List.suffix_cons _ _
    exact ⟨⟨hu, htriggers, Or.inl (h.closing_of_live hl), h.deadline, hrest.trans h.tasks⟩, rfl⟩
  | reject | leave | finish | sendLast =>
    exact ⟨⟨hu, htriggers, Or.inr rfl, h.deadline, List.nil_suffix⟩, rfl⟩

theorem Parting.step (h : s.Parting tasks limit) (i : Input) : (s.step i).Parting tasks limit :=
  ((h.sound.turn i).parting h).1

theorem Parting.run (h : s.Parting tasks limit) (is : List Input) :
    (s.run is).Parting tasks limit := by
  induction is generalizing s with
  | nil => exact h
  | cons i is ih => exact ih (h.step i)

/-- Nothing is accepted after the opening. -/
theorem Parting.book_eq_nil (h : s.Parting tasks limit) (is : List Input) : s.book is = [] := by
  induction is generalizing s with
  | nil => rfl
  | cons i is ih =>
    rw [book, ((h.sound.turn i).parting h).2, ih (h.step i)]
    rfl

/-- A session that parts expects nothing, and closes with the reason. -/
theorem Parting.onMessage_eq (h : s.Parting tasks limit) (hp : s.phase ≠ .closed)
    (text : String) :
    s.onMessage text =
      { s with
        phase := .closed
        agenda := s.agenda.cancel
        sent := s.sent ++ [⟨s.now, .close protocolError (cutReason (unexpectedReason ++ text))⟩]
        events := s.events ++ [.unexpected, .closed] } := by
  have hclosing : s.phase = .closing := h.phase.resolve_right hp
  rw [onMessage, hclosing]
  exact reject_of_live (isLive_of_closing hclosing) text

theorem Parting.step_request (h : s.Parting tasks limit) (r : Request) :
    s.step (.request r) = s := by
  rw [Session.step, onRequest, if_neg h.ne_open]

theorem Parting.settle (h : s.Parting tasks limit) :
    s.settle.Parting tasks limit ∧ s.settle.isDue = false := by
  refine ⟨by rw [settle_eq_run]; exact h.run _, h.sound.isDue_settle ?_⟩
  intro text m hm
  rw [h.triggers] at hm
  cases hm

/-- A parting session that has settled waits for a task, and for its deadline. -/
theorem Parting.waits (h : s.Parting tasks limit) (hdue : s.isDue = false)
    (hp : s.phase ≠ .closed) :
    s.now < limit ∧ ∃ next, s.nextTime? = some next ∧ s.now < next ∧ next ≤ limit := by
  have hclosing : s.phase = .closing := h.phase.resolve_right hp
  rw [isDue, Bool.or_eq_false_iff] at hdue
  obtain ⟨htake, hfin⟩ := hdue
  have hbusy : s.agenda.tasks ≠ [] ∧ s.now < limit := by
    simpa [canFinish, hclosing, h.deadline] using hfin
  refine ⟨hbusy.2, ?_⟩
  cases htasks : s.agenda.tasks with
  | nil => exact absurd htasks hbusy.1
  | cons t ts =>
    have hlt : s.now < t.due := by simpa [Agenda.take?, htasks] using htake
    refine ⟨min t.due limit, ?_, Nat.lt_min.mpr ⟨hlt, hbusy.2⟩, Nat.min_le_right _ _⟩
    rw [nextTime?, if_pos hclosing, Agenda.nextDue?, htasks, ← h.deadline]
    rfl

/-- At its deadline, a session that has settled has closed. -/
theorem Parting.closed_of_settled (h : s.Parting tasks limit) (hdue : s.isDue = false)
    (hnow : limit ≤ s.now) : s.phase = .closed := by
  by_cases hp : s.phase = .closed
  · exact hp
  · exact absurd (h.waits hdue hp).1 (Nat.not_lt.mpr hnow)

/-- The clock does not pass the deadline before the session has closed. -/
theorem Parting.closed_advanceTo (h : s.Parting tasks limit) (hdue : s.isDue = false) {time : Nat}
    (htime : limit ≤ time) : (s.advanceTo time).phase = .closed := by
  fun_induction Session.advanceTo time s with
  | case1 s hnone =>
    by_cases hp : s.phase = .closed
    · exact hp
    · obtain ⟨-, next, hsome, -⟩ := h.waits hdue hp
      rw [hnone] at hsome
      cases hsome
  | case2 s next hsome hle ih =>
    have hlater : (s.setTime next).Parting tasks limit := by
      rw [setTime_eq_step (Nat.le_of_lt hle.1)]
      exact h.step _
    exact ih hlater.settle.1 hlater.settle.2
  | case3 s next hsome hnot =>
    by_cases hp : s.phase = .closed
    · exact hp
    · obtain ⟨-, next', hsome', hlt, hle⟩ := h.waits hdue hp
      rw [hsome] at hsome'
      cases hsome'
      exact absurd ⟨hlt, Nat.le_trans hle htime⟩ hnot

end Parting

/-- A session without triggers is parting as soon as it is open. -/
theorem Sound.parting_opened {s : Session} (hs : s.Sound) (hp : s.phase = .pending)
    (hf : s.script.failure = none) (hr : s.script.replies = []) :
    (s.step .opened).Parting (s.step .opened).agenda.tasks (s.now + s.closeTimeout) := by
  have hopened : (s.step .opened).Sound := hs.step .opened
  rw [hs.step_opened_of_no_replies hp hf hr] at hopened ⊢
  exact ⟨hopened, hr, Or.inl rfl, rfl, List.suffix_refl _⟩

theorem closeTimeout_run {s : Session} (hs : s.Sound) (is : List Input) :
    (s.run is).closeTimeout = s.closeTimeout :=
  hs.run_induction (P := fun u => u.closeTimeout = s.closeTimeout) rfl
    (fun _ hturn hu => by
      rw [← hu]
      cases hturn <;> rfl) is

/-- **Closing by itself.** A session whose script has triggers is never closing, whatever has
happened to it and however few of its replies are left, and it says farewell in no step but one in
which its peer closes with these words.

Let a script have no triggers, and not fail, and let its session open. Then, whatever comes next,

* it is closing or closed from then on;
* it accepts nothing more, and no tasks wait but those that waited when it had opened;
* until it is closed, a message of the peer, text or octets, closes it as unexpected;
* requests change nothing;
* at its deadline, the close timeout after the opening, it has closed when it has settled; and the
  clock brings it there, however far it jumps. -/
theorem self_closing (script : Script) (closeTimeout now : Nat) :
    let s₀ := start script closeTimeout now
    (script.replies ≠ [] → ∀ is,
      let s := s₀.run is
      s.phase ≠ .closing ∧
      ∀ i, ∃ sent, (s.step i).sent = s.sent ++ sent ∧
        ∀ f ∈ sent, f.frame = .close 1000 "Closing..." →
          ∃ reason, i = .closed 1000 reason ∧ cutReason reason = "Closing...") ∧
    (script.replies = [] → script.failure = none → ∀ pre post, (s₀.run pre).phase = .pending →
      let opened := (s₀.run pre).step .opened
      let limit := opened.now + closeTimeout
      let s := opened.run post
      (s.phase = .closing ∨ s.phase = .closed) ∧
      opened.book post = [] ∧ s.agenda.tasks <:+ opened.agenda.tasks ∧
      (s.phase ≠ .closed → ∀ i text,
        (i = .message text ∨ ∃ octets, i = .binary octets ∧ text = Utf8.decodeLossy octets) →
        (s.step i).phase = .closed ∧ (s.step i).sent =
          s.sent ++ [⟨s.now, .close 1002 (cutReason ("Unexpected message:" ++ text))⟩]) ∧
      (∀ r, s.step (.request r) = s) ∧
      (limit ≤ s.now → s.settle.phase = .closed) ∧
      ∀ milliseconds, limit ≤ s.now + milliseconds →
        (s.advance milliseconds).phase = .closed) := by
  intro s₀
  have hs₀ : s₀.Sound := sound_start script closeTimeout now
  refine ⟨?_, ?_⟩
  · -- a session with triggers never begins to close by itself
    intro hr is s
    have hs : s.Sound := hs₀.run is
    have hnot : s.phase ≠ .closing := by
      intro hp
      have hnone := (hs.closing hp).2
      rw [script_run hs₀ is] at hnone
      exact hr hnone
    exact ⟨hnot, fun i => (hs.turn i).farewell hnot⟩
  · -- opening a session without triggers makes it part, and it goes on parting
    intro hr hf pre post hp opened limit s
    have hscript : (s₀.run pre).script = script := script_run hs₀ pre
    have hopened : opened.Parting opened.agenda.tasks limit := by
      rw [← hscript] at hf hr
      have hnow : opened.now = (s₀.run pre).now := by
        simp only [opened]
        rw [(hs₀.run pre).step_opened_of_no_replies hp hf hr]
      have hparting := (hs₀.run pre).parting_opened hp hf hr
      rw [closeTimeout_run hs₀ pre, ← hnow] at hparting
      exact hparting
    have hs : s.Parting opened.agenda.tasks limit := hopened.run post
    obtain ⟨hsettled, hdue⟩ := hs.settle
    refine ⟨hs.phase, hopened.book_eq_nil post, hs.tasks, ?_, hs.step_request, ?_, ?_⟩
    · intro hclosed i text hi
      have hstep : s.step i = s.onMessage text := by
        rcases hi with rfl | ⟨octets, rfl, rfl⟩ <;> rfl
      rw [hstep, hs.onMessage_eq hclosed]
      exact ⟨rfl, rfl⟩
    · intro hnow
      exact hsettled.closed_of_settled hdue (by rw [now_settle]; exact hnow)
    · intro milliseconds htime
      exact hsettled.closed_advanceTo hdue htime

/-- A session whose only reply has been used does not close. One without triggers has closed when
the time is over for which it waits, although a message was still on its agenda. -/
theorem self_closing_exhausted :
    let script : Script := ⟨[], [], [(.message "ping", .ofText "pong")], none⟩
    let busy := (start script 2000 0).run [.opened, .message "ping", .emit]
    let silent : Script := ⟨[], [⟨.text "late", 5000, true, none⟩], [], none⟩
    let left := (((start silent 2000 0).run [.elapse 100]).step .opened).run [.elapse 2000]
    busy.replies = [(.message "ping", [])] ∧ busy.agenda.tasks = [] ∧ busy.phase ≠ .closing ∧
      left.agenda.tasks.length = 1 ∧ left.settle.phase = .closed ∧
      left.settle.sent = [⟨2100, .close 1000 "Closing..."⟩] := by
  intro script busy silent left
  have hbusy : busy.replies = [(.message "ping", [])] ∧ busy.agenda.tasks = [] := by
    decide +kernel
  have hleft : left.agenda.tasks.length = 1 ∧
      left.settle.sent = [⟨2100, .close 1000 "Closing..."⟩] := by decide +kernel
  have hopen : busy.phase ≠ .closing :=
    ((self_closing script 2000 0).1 (List.cons_ne_nil _ _) [.opened, .message "ping", .emit]).1
  obtain ⟨-, -, -, -, -, hclosed, -⟩ :=
    (self_closing silent 2000 0).2 rfl rfl [.elapse 100] [.elapse 2000] rfl
  exact ⟨hbusy.1, hbusy.2, hopen, hleft.1, hclosed (Nat.le_refl _), hleft.2⟩

end Session

end Understudy
