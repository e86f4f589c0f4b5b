import Understudy.Proofs.Session.Step

/-!
# Understudy.Proofs.Session.CloseProtocol

How sessions close.

`close_protocol` is about every run of a session, whatever is done to it and in whatever order. What
has been sent is data, and then at most one close frame, after which nothing is sent. There is a
close frame exactly when the session was opened and is now closed. The phase never goes back, and a
session that is closed before it opens stays silent for good.

The invariant is `Orderly`: it says for each phase what may have been sent, and whether the opening
has been counted. `Turn.orderly` keeps it, one case for each kind of turn.
-/

namespace Understudy

namespace Session

/-- Whether a frame closes the connection. -/
def Frame.isClose : Frame → Bool
  | .close _ _ => true
  | _ => false

@[simp] theorem Frame.isClose_ofPayload (p : Payload) : (Frame.ofPayload p).isClose = false := by
  cases p <;> rfl

@[simp] theorem Frame.isClose_close (code : UInt16) (reason : String) :
    (Frame.close code reason).isClose = true := rfl

theorem ofPayload_ne_close (p : Payload) (code : UInt16) (reason : String) :
    Frame.ofPayload p ≠ .close code reason := by
  cases p <;> exact Frame.noConfusion

/-- The frames that a session has sent, in order. -/
def frames (s : Session) : List Frame := s.sent.map Sent.frame

/-- The place of a phase in the order in which a session goes through them. -/
def Phase.rank : Phase → Nat
  | .pending => 0
  | .open => 1
  | .closing => 2
  | .closed => 3

/-- Whether a run opens a session: at some point of it the connection is there, and the session
still waits for it. -/
def Opened (s : Session) (is : List Input) : Prop :=
  ∃ pre post, is = pre ++ .opened :: post ∧ (s.run pre).phase = .pending

theorem not_opened_nil (s : Session) : ¬ Opened s [] := by
  rintro ⟨pre, post, h, -⟩
  cases pre <;> cases h

/-- A session is opened by the first step, or by one of the others. -/
theorem opened_cons {s : Session} {i : Input} {is : List Input} :
    Opened s (i :: is) ↔ i = .opened ∧ s.phase = .pending ∨ Opened (s.step i) is := by
  constructor
  · rintro ⟨pre, post, h, hp⟩
    cases pre with
    | nil =>
      cases h
      exact Or.inl ⟨rfl, hp⟩
    | cons j pre =>
      cases h
      exact Or.inr ⟨pre, post, rfl, hp⟩
  · rintro (⟨rfl, hp⟩ | ⟨pre, post, rfl, hp⟩)
    · exact ⟨[], is, rfl, hp⟩
    · exact ⟨i :: pre, post, rfl, hp⟩

/-! ### What a turn does to the phase, the log and the count -/

/-- The phase never goes back. -/
theorem Turn.rank_le {s u : Session} {i : Input} {ts : List Trigger} {ms : List Message}
    (h : Turn s i ts ms u) : s.phase.rank ≤ u.phase.rank := by
  have hclosed (p : Phase) : p.rank ≤ Phase.rank .closed := by cases p <;> decide
  cases h with
  | still => exact Nat.le_refl _
  | elapse => exact Nat.le_refl _
  | begin hp => simp only [hp]; decide
  | drain hp => simp only [hp]; decide
  | answer => exact Nat.le_refl _
  | send => exact Nat.le_refl _
  | sendAnswer => exact Nat.le_refl _
  | _ => exact hclosed _

/-- What was sent stays sent. -/
theorem Turn.sent_prefix {s u : Session} {i : Input} {ts : List Trigger} {ms : List Message}
    (h : Turn s i ts ms u) : s.sent <+: u.sent := by
  cases h <;> first | exact List.prefix_rfl | exact List.prefix_append _ _

/-- A closed session stays closed and sends nothing. -/
theorem Turn.of_closed {s u : Session} {i : Input} {ts : List Trigger} {ms : List Message}
    (h : Turn s i ts ms u) (hs : s.phase = .closed) :
    u.phase = .closed ∧ u.sent = s.sent ∧ ms = [] := by
  have hlive : s.isLive ≠ true := by simp [isLive, hs]
  cases h with
  | still => exact ⟨hs, rfl, rfl⟩
  | elapse => exact ⟨hs, rfl, rfl⟩
  | begin hp => rw [hs] at hp; cases hp
  | drain hp => rw [hs] at hp; cases hp
  | fail hp => rw [hs] at hp; cases hp
  | answer hp => rw [hs] at hp; cases hp
  | abandon hp => rw [hs] at hp; cases hp
  | finish hp => rw [hs] at hp; cases hp
  | sendAnswer hp => rw [hs] at hp; cases hp
  | reject hl => exact absurd hl hlive
  | leave hl => exact absurd hl hlive
  | send hl => exact absurd hl hlive
  | sendLast _ _ _ _ hl => exact absurd hl hlive

/-- The opening is counted exactly when it happens. -/
theorem Turn.opened_mem {s u : Session} {i : Input} {ts : List Trigger} {ms : List Message}
    (h : Turn s i ts ms u) :
    Event.opened ∈ u.events ↔
      Event.opened ∈ s.events ∨ i = .opened ∧ s.phase = .pending := by
  have hlive {t : Session} (hl : t.isLive = true) : t.phase ≠ .pending := by
    rcases isLive_iff.mp hl with hp | hp <;> simp [hp]
  cases h with
  | still hi => exact ⟨Or.inl, fun h => h.elim id fun hc => absurd hc.2 (hi hc.1)⟩
  | elapse => simp
  | begin hp => simp [hp]
  | drain hp => simp [hp]
  | fail hp => simp [hp]
  | answer hp => simp [hp]
  | reject hl => simp [hlive hl]
  | abandon => simp
  | leave => simp
  | finish => simp
  | send hl => simp [hlive hl]
  | sendAnswer hp => simp [hp]
  | sendLast _ _ _ _ hl htake hts hcode =>
    rcases hcode with ⟨-, -, rfl⟩ | ⟨-, rfl⟩ <;> simp [hlive hl]

/-! ### The invariant -/

/-- What a session may have sent, phase by phase. -/
structure Orderly (s : Session) : Prop where
  /-- A session that waits for its connection has not opened. -/
  pending : s.phase = .pending → Event.opened ∉ s.events
  /-- A live session has opened, and has sent nothing but data. -/
  live : s.isLive = true → Event.opened ∈ s.events ∧ ∀ f ∈ s.frames, f.isClose = false
  /-- A closed session has opened, and ended with a close frame, or it has neither. -/
  closed : s.phase = .closed →
    Event.opened ∉ s.events ∧ s.frames = [] ∨
    Event.opened ∈ s.events ∧ ∃ data code reason,
      s.frames = data ++ [.close code reason] ∧ ∀ f ∈ data, f.isClose = false

theorem orderly_start (script : Script) (closeTimeout now : Nat) :
    (start script closeTimeout now).Orderly where
  pending := fun _ => by simp [start]
  live := fun h => by simp [isLive, start] at h
  closed := fun h => by simp [start] at h

/-- Sending data keeps the frames data. -/
theorem data_append {s : Session} (h : ∀ f ∈ s.frames, f.isClose = false) (time : Nat)
    (p : Payload) :
    ∀ f ∈ (s.sent ++ [Sent.mk time (.ofPayload p)]).map Sent.frame, f.isClose = false := by
  intro f hf
  rw [List.map_append, List.mem_append] at hf
  rcases hf with hf | hf
  · exact h f hf
  · rw [List.map_cons, List.map_nil, List.mem_singleton] at hf
    rw [hf, Frame.isClose_ofPayload]

/-- A close frame ends the frames of a session that had opened. -/
theorem orderly_of_close {u : Session} (hp : u.phase = .closed)
    (hopened : Event.opened ∈ u.events) (before : List Sent) {time : Nat} {code : UInt16}
    {reason : String} (hsent : u.sent = before ++ [⟨time, .close code reason⟩])
    (hdata : ∀ f ∈ before.map Sent.frame, f.isClose = false) : u.Orderly where
  pending := fun h => by rw [hp] at h; cases h
  live := fun h => by simp [isLive, hp] at h
  closed := fun _ => by
    refine Or.inr ⟨hopened, before.map Sent.frame, code, reason, ?_, hdata⟩
    rw [frames, hsent, List.map_append]
    rfl

/-- A live session that stays live and sends nothing stays orderly. -/
theorem orderly_of_live {u : Session} (hl : u.isLive = true)
    (hopened : Event.opened ∈ u.events) (hdata : ∀ f ∈ u.frames, f.isClose = false) :
    u.Orderly where
  pending := fun h => by simp [isLive, h] at hl
  live := fun _ => ⟨hopened, hdata⟩
  closed := fun h => by simp [isLive, h] at hl

/-- A turn keeps a session orderly. -/
theorem Turn.orderly {s u : Session} {i : Input} {ts : List Trigger} {ms : List Message}
    (h : Turn s i ts ms u) (hs : s.Sound) (ho : s.Orderly) : u.Orderly := by
  cases h with
  | still => exact ho
  | elapse => exact ⟨ho.pending, ho.live, ho.closed⟩
  | begin hp =>
    refine orderly_of_live rfl (by simp) ?_
    simp [frames, (hs.pending hp).2]
  | drain hp =>
    refine orderly_of_live rfl (by simp) ?_
    simp [frames, (hs.pending hp).2]
  | @fail failure hp hf =>
    refine orderly_of_close rfl (by simp)
      (s.sent ++ [⟨s.now, .ofPayload failure.message.payload⟩]) (List.append_cons _ _ _)
      (data_append ?_ _ _)
    simp [frames, (hs.pending hp).2]
  | answer hp =>
    obtain ⟨hopened, hdata⟩ := ho.live (isLive_of_open hp)
    exact orderly_of_live (isLive_of_open hp) hopened hdata
  | reject hl =>
    obtain ⟨hopened, hdata⟩ := ho.live hl
    exact orderly_of_close rfl (List.mem_append_left _ hopened) s.sent rfl hdata
  | abandon hp =>
    -- there was no connection, so not even the close is sent
    have hopened : Event.opened ∉ s.events ++ [.closed] := by simpa using ho.pending hp
    have hnil : s.frames = [] := by simp [frames, (hs.pending hp).2]
    exact ⟨fun _ => hopened, fun h => by simp [isLive] at h, fun _ => Or.inl ⟨hopened, hnil⟩⟩
  | leave hl =>
    obtain ⟨hopened, hdata⟩ := ho.live hl
    exact orderly_of_close rfl (List.mem_append_left _ hopened) s.sent rfl hdata
  | finish hp =>
    obtain ⟨hopened, hdata⟩ := ho.live (isLive_of_closing hp)
    exact orderly_of_close rfl (List.mem_append_left _ hopened) s.sent rfl hdata
  | send hl =>
    obtain ⟨hopened, hdata⟩ := ho.live hl
    exact orderly_of_live hl hopened (data_append hdata _ _)
  | sendAnswer hp =>
    obtain ⟨hopened, hdata⟩ := ho.live (isLive_of_open hp)
    exact orderly_of_live (isLive_of_open hp) hopened (data_append hdata _ _)
  | @sendLast _ _ _ _ _ task _ hl =>
    -- the message that was sent just before the close is data
    obtain ⟨hopened, hdata⟩ := ho.live hl
    exact orderly_of_close rfl (List.mem_append_left _ hopened)
      (s.sent ++ [⟨s.now, .ofPayload task.item.payload⟩]) (List.append_cons _ _ _)
      (data_append hdata _ _)

/-! ### Runs -/

theorem orderly_run (script : Script) (closeTimeout now : Nat) (is : List Input) :
    ((start script closeTimeout now).run is).Orderly :=
  (sound_start script closeTimeout now).run_induction (orderly_start script closeTimeout now)
    (fun hs hturn ho => hturn.orderly hs ho) is

theorem Sound.rank_le_run {s : Session} (hs : s.Sound) (is : List Input) :
    s.phase.rank ≤ (s.run is).phase.rank :=
  hs.run_induction (P := fun u => s.phase.rank ≤ u.phase.rank) (Nat.le_refl _)
    (fun _ hturn hu => Nat.le_trans hu hturn.rank_le) is

theorem Sound.sent_prefix_run {s : Session} (hs : s.Sound) (is : List Input) :
    s.sent <+: (s.run is).sent :=
  hs.run_induction (P := fun u => s.sent <+: u.sent) List.prefix_rfl
    (fun _ hturn hu => hu.trans hturn.sent_prefix) is

/-- A closed session sends nothing, however long it is used. -/
theorem Sound.sent_run_of_closed {s : Session} (hs : s.Sound) (h : s.phase = .closed)
    (is : List Input) : (s.run is).sent = s.sent := by
  have hrun := hs.run_induction (P := fun u => u.phase = .closed ∧ u.sent = s.sent) ⟨h, rfl⟩
    (fun _ hturn hu => by
      obtain ⟨hp, hsent, -⟩ := hturn.of_closed hu.1
      exact ⟨hp, hsent.trans hu.2⟩) is
  exact hrun.2

theorem Sound.opened_mem_run {s : Session} (hs : s.Sound) (is : List Input) :
    Event.opened ∈ (s.run is).events ↔ Event.opened ∈ s.events ∨ Opened s is := by
  induction is generalizing s with
  | nil => simp [not_opened_nil]
  | cons i is ih =>
    rw [run_cons, ih (hs.step i), (hs.turn i).opened_mem, opened_cons, or_assoc]

/-- A session that has sent a close frame is closed, and had opened. -/
theorem Orderly.close_mem_iff {s : Session} (hs : s.Sound) (ho : s.Orderly) :
    (∃ f ∈ s.frames, f.isClose = true) ↔ Event.opened ∈ s.events ∧ s.phase = .closed := by
  constructor
  · rintro ⟨f, hf, hclose⟩
    cases hp : s.phase with
    | pending =>
      rw [frames, (hs.pending hp).2] at hf
      cases hf
    | «open» =>
      rw [(ho.live (isLive_of_open hp)).2 f hf] at hclose
      cases hclose
    | closing =>
      rw [(ho.live (isLive_of_closing hp)).2 f hf] at hclose
      cases hclose
    | closed =>
      rcases ho.closed hp with ⟨-, hnil⟩ | ⟨hopened, -⟩
      · rw [hnil] at hf
        cases hf
      · exact ⟨hopened, rfl⟩
  · rintro ⟨hopened, hp⟩
    rcases ho.closed hp with ⟨hno, -⟩ | ⟨-, data, code, reason, heq, -⟩
    · exact absurd hopened hno
    · exact ⟨.close code reason, by rw [heq]; simp, rfl⟩

/-- The frames of an orderly session are data, and then at most one close frame. -/
theorem Orderly.frames_eq {s : Session} (hs : s.Sound) (ho : s.Orderly) :
    ∃ data last, s.frames = data ++ last ∧ (∀ f ∈ data, f.isClose = false) ∧
      last.length ≤ 1 ∧ ∀ f ∈ last, f.isClose = true := by
  cases hp : s.phase with
  | pending => exact ⟨[], [], by simp [frames, (hs.pending hp).2], by simp, by simp, by simp⟩
  | «open» =>
    have hdata := (ho.live (isLive_of_open hp)).2
    exact ⟨s.frames, [], by simp, hdata, by simp, by simp⟩
  | closing =>
    have hdata := (ho.live (isLive_of_closing hp)).2
    exact ⟨s.frames, [], by simp, hdata, by simp, by simp⟩
  | closed =>
    rcases ho.closed hp with ⟨-, hnil⟩ | ⟨-, data, code, reason, heq, hdata⟩
    · exact ⟨[], [], by simp [hnil], by simp, by simp, by simp⟩
    · exact ⟨data, [.close code reason], heq, hdata, by simp, by simp [Frame.isClose]⟩

/-- **The close protocol.** In every run of a session, whatever happens in whatever order:

* the frames that were sent are data, and then at most one close frame;
* there is a close frame exactly if the run opened the session, and it is now closed;
* however the run goes on, the phase does not go back, what was sent stays sent, and nothing is
  added to it once there is a close frame;
* a session that is closed while it waits for its connection never sends anything. -/
theorem close_protocol (script : Script) (closeTimeout now : Nat) (is : List Input) :
    let s := (start script closeTimeout now).run is
    (∃ data last, s.frames = data ++ last ∧ (∀ f ∈ data, f.isClose = false) ∧
      last.length ≤ 1 ∧ ∀ f ∈ last, f.isClose = true) ∧
    ((∃ f ∈ s.frames, f.isClose = true) ↔
      Opened (start script closeTimeout now) is ∧ s.phase = .closed) ∧
    (∀ js, s.phase.rank ≤ (s.run js).phase.rank ∧ s.sent <+: (s.run js).sent ∧
      ((∃ f ∈ s.frames, f.isClose = true) → (s.run js).sent = s.sent)) ∧
    ∀ code reason js, s.phase = .pending → ((s.step (.closed code reason)).run js).sent = [] := by
  intro s
  have hs : s.Sound := sound_run script closeTimeout now is
  have ho : s.Orderly := orderly_run script closeTimeout now is
  -- at the start nothing is reported, so every report is of a step
  have hopened : Event.opened ∈ s.events ↔ Opened (start script closeTimeout now) is := by
    have hmem := (sound_start script closeTimeout now).opened_mem_run is
    have hno : Event.opened ∉ (start script closeTimeout now).events := by simp [start]
    exact ⟨fun h => (hmem.mp h).resolve_left hno, fun h => hmem.mpr (Or.inr h)⟩
  have hiff := ho.close_mem_iff hs
  refine ⟨ho.frames_eq hs, by rw [hiff, hopened], ?_, ?_⟩
  · intro js
    refine ⟨hs.rank_le_run js, hs.sent_prefix_run js, fun hclose => ?_⟩
    exact hs.sent_run_of_closed (hiff.mp hclose).2 js
  · intro code reason js hp
    have hstep : s.step (.closed code reason) =
        { s with
          phase := .closed
          agenda := s.agenda.cancel
          events := s.events ++ [.closed] } := close_of_pending hp code reason
    rw [(hs.step _).sent_run_of_closed (by rw [hstep]) js, hstep]
    exact (hs.pending hp).2

/-- A session that its peer leaves before it opens stays silent when it is opened after all. -/
theorem close_protocol_abandoned :
    let s := start ⟨[.ofText "hello"], [], [], none⟩ 2000 0
    s.phase = .pending ∧
      ((s.step (.closed 1000 "gone")).run [.opened, .emit, .message "hello"]).sent = [] :=
  ⟨rfl, (close_protocol ⟨[.ofText "hello"], [], [], none⟩ 2000 0 []).2.2.2 1000 "gone"
    [.opened, .emit, .message "hello"] rfl⟩

end Session

end Understudy
