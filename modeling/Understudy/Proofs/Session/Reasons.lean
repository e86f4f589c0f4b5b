import Understudy.Proofs.Session.CloseProtocol
import Understudy.Proofs.Session.Replies
import Understudy.Proofs.Text.Boundary

/-!
# Understudy.Proofs.Session.Reasons

The reasons of close frames.

A close frame has room for a reason of 123 octets, and a longer one is cut at the last boundary that
fits. Every turn that closes a session cuts the reason it gives (`Turn.reasons`), whoever it comes
from. The reason for something unexpected begins with 19 octets of its own, which leave 104 of what
was unexpected (`cutReason_unexpected`). What that is depends on the step (`Offers`), and a step
that counts something unexpected rejects what it has brought up (`Sound.rejection`).

`close_reasons` puts both together for every run.
-/

namespace Understudy

namespace Session

open Utf8 (encode isBoundary cutOctets? IsCut isCut_takeFitting takeFitting_of_fits)

/-! ### Cutting reasons -/

theorem isCut_cutReason (reason : String) : IsCut maxReasonSize reason (cutReason reason) :=
  isCut_takeFitting maxReasonSize reason

/-- The search for the last boundary never fails, and finds where the reason is cut. -/
theorem cutOctets?_reason (reason : String) :
    cutOctets? maxReasonSize (encode reason) = some (encode (cutReason reason)) := by
  rw [cutReason, encode, encode, String.toList_ofList]
  exact Utf8.cutOctets?_eq maxReasonSize reason.toList

theorem cutReason_of_fits {reason : String} (h : (encode reason).length ≤ maxReasonSize) :
    cutReason reason = reason := by
  rw [cutReason, takeFitting_of_fits h, String.ofList_toList]

theorem cutReason_cutReason (reason : String) : cutReason (cutReason reason) = cutReason reason :=
  cutReason_of_fits (isCut_cutReason reason).fits

/-- How many octets of what was unexpected fit into a close frame. -/
def maxUnexpectedSize : Nat := 104

/-- As much of what was unexpected as fits into a close frame. -/
def cutUnexpected (what : String) : String :=
  String.ofList (Utf8.takeFitting maxUnexpectedSize what.toList)

/-- The words in front of what was not expected are never cut. -/
theorem cutReason_unexpected (what : String) :
    cutReason (unexpectedReason ++ what) = unexpectedReason ++ cutUnexpected what := by
  have hsize : (Utf8.encodeChars unexpectedReason.toList).length = 19 := by decide
  have hroom : maxReasonSize - 19 = maxUnexpectedSize := rfl
  have hfits : (Utf8.encodeChars unexpectedReason.toList).length ≤ maxReasonSize := by
    rw [hsize]
    decide
  rw [cutReason, String.toList_append, Utf8.takeFitting_append hfits, hsize, hroom,
    String.ofList_append, String.ofList_toList]
  rfl

/-! ### The reasons that are sent -/

/-- Every close frame that a turn sends has a reason that was cut. -/
theorem Turn.reasons {s u : Session} {i : Input} {ts : List Trigger} {ms : List Message}
    (h : Turn s i ts ms u) :
    ∃ new, u.sent = s.sent ++ new ∧
      ∀ x ∈ new, ∀ code reason, x.frame = .close code reason →
        ∃ whole, reason = cutReason whole := by
  have hdata (time : Nat) (p : Payload) (code : UInt16) (reason : String)
      (hframe : (Sent.mk time (.ofPayload p)).frame = .close code reason) :
      ∃ whole, reason = cutReason whole := absurd hframe (ofPayload_ne_close p code reason)
  have hcut (time : Nat) (code : UInt16) (whole : String) :
      ∀ x ∈ [Sent.mk time (.close code (cutReason whole))], ∀ code reason,
        x.frame = .close code reason → ∃ whole, reason = cutReason whole := by
    intro x hx code reason hframe
    rw [List.mem_singleton.mp hx] at hframe
    exact ⟨whole, (Frame.close.inj hframe).2.symm⟩
  cases h with
  | still | elapse | begin | drain | answer | abandon => exact ⟨[], by simp⟩
  | reject | leave | finish => exact ⟨_, rfl, hcut _ _ _⟩
  | send | sendAnswer => exact ⟨_, rfl, List.forall_mem_singleton.mpr (hdata _ _)⟩
  | fail | sendLast => exact ⟨_, rfl, List.forall_mem_cons.mpr ⟨hdata _ _, hcut _ _ _⟩⟩

/-- The reason in every close frame has been cut. -/
theorem reason_run {script : Script} {closeTimeout now : Nat} {is : List Input} {x : Sent}
    (hx : x ∈ ((start script closeTimeout now).run is).sent) {code : UInt16} {reason : String}
    (hframe : x.frame = .close code reason) : ∃ whole, reason = cutReason whole := by
  have hrun := (sound_start script closeTimeout now).run_induction
    (P := fun u => ∀ x ∈ u.sent, ∀ code reason, x.frame = .close code reason →
      ∃ whole, reason = cutReason whole)
    (fun x hx => by cases hx)
    (fun _ hturn hu x hx => by
      obtain ⟨new, hsent, hnew⟩ := hturn.reasons
      rw [hsent] at hx
      exact (List.mem_append.mp hx).elim (hu x) (hnew x)) is
  exact hrun x hx code reason hframe

/-! ### What is rejected -/

/-- `Offers s i v what`: the step `i` of `s` brings up `what`, and the session is `v` then. -/
inductive Offers (s : Session) : Input → Session → String → Prop
  | message (text : String) : Offers s (.message text) s text
  | binary (octets : Bytes) : Offers s (.binary octets) s (Utf8.decodeLossy octets)
  | request (r : Request) : Offers s (.request r) s ("from http " ++ r.path)
  /-- A message has just been sent that another one should have followed. -/
  | sent {i : Input} {task : Agenda.Task Message} {rest : Agenda Message} :
      i = .emit ∨ i = .sendDue → s.agenda.take? s.now = some (task, rest) →
      Offers s i (s.afterSending task rest) task.item.payload.asText

/-- Whether nothing unexpected is counted from one session to another. -/
def Quiet (s u : Session) : Prop := ∃ new, u.events = s.events ++ new ∧ Event.unexpected ∉ new

/-- Whether a step is quiet, or the session rejects what the step has brought up. -/
def QuietOrRejects (s : Session) (i : Input) : Prop :=
  Quiet s (s.step i) ∨
    ∃ v what, s.Offers i v what ∧ v.isLive = true ∧ s.step i = v.reject what

theorem quiet_of_events {s u : Session} (h : u.events = s.events) : Quiet s u :=
  ⟨[], by rw [h, List.append_nil], List.not_mem_nil⟩

/-- Closing reports nothing that was not expected. -/
theorem quiet_close (s : Session) (code : UInt16) (reason : String) :
    Quiet s (s.close code reason) := by
  by_cases hl : s.isLive = true
  · rw [close_of_live hl]
    exact ⟨_, rfl, by simp⟩
  · cases hp : s.phase with
    | pending =>
      rw [close_of_pending hp]
      exact ⟨_, rfl, by simp⟩
    | closed =>
      rw [close_of_closed hp]
      exact quiet_of_events rfl
    | «open» => exact absurd (isLive_of_open hp) hl
    | closing => exact absurd (isLive_of_closing hp) hl

/-- Opening reports nothing that was not expected. -/
theorem quiet_opened (s : Session) : Quiet s s.onOpen := by
  rw [onOpen]
  split
  · rename_i hp
    cases hf : s.script.failure with
    | some failure =>
      simp only [count, hf]
      rw [send_of_live (isLive_of_open rfl), close_of_live (isLive_of_open rfl)]
      exact ⟨[.opened, .failed, .closed], by simp, by simp⟩
    | none =>
      simp only [count, hf]
      rw [foldl_schedule, closeIfFinished]
      split <;> exact ⟨[.opened], rfl, by simp⟩
  · exact quiet_of_events rfl

/-- A message of the peer is rejected, or nothing is reported of it. -/
theorem Sound.quiet_or_rejects_message {s : Session} (hs : s.Sound) {i : Input} {text : String}
    (hoffers : s.Offers i s text) (hstep : s.step i = s.onMessage text) : s.QuietOrRejects i := by
  have hreject (hl : s.isLive = true) (heq : s.onMessage text = s.reject text) :
      s.QuietOrRejects i := Or.inr ⟨s, text, hoffers, hl, hstep.trans heq⟩
  have hquiet (h : (s.onMessage text).events = s.events) : s.QuietOrRejects i :=
    Or.inl (quiet_of_events (hstep ▸ h))
  cases hp : s.phase with
  | pending => exact hquiet (by rw [onMessage, hp])
  | closed => exact hquiet (by rw [onMessage, hp])
  | closing => exact hreject (isLive_of_closing hp) (by rw [onMessage, hp])
  | «open» =>
    cases hf : s.lookup (.message text) with
    | reply m =>
      refine hquiet ?_
      rw [onMessage, hp]
      simp only [hf]
      rw [hs.answer_eq hp]
    | exhausted => exact hreject (isLive_of_open hp) (by rw [onMessage, hp]; simp only [hf])
    | unregistered => exact hreject (isLive_of_open hp) (by rw [onMessage, hp]; simp only [hf])

theorem Sound.quiet_or_rejects_request {s : Session} (hs : s.Sound) (r : Request) :
    s.QuietOrRejects (.request r) := by
  by_cases hp : s.phase = .open
  · have hstep : s.step (.request r) = s.onKeys r.path r.keys := by
      rw [Session.step, onRequest, if_pos hp]
    rcases onKeys_cases r.path r.keys s with ⟨-, heq⟩ | ⟨ts, t, -, -, hend⟩
    · exact Or.inl (quiet_of_events (by rw [hstep, heq]))
    · rcases hend with ⟨m, -, heq⟩ | ⟨-, heq⟩
      · exact Or.inl (quiet_of_events (by rw [hstep, heq, hs.answer_eq hp]))
      · exact Or.inr ⟨s, _, .request r, isLive_of_open hp, hstep.trans heq⟩
  · exact Or.inl (quiet_of_events (by rw [Session.step, onRequest, if_neg hp]))

/-- Delivering a message is quiet, unless another one should have followed it. -/
theorem quiet_or_rejects_deliver {s : Session} (hl : s.isLive = true)
    (task : Agenda.Task Message) (rest : Agenda Message) :
    let u := ({ s with agenda := rest } : Session).deliver task.item
    Quiet s u ∨ u = (s.afterSending task rest).reject task.item.payload.asText := by
  intro u
  have hlive : ({ s with agenda := rest } : Session).isLive = true := hl
  have hsend : ({ s with agenda := rest } : Session).send (.ofPayload task.item.payload) =
      s.afterSending task rest := send_of_live hlive _
  have hu : u = ({ s with agenda := rest } : Session).deliver task.item := rfl
  rw [deliver, if_pos hlive, hsend] at hu
  cases hcode : task.item.closingCode with
  -- closing with a code is quiet, and only a trigger whose queue is used up is not
  | some code =>
    rw [hcode] at hu
    rw [hu]
    exact Or.inl (quiet_close (s.afterSending task rest) code "")
  | none =>
    rw [hcode] at hu
    cases hf : (s.afterSending task rest).lookup (.sent task.item.payload.asText) with
    | reply m =>
      simp only [hf] at hu
      refine Or.inl (quiet_of_events ?_)
      rw [hu, use_eq]
      rfl
    | exhausted =>
      simp only [hf] at hu
      exact Or.inr hu
    | unregistered =>
      simp only [hf] at hu
      exact Or.inl (quiet_of_events (by rw [hu]; rfl))

/-- What the timer lets out is rejected once it is sent, or nothing is reported of it. -/
theorem Sound.quiet_or_rejects_emit {s : Session} (hs : s.Sound) : s.QuietOrRejects .emit := by
  cases htake : s.agenda.take? s.now with
  | none =>
    refine Or.inl ?_
    rw [Session.step, emit, htake]
    simp only
    split
    · exact quiet_close s _ _
    · exact quiet_of_events rfl
  | some found =>
    obtain ⟨task, rest⟩ := found
    have hl : s.isLive = true := hs.live_of_take htake
    have hstep := step_emit_of_take htake
    by_cases hawait : s.isAwaited task.item = true
    · rw [if_pos hawait] at hstep
      rcases quiet_or_rejects_deliver hl task rest with hquiet | hrejects
      · exact Or.inl (hstep ▸ hquiet)
      · exact Or.inr ⟨_, _, .sent (Or.inl rfl) htake, hl, hstep.trans hrejects⟩
    · rw [if_neg hawait] at hstep
      exact Or.inl (hstep ▸ quiet_close s _ _)

theorem Sound.quiet_or_rejects_sendDue {s : Session} (hs : s.Sound) :
    s.QuietOrRejects .sendDue := by
  cases htake : s.agenda.take? s.now with
  | none => exact Or.inl (quiet_of_events (by rw [Session.step, sendDue, htake]))
  | some found =>
    obtain ⟨task, rest⟩ := found
    have hl : s.isLive = true := hs.live_of_take htake
    have hstep : s.step .sendDue = ({ s with agenda := rest } : Session).deliver task.item := by
      rw [Session.step, sendDue, htake]
    rcases quiet_or_rejects_deliver hl task rest with hquiet | hrejects
    · exact Or.inl (hstep ▸ hquiet)
    · exact Or.inr ⟨_, _, .sent (Or.inr rfl) htake, hl, hstep.trans hrejects⟩

/-- A step rejects what it was offered, or reports nothing of it. -/
theorem Sound.quiet_or_rejects {s : Session} (hs : s.Sound) (i : Input) : s.QuietOrRejects i := by
  cases i with
  | opened => exact Or.inl (quiet_opened s)
  | message text => exact hs.quiet_or_rejects_message (.message text) rfl
  | binary octets => exact hs.quiet_or_rejects_message (.binary octets) rfl
  | request r => exact hs.quiet_or_rejects_request r
  | closed code reason => exact Or.inl (quiet_close s code reason)
  | elapse milliseconds => exact Or.inl (quiet_of_events rfl)
  | emit => exact hs.quiet_or_rejects_emit
  | sendDue => exact hs.quiet_or_rejects_sendDue

/-! ### The reasons of a run -/

/-- The session ends with a close frame that says what was unexpected, as far as it fits. -/
def EndsUnexpected (s : Session) (what : String) (u : Session) : Prop :=
  ∃ part, IsCut 104 what part ∧
    u.sent = s.sent ++ [⟨s.now, .close 1002 ("Unexpected message:" ++ part)⟩]

theorem endsUnexpected_reject {s : Session} (h : s.isLive = true) (what : String) :
    s.EndsUnexpected what (s.reject what) := by
  refine ⟨cutUnexpected what, isCut_takeFitting maxUnexpectedSize what, ?_⟩
  rw [reject_of_live h, cutReason_unexpected]
  rfl

/-- A step that counts something unexpected ends the session with what it has brought up. -/
theorem Sound.rejection {s : Session} (hs : s.Sound) {i : Input} {new : List Event}
    (hevents : (s.step i).events = s.events ++ new) (h : Event.unexpected ∈ new) :
    ∃ v what, s.Offers i v what ∧ v.EndsUnexpected what (s.step i) := by
  rcases hs.quiet_or_rejects i with ⟨quiet, heq, hno⟩ | ⟨v, what, hoffers, hl, hstep⟩
  · rw [List.append_cancel_left (hevents.symm.trans heq)] at h
    exact absurd h hno
  · refine ⟨v, what, hoffers, ?_⟩
    rw [hstep]
    exact endsUnexpected_reject hl what

/-- **The reasons of close frames.** A reason that fits is left as it is, and any other is cut at
the last boundary that fits. The search for that boundary never passes the first octet, and a reason
that was cut is not cut any more. So in every run of a session, whatever happens in whatever order:

* the reason of every close frame that was sent has 123 octets at most;
* to reject something is to end with its longest beginning of at most 104 octets;
* and every step that counts something unexpected ends the session with what it has brought up. -/
theorem close_reasons (script : Script) (closeTimeout now : Nat) (is : List Input) :
    let s := (start script closeTimeout now).run is
    (∀ reason, IsCut 123 reason (cutReason reason) ∧
      ((encode reason).length ≤ 123 → cutReason reason = reason) ∧
      cutOctets? 123 (encode reason) = some (encode (cutReason reason)) ∧
      cutReason (cutReason reason) = cutReason reason) ∧
    (∀ x ∈ s.sent, ∀ code reason, x.frame = .close code reason → (encode reason).length ≤ 123) ∧
    (s.isLive = true → ∀ what, s.EndsUnexpected what (s.reject what)) ∧
    ∀ i new, (s.step i).events = s.events ++ new → Event.unexpected ∈ new →
      ∃ v what, s.Offers i v what ∧ v.EndsUnexpected what (s.step i) := by
  intro s
  have hs : s.Sound := sound_run script closeTimeout now is
  refine ⟨?_, ?_, fun hl => endsUnexpected_reject hl, fun i new => hs.rejection⟩
  · intro reason
    exact ⟨isCut_cutReason reason, cutReason_of_fits, cutOctets?_reason reason,
      cutReason_cutReason reason⟩
  · intro x hx code reason hframe
    obtain ⟨whole, rfl⟩ := reason_run hx hframe
    exact (isCut_cutReason whole).fits

/-- A message of 105 octets whose last character lies across the 104th: the session rejects it with
the 103 octets before, and the reason as a whole has 122. -/
theorem close_reasons_straddling :
    let script : Script := ⟨[], [], [(.message "ping", .ofText "pong")], none⟩
    let what := String.ofList ('a' :: List.replicate 52 'é')
    let s := (start script 2000 0).run [.opened]
    let t := (start script 2000 0).run [.opened, .message what]
    (encode what).length = 105 ∧
      (∃ part, IsCut 104 what part ∧ (encode part).length = 103 ∧
        (s.reject what).sent = [⟨0, .close 1002 ("Unexpected message:" ++ part)⟩]) ∧
      (∃ v offered, s.Offers (.message what) v offered ∧ v.EndsUnexpected offered t) ∧
      ∀ x ∈ t.sent, ∀ code reason, x.frame = .close code reason →
        (encode reason).length ≤ 123 ∧ cutReason reason = reason := by
  intro script what s t
  have hs := close_reasons script 2000 0 [.opened]
  have ht := close_reasons script 2000 0 [.opened, .message what]
  have hsize : (encode what).length = 105 := by decide +kernel
  have hat : isBoundary (encode what) 103 = true := by decide +kernel
  have hacross : isBoundary (encode what) 104 = false := by decide +kernel
  have hlive : s.isLive = true := by decide +kernel
  have hsent : s.sent = [] := by decide +kernel
  have hnow : s.now = 0 := by decide +kernel
  have hevents : t.events = s.events ++ [.unexpected, .closed] := by decide +kernel
  refine ⟨hsize, ?_, hs.2.2.2 (.message what) _ hevents (by decide), ?_⟩
  · -- 104 is not a boundary and 103 is one, so the cut is there
    obtain ⟨part, hcut, heq⟩ := hs.2.2.1 hlive what
    have hle := hcut.longest 103 (by decide) hat
    have hne : (encode part).length ≠ 104 := by
      intro h
      have hboundary := hcut.boundary
      rw [h, hacross] at hboundary
      cases hboundary
    have hfits := hcut.fits
    refine ⟨part, hcut, by omega, ?_⟩
    rw [heq, hsent, hnow]
    rfl
  · intro x hx code reason hframe
    have hfits := ht.2.1 x hx code reason hframe
    exact ⟨hfits, (ht.1 reason).2.1 hfits⟩

end Session

end Understudy
