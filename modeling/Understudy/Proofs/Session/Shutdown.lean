import Understudy.Proofs.Session.Farewell
import Understudy.Proofs.Timer.Shutdown

/-!
# Understudy.Proofs.Session.Shutdown

A session that closes by itself shuts its timer down.

A session decides message by message whether it still waits, from the delays and its deadline. A
timer that is shut down knows neither messages nor delays: it runs what is due until its worker is
over or the deadline has come. The two agree. What remains of a script without closing codes is what
the timer still runs, and then a farewell at the time at which the shutdown is over
(`close_shuts_down`).
-/

namespace Understudy

namespace Session

/-- What a closing session sends for tasks without closing codes, read off the tasks: those that are
due before the deadline, and a farewell after the last of them, or at the deadline. -/
theorem remaining_eq {deadline : Nat} {ts : List (Agenda.Task Message)}
    (hcode : ∀ t ∈ ts, t.due < deadline → t.item.closingCode = none)
    (horder : ts.Pairwise fun t u => t.due ≤ u.due) {now : Nat} (hnow : ∀ t ∈ ts, now ≤ t.due) :
    remaining deadline ts now =
      (ts.takeWhile (·.due < deadline)).map taskSent ++
        [farewell (if ts.dropWhile (·.due < deadline) = [] then
          (ts.takeWhile (·.due < deadline)).foldl (fun time t => max time t.due) now
          else deadline)] := by
  induction ts generalizing now with
  | nil => rfl
  | cons t ts ih =>
    obtain ⟨hlater, horder⟩ := List.pairwise_cons.mp horder
    obtain ⟨hnone, hcode⟩ := List.forall_mem_cons.mp hcode
    by_cases hdue : t.due < deadline
    · have hmax : max now t.due = t.due := Nat.max_eq_right (hnow t (.head ts))
      rw [remaining_of_no_code hdue (hnone hdue), ih hcode horder hlater]
      simp [hdue, hmax]
    · rw [remaining_of_late (Nat.le_of_not_lt hdue)]
      simp [hdue]

/-- A closing session sends what its agenda runs when it is drained, and then a farewell. -/
theorem remaining_eq_drain {a : Agenda Message} {now limit : Nat}
    (hcode : ∀ t ∈ a.tasks, t.due < now + limit → t.item.closingCode = none)
    (horder : a.tasks.Pairwise fun t u => t.due ≤ u.due) (hnow : ∀ t ∈ a.tasks, now ≤ t.due)
    (hidle : a.isIdle = true → a.tasks = []) :
    remaining (now + limit) a.tasks now =
      (a.drain now limit).ran.map taskSent ++ [farewell (a.drain now limit).time] := by
  cases hbusy : a.isIdle with
  | true =>
    rw [hidle hbusy, Agenda.drain, if_pos hbusy]
    rfl
  | false =>
    rw [remaining_eq hcode horder hnow]
    by_cases hlimit : limit = 0
    · -- nothing is due before now
      have hnone : ∀ t ∈ a.tasks, decide (t.due < now + limit) = false := by
        intro t ht
        simpa [hlimit] using hnow t ht
      have htake : a.tasks.takeWhile (·.due < now + limit) = [] := by
        rw [takeWhile_congr (q := fun _ => false) hnone]
        cases a.tasks <;> rfl
      have hd : a.drain now limit = ⟨false, now, [], a.cancel⟩ := by
        simp [Agenda.drain, hbusy, hlimit]
      rw [htake, hd, hlimit]
      simp
    · rw [Agenda.drain_of_busy hbusy now hlimit]
      simp only [Agenda.takeBefore]
      by_cases hrest : a.tasks.dropWhile (·.due < now + limit) = [] <;> simp [hrest]

/-- A timer with messages, each scheduled for as long as it waits. -/
def withMessages (messages : List Message) (t : Timer Message) : Timer Message :=
  messages.foldl (fun t m => t.schedule m.delay m) t

/-- Scheduling messages plans them on the agenda of the timer. -/
theorem withMessages_spec (messages : List Message) {t : Timer Message} (h : t.Valid) :
    (withMessages messages t).Valid ∧
      (withMessages messages t).plain = ⟨t.now, plan t.now messages t.agenda, t.ran⟩ := by
  induction messages generalizing t with
  | nil => exact ⟨h, rfl⟩
  | cons m messages ih =>
    have hstep : (t.schedule m.delay m).plain = t.plain.step (.schedule m.delay m) :=
      (h.plain_step (.schedule m.delay m)).resolve_right fun hno => by cases hno.1
    obtain ⟨hnow, hagenda, hran⟩ := Timer.Plain.mk.inj hstep
    obtain ⟨hvalid, hplain⟩ := ih (h.schedule m.delay m)
    refine ⟨hvalid, ?_⟩
    rw [hnow, hagenda, hran] at hplain
    exact hplain

/-- **A closing session shuts its timer down.** Let a script have no triggers and not fail, and let
no message of it that waits for less than the close timeout have a closing code, and none wait for
just as long. A timer with its messages is shut down, with the close timeout. Then all that a
session of the script sends when it is left alone is what the timer still runs, each message when it
is due, and a farewell when the shutdown is over. -/
theorem close_shuts_down (script : Script) (closeTimeout now : Nat) (hr : script.replies = [])
    (hf : script.failure = none)
    (hapart : ∀ m ∈ script.opening ++ script.timed, m.delay ≠ closeTimeout)
    (hcode : ∀ m ∈ script.opening ++ script.timed, m.delay < closeTimeout → m.closingCode = none) :
    let timer := withMessages (script.opening ++ script.timed) (.start now)
    let shut := (timer.shutdown closeTimeout).2
    let total := shut.ran.map taskSent ++ [farewell shut.now]
    ∀ spans : List Nat,
      let s := spans.foldl (fun s milliseconds => s.advance milliseconds)
        ((start script closeTimeout now).step .opened).settle
      let time := spans.foldl (· + ·) now
      s.sent = total.filter (·.time ≤ time) ∧
        (now + closeTimeout ≤ time → s.phase = .closed ∧ s.sent = total) := by
  intro timer shut total
  have hstart : (Timer.start now : Timer Message).Valid := Timer.valid_start now
  obtain ⟨hvalid, hplain⟩ := withMessages_spec (script.opening ++ script.timed) hstart
  obtain ⟨hnow, hagenda, hran⟩ := Timer.Plain.mk.inj hplain
  have hempty : timer.agenda = plan now (script.opening ++ script.timed) .empty := hagenda
  have hidle : timer.agenda.isIdle = true → timer.agenda.tasks = [] := by
    intro hidle
    have hstopped : timer.agenda.stopped = false := by rw [hempty, stopped_plan]; rfl
    have hnext : timer.agenda.next = 0 := by simpa [Agenda.isIdle, hstopped] using hidle
    exact hvalid.tasks_of_next_zero hnext
  -- what the agenda still holds, against what the timer still runs
  have hremaining : remaining (now + closeTimeout) timer.agenda.tasks now =
      (timer.agenda.drain now closeTimeout).ran.map taskSent ++
        [farewell (timer.agenda.drain now closeTimeout).time] := by
    refine remaining_eq_drain ?_ hvalid.inOrder ?_ hidle
    · intro t ht hdue
      rw [hempty] at ht
      obtain ⟨hat, hmem⟩ := mem_plan ht
      exact hcode t.item (List.mem_of_getElem? hmem) (by omega)
    · intro t ht
      rw [hempty] at ht
      rw [(mem_plan ht).1]
      exact Nat.le_add_right _ _
  -- the worker agrees with the agenda
  have htotal : total = remaining (now + closeTimeout)
      (plan now (script.opening ++ script.timed) .empty).tasks now := by
    have hstarts : timer.now = now := hnow
    have hnone : timer.ran = [] := hran
    obtain ⟨htime, -, hruns⟩ := Timer.Plain.mk.inj (hvalid.shutdown_spec closeTimeout).2
    rw [hstarts] at htime hruns
    rw [hnone, List.nil_append] at hruns
    rw [← hempty, hremaining, ← htime, ← hruns]
  rw [htotal]
  exact sent_advances hr hf hapart now

end Session

end Understudy
