import Understudy.Session.Clock

/-!
# Understudy.Proofs.Session.Clock

The clock moves sessions by steps.

`settle` and `advance` are runs of a session in which time passes and messages are sent, and nothing
else happens (`settle_eq_run`, `exists_run_advance`). What every step keeps is therefore kept by the
clock too, such as that a closed session stays closed.
-/

namespace Understudy

namespace Session

/-! ### Settling -/

/-- A session that has nothing to do is not changed by `emit`. -/
theorem emit_of_not_due {s : Session} (h : s.isDue = false) : s.emit = s := by
  rw [isDue, Bool.or_eq_false_iff] at h
  obtain ⟨htake, hfin⟩ := h
  have hnone : s.agenda.take? s.now = none := by simpa using htake
  rw [emit, hnone]
  simp [hfin]

theorem run_replicate_emit_of_not_due {s : Session} (h : s.isDue = false) (n : Nat) :
    s.run (List.replicate n .emit) = s := by
  induction n with
  | zero => rfl
  | succ n ih =>
    rw [List.replicate_succ, run_cons, step, emit_of_not_due h]
    exact ih

theorem settleWithin_eq_run (n : Nat) (s : Session) :
    settleWithin n s = s.run (List.replicate n .emit) := by
  induction n generalizing s with
  | zero => rfl
  | succ n ih =>
    rw [settleWithin]
    cases hdue : s.isDue with
    | true => exact ih s.emit
    | false => exact (run_replicate_emit_of_not_due hdue (n + 1)).symm

theorem settle_eq_run (s : Session) : s.settle = s.run (List.replicate s.bound .emit) :=
  settleWithin_eq_run s.bound s

/-! ### Time that passes -/

theorem setTime_eq_step {s : Session} {time : Nat} (h : s.now ≤ time) :
    s.setTime time = s.step (.elapse (time - s.now)) := by
  rw [setTime, step, Nat.add_sub_cancel' h]

/-- Whether time passes in a step, or a message is sent that is due. -/
def Input.IsClock : Input → Prop
  | .elapse _ => True
  | .emit => True
  | _ => False

/-- Advancing to a time is a run of steps of the clock. -/
theorem exists_run_advanceTo {s : Session} {time : Nat} (h : s.now ≤ time) :
    ∃ is, (∀ i ∈ is, i.IsClock) ∧ s.advanceTo time = s.run is := by
  fun_induction advanceTo time s with
  | case1 s hnext =>
    exact ⟨[.elapse (time - s.now)], by simp [Input.IsClock], setTime_eq_step h⟩
  -- a time before the end is reached, and what is due there is settled
  | case2 s next hnext hle ih =>
    obtain ⟨is, hclock, his⟩ := ih (by simpa [setTime] using hle.2)
    refine ⟨.elapse (next - s.now) :: List.replicate (s.setTime next).bound .emit ++ is, ?_, ?_⟩
    · intro i hi
      rcases List.mem_append.mp hi with hi | hi
      · rcases List.mem_cons.mp hi with rfl | hi
        · exact trivial
        · rw [List.eq_of_mem_replicate hi]
          exact trivial
      · exact hclock i hi
    · rw [his, settle_eq_run, run_append, run_cons, ← setTime_eq_step (Nat.le_of_lt hle.1)]
  | case3 s next hnext hle =>
    exact ⟨[.elapse (time - s.now)], by simp [Input.IsClock], setTime_eq_step h⟩

/-- Letting time pass is a run of steps of the clock. -/
theorem exists_run_advance (s : Session) (milliseconds : Nat) :
    ∃ is, (∀ i ∈ is, i.IsClock) ∧ s.advance milliseconds = s.run is := by
  have hle : s.settle.now ≤ s.now + milliseconds := by
    rw [now_settle]
    exact Nat.le_add_right _ _
  obtain ⟨is, hclock, his⟩ := exists_run_advanceTo hle
  refine ⟨List.replicate s.bound .emit ++ is, ?_, ?_⟩
  · intro i hi
    rcases List.mem_append.mp hi with hi | hi
    · rw [List.eq_of_mem_replicate hi]
      exact trivial
    · exact hclock i hi
  · rw [advance, his, settle_eq_run, run_append]

/-! ### Closed sessions -/

/-- A closed session stays closed. -/
theorem phase_step_of_closed {s : Session} (h : s.phase = .closed) (i : Input) :
    (s.step i).phase = .closed := by
  have hlive : s.isLive = false := by simp [isLive, h]
  cases i with
  | opened => simp [step, onOpen, h]
  | message text => simp [step, onMessage, h]
  | binary octets => simp [step, onMessage, h]
  | request r => simp [step, onRequest, h]
  | closed code reason => simp [step, close, isClosed, h]
  | elapse n => exact h
  | emit =>
    rw [step, emit]
    split
    · split
      · simp [deliver, isLive, h]
      · simp [finish, close, isClosed, h]
    · split
      · simp [finish, close, isClosed, h]
      · exact h
  | sendDue =>
    rw [step, sendDue]
    split
    · simp [deliver, isLive, h]
    · exact h

theorem phase_run_of_closed {s : Session} (h : s.phase = .closed) (is : List Input) :
    (s.run is).phase = .closed := by
  induction is generalizing s with
  | nil => exact h
  | cons i is ih => exact ih (phase_step_of_closed h i)

theorem phase_settle_of_closed {s : Session} (h : s.phase = .closed) :
    s.settle.phase = .closed := by
  rw [settle_eq_run]
  exact phase_run_of_closed h _

theorem phase_advance_of_closed {s : Session} (h : s.phase = .closed) (milliseconds : Nat) :
    (s.advance milliseconds).phase = .closed := by
  obtain ⟨is, -, his⟩ := exists_run_advance s milliseconds
  rw [his]
  exact phase_run_of_closed h is

end Session

end Understudy
