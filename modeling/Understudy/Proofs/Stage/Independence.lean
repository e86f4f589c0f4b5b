import Understudy.Proofs.Session.Clock
import Understudy.Stage

/-!
# Understudy.Proofs.Stage.Independence

Sessions of one stage are independent.

Whatever happens to a stage, each of its sessions changes as if it were alone: an act is one thing
to the session with a given number (`Act.forSession`), which depends neither on the other sessions
nor on the registry. The stage tells only the sessions that it watches of a request. This makes no
difference, since the others are closed, which is the invariant `Watching`. It is also why the
sessions that are watched and not closed are all that are not closed (`liveSessions_eq`).
-/

namespace Understudy

namespace Stage

/-! ### Acts -/

/-- Something that happens to a stage. -/
inductive Act where
  | dispatch (request : Request)
  | register (key : RequestKey) (entry : Entry)
  /-- A session takes a step that is its own. -/
  | operate (number : Nat) (input : Session.Input)
  /-- Time passes, and nothing is sent yet. -/
  | elapse (milliseconds : Nat)
  /-- Every session sends what is due. -/
  | settle
  /-- Time passes, and every session sends what becomes due. -/
  | advance (milliseconds : Nat)
  /-- The live sessions are counted. -/
  | count

/-- The stage after an act. -/
def perform (s : Stage) : Act → Stage
  | .dispatch request => (s.dispatch request).2
  | .register key entry => { s with registry := s.registry.register key entry }
  | .operate number input => s.step number input
  | .elapse milliseconds =>
    { s with
      sessions := s.sessions.map (·.step (.elapse milliseconds))
      now := s.now + milliseconds }
  | .settle => s.settle
  | .advance milliseconds => s.advance milliseconds
  | .count => s.prune

/-- The stage after some acts, in order. -/
def performAll (s : Stage) (acts : List Act) : Stage := acts.foldl perform s

/-- What an act is to the session with a number: every request reaches it, its own steps do, and the
clock moves it. -/
def Act.forSession (number : Nat) : Act → Session → Session
  | dispatch request, x => x.step (.request request)
  | register _ _, x => x
  | operate n input, x => if n = number then x.step input else x
  | elapse milliseconds, x => x.step (.elapse milliseconds)
  | settle, x => x.settle
  | advance milliseconds, x => x.advance milliseconds
  | count, x => x

/-- What some acts are to the session with a number. -/
def attend (number : Nat) (acts : List Act) (x : Session) : Session :=
  acts.foldl (fun x act => act.forSession number x) x

@[simp] theorem performAll_nil (s : Stage) : s.performAll [] = s := rfl

@[simp] theorem performAll_cons (s : Stage) (act : Act) (acts : List Act) :
    s.performAll (act :: acts) = (s.perform act).performAll acts := rfl

@[simp] theorem attend_nil (number : Nat) (x : Session) : attend number [] x = x := rfl

@[simp] theorem attend_cons (number : Nat) (act : Act) (acts : List Act) (x : Session) :
    attend number (act :: acts) x = attend number acts (act.forSession number x) := rfl

/-- A closed session stays closed. -/
theorem Act.phase_forSession_of_closed {x : Session} (h : x.phase = .closed) (number : Nat)
    (act : Act) : (act.forSession number x).phase = .closed := by
  cases act with
  | dispatch request => exact Session.phase_step_of_closed h _
  | register => exact h
  | operate n input =>
    rw [forSession]
    split
    · exact Session.phase_step_of_closed h input
    · exact h
  | elapse n => exact h
  | settle => exact Session.phase_settle_of_closed h
  | advance n => exact Session.phase_advance_of_closed h n
  | count => exact h

/-! ### The sessions that are watched -/

/-- Every session that is not closed is watched, and only sessions that have begun are. -/
structure Watching (s : Stage) : Prop where
  nodup : s.watched.Nodup
  begun : ∀ n ∈ s.watched, n < s.sessions.length
  live : ∀ n x, s.sessions[n]? = some x → x.phase ≠ .closed → n ∈ s.watched

theorem watching_empty (closeTimeout : Nat) : (empty closeTimeout).Watching where
  nodup := List.nodup_nil
  begun := fun _ hn => by cases hn
  live := fun _ _ hx => by cases hx

theorem mem_watched_prune {s : Stage} {n : Nat} :
    n ∈ s.prune.watched ↔
      n ∈ s.watched ∧ ∃ x, s.sessions[n]? = some x ∧ x.phase ≠ .closed := by
  rw [prune, List.mem_filter, isClosed]
  cases s.sessions[n]? with
  | none => simp
  | some x => simp [Session.isClosed]

theorem Watching.prune {s : Stage} (hs : s.Watching) : s.prune.Watching where
  nodup := hs.nodup.sublist List.filter_sublist
  begun := fun n hn => hs.begun n (mem_watched_prune.mp hn).1
  live := fun n x hx hp => mem_watched_prune.mpr ⟨hs.live n x hx hp, x, hx, hp⟩

/-- Each session changes by itself, and none that is closed opens again. -/
theorem Watching.map {s u : Stage} (hs : s.Watching) {f : Nat → Session → Session}
    (hf : ∀ n x, x.phase = .closed → (f n x).phase = .closed)
    (hsessions : u.sessions = s.sessions.mapIdx f) (hwatched : u.watched = s.watched) :
    u.Watching where
  nodup := by rw [hwatched]; exact hs.nodup
  begun := by
    intro n hn
    rw [hsessions, List.length_mapIdx]
    exact hs.begun n (hwatched ▸ hn)
  live := by
    intro n x hx hp
    rw [hsessions, List.getElem?_mapIdx, Option.map_eq_some_iff] at hx
    obtain ⟨y, hy, rfl⟩ := hx
    rw [hwatched]
    exact hs.live n y hy fun hclosed => hp (hf n y hclosed)

/-- A session begins. -/
theorem Watching.concat {s u : Stage} (hs : s.Watching) {x : Session}
    (hsessions : u.sessions = s.sessions ++ [x])
    (hwatched : u.watched = s.watched ++ [s.sessions.length]) : u.Watching where
  nodup := by
    rw [hwatched, List.nodup_append]
    refine ⟨hs.nodup, List.pairwise_singleton _ _, ?_⟩
    intro n hn k hk heq
    rw [heq, List.mem_singleton.mp hk] at hn
    exact Nat.lt_irrefl _ (hs.begun _ hn)
  begun := by
    intro n hn
    rw [hsessions, List.length_append, List.length_singleton]
    rw [hwatched] at hn
    rcases List.mem_append.mp hn with hn | hn
    · exact Nat.lt_succ_of_lt (hs.begun n hn)
    · rw [List.mem_singleton.mp hn]
      exact Nat.lt_succ_self _
  live := by
    intro n y hy hp
    rw [hwatched]
    rw [hsessions] at hy
    -- a session that has begun before, or the new one
    by_cases hn : n < s.sessions.length
    · rw [List.getElem?_append_left hn] at hy
      exact List.mem_append_left _ (hs.live n y hy hp)
    · have hlength := (List.getElem?_eq_some_iff.mp hy).1
      rw [List.length_append, List.length_singleton] at hlength
      have heq : n = s.sessions.length := by omega
      exact List.mem_append_right _ (List.mem_singleton.mpr heq)

/-! ### Requests -/

theorem foldl_step (s : Stage) (input : Session.Input) (numbers : List Nat) :
    numbers.foldl (fun s number => s.step number input) s =
      { s with
        sessions := numbers.foldl (fun xs n => xs.modify n (·.step input)) s.sessions } := by
  induction numbers generalizing s with
  | nil => rfl
  | cons n numbers ih =>
    rw [List.foldl_cons, ih]
    rfl

/-- Modifying the members with some numbers, each of them once. -/
theorem getElem?_foldl_modify {α : Type} (f : α → α) {numbers : List Nat} (h : numbers.Nodup)
    (xs : List α) (k : Nat) :
    (numbers.foldl (fun xs n => xs.modify n f) xs)[k]? =
      if k ∈ numbers then xs[k]?.map f else xs[k]? := by
  induction numbers generalizing xs with
  | nil => rfl
  | cons n numbers ih =>
    obtain ⟨hn, h⟩ := List.nodup_cons.mp h
    rw [List.foldl_cons, ih h, List.getElem?_modify]
    by_cases hk : n = k
    · subst hk
      simp [hn]
    · simp [hk, Ne.symm hk]

theorem step_request_of_closed {x : Session} (h : x.phase = .closed) (request : Request) :
    x.step (.request request) = x := by
  rw [Session.step, Session.onRequest, if_neg]
  rw [h]
  simp

/-- A request reaches every session, since those that are not watched are closed. -/
theorem Watching.notify_eq {s : Stage} (hs : s.Watching) (request : Request) :
    s.notify request =
      { s with
        sessions := s.sessions.mapIdx fun _ x => x.step (.request request)
        watched := s.prune.watched } := by
  have hsessions : s.prune.watched.foldl
      (fun xs n => xs.modify n (·.step (.request request))) s.sessions =
        s.sessions.mapIdx fun _ x => x.step (.request request) := by
    refine List.ext_getElem? ?_
    intro k
    rw [getElem?_foldl_modify _ hs.prune.nodup, List.getElem?_mapIdx]
    split
    · rfl
    · rename_i hk
      cases hx : s.sessions[k]? with
      | none => rfl
      | some x =>
        have hclosed : x.phase = .closed := by
          by_cases hp : x.phase = .closed
          · exact hp
          · exact absurd (hs.prune.live k x hx hp) hk
        rw [Option.map_some, step_request_of_closed hclosed]
  rw [notify, foldl_step, ← hsessions]
  rfl

/-- How a request is answered, and what the stage is then. -/
inductive Outcome (s : Stage) (request : Request) : Response → Stage → Prop
  /-- There is no entry for it. -/
  | missing :
      s.registry.next? request.method request.path = none →
      Outcome s request .notFound (s.notify request)
  /-- An entry answers it. -/
  | answered {entry : Entry} {registry : Registry} {response : Response} :
      s.registry.next? request.method request.path = some (entry, registry) →
      entry.answer request = .response response →
      Outcome s request response { s.notify request with registry := registry }
  /-- An entry begins a session. -/
  | begun {entry : Entry} {registry : Registry} {script : Script} :
      s.registry.next? request.method request.path = some (entry, registry) →
      entry.answer request = .conversation script →
      Outcome s request (.switching (s.notify request).sessions.length)
        { s.notify request with
          registry := registry
          sessions := (s.notify request).sessions ++
            [Session.start script s.closeTimeout s.now]
          watched := (s.notify request).watched ++ [(s.notify request).sessions.length] }

/-- A request leaves everything but the sessions alone until it is answered. -/
theorem notify_fields (s : Stage) (request : Request) :
    (s.notify request).registry = s.registry ∧
      (s.notify request).closeTimeout = s.closeTimeout ∧ (s.notify request).now = s.now := by
  rw [notify, foldl_step]
  exact ⟨rfl, rfl, rfl⟩

/-- Every dispatch has an outcome. -/
theorem outcome_dispatch (s : Stage) (request : Request) :
    s.Outcome request (s.dispatch request).1 (s.dispatch request).2 := by
  obtain ⟨hregistry, htimeout, hnow⟩ := notify_fields s request
  rw [dispatch, answer, hregistry]
  cases hnext : s.registry.next? request.method request.path with
  | none => exact .missing hnext
  | some found =>
    obtain ⟨entry, registry⟩ := found
    simp only
    cases hanswer : entry.answer request with
    | response response => exact .answered hnext hanswer
    | conversation script =>
      have hbegun := Outcome.begun hnext hanswer
      rw [← htimeout, ← hnow] at hbegun
      exact hbegun

/-! ### What an act does -/

/-- A request is answered by the beginning of a session. -/
def Begins (s : Stage) (request : Request) (script : Script) : Prop :=
  ∃ entry registry, s.registry.next? request.method request.path = some (entry, registry) ∧
    entry.answer request = .conversation script

/-- Requests reach every session, and one more may begin. -/
theorem Outcome.sessions_eq {s u : Stage} {request : Request} {response : Response}
    (h : s.Outcome request response u) (hs : s.Watching) :
    ∃ new, u.sessions = s.sessions.mapIdx (Act.dispatch request).forSession ++ new ∧
      (new = [] ∨ ∃ script, s.Begins request script ∧
        new = [Session.start script s.closeTimeout s.now]) := by
  have hsessions : (s.notify request).sessions =
      s.sessions.mapIdx (Act.dispatch request).forSession := by
    rw [hs.notify_eq request]
    rfl
  cases h with
  | missing => exact ⟨[], by rw [hsessions, List.append_nil], Or.inl rfl⟩
  | answered => exact ⟨[], by rw [hsessions, List.append_nil], Or.inl rfl⟩
  | @begun entry registry script hnext hanswer =>
    exact ⟨_, by rw [hsessions], Or.inr ⟨script, ⟨entry, registry, hnext, hanswer⟩, rfl⟩⟩

theorem Outcome.watching {s u : Stage} {request : Request} {response : Response}
    (h : s.Outcome request response u) (hs : s.Watching) : u.Watching := by
  have hnotify : (s.notify request).Watching :=
    hs.prune.map (fun n x hx => Act.phase_forSession_of_closed hx n (.dispatch request))
      (by rw [hs.notify_eq request]; rfl) (by rw [hs.notify_eq request])
  cases h with
  | missing => exact hnotify
  | answered => exact ⟨hnotify.nodup, hnotify.begun, hnotify.live⟩
  | begun => exact hnotify.concat rfl rfl

/-- An act other than a request, and other than a count, is something to each session alone. -/
theorem sessions_perform_eq (s : Stage) (act : Act) (h : ∀ request, act ≠ .dispatch request) :
    (s.perform act).sessions = s.sessions.mapIdx act.forSession := by
  refine List.ext_getElem? ?_
  intro k
  rw [List.getElem?_mapIdx]
  cases act with
  | dispatch request => exact absurd rfl (h request)
  | register key entry =>
    rw [perform]
    cases s.sessions[k]? <;> rfl
  | operate n input =>
    rw [perform, step, List.getElem?_modify]
    rfl
  | elapse n =>
    rw [perform, List.getElem?_map]
    rfl
  | settle =>
    rw [perform, settle, List.getElem?_map]
    rfl
  | advance n =>
    rw [perform, advance, List.getElem?_map]
    rfl
  | count =>
    rw [perform, prune]
    cases s.sessions[k]? <;> rfl

/-- Each session attends to an act by itself, and a request may begin one more. -/
theorem Watching.sessions_perform {s : Stage} (hs : s.Watching) (act : Act) :
    ∃ new, (s.perform act).sessions = s.sessions.mapIdx act.forSession ++ new ∧
      (new = [] ∨ ∃ request script, act = .dispatch request ∧ s.Begins request script ∧
        new = [Session.start script s.closeTimeout s.now]) := by
  by_cases hact : ∃ request, act = .dispatch request
  · obtain ⟨request, rfl⟩ := hact
    obtain ⟨new, hsessions, hnew⟩ := (s.outcome_dispatch request).sessions_eq hs
    refine ⟨new, hsessions, hnew.imp_right ?_⟩
    rintro ⟨script, hbegins, hnew⟩
    exact ⟨request, script, rfl, hbegins, hnew⟩
  · refine ⟨[], ?_, Or.inl rfl⟩
    rw [List.append_nil]
    exact sessions_perform_eq s act fun request heq => hact ⟨request, heq⟩

/-- An act keeps every session watched that is not closed. -/
theorem Watching.perform {s : Stage} (hs : s.Watching) (act : Act) : (s.perform act).Watching := by
  have halone (h : ∀ request, act ≠ .dispatch request)
      (hwatched : (s.perform act).watched = s.watched) : (s.perform act).Watching :=
    hs.map (fun n x hx => Act.phase_forSession_of_closed hx n act)
      (sessions_perform_eq s act h) hwatched
  cases act with
  | dispatch request => exact (s.outcome_dispatch request).watching hs
  | register => exact halone (by simp) rfl
  | operate => exact halone (by simp) rfl
  | elapse => exact halone (by simp) rfl
  | settle => exact halone (by simp) rfl
  | advance => exact halone (by simp) rfl
  | count => exact hs.prune

theorem Watching.performAll {s : Stage} (hs : s.Watching) (acts : List Act) :
    (s.performAll acts).Watching := by
  induction acts generalizing s with
  | nil => exact hs
  | cons act acts ih => exact ih (hs.perform act)

theorem closeTimeout_perform (s : Stage) (act : Act) :
    (s.perform act).closeTimeout = s.closeTimeout := by
  cases act with
  | dispatch request =>
    have hnotify := (notify_fields s request).2.1
    have houtcome := s.outcome_dispatch request
    rw [Stage.perform]
    generalize (s.dispatch request).1 = response at houtcome
    generalize (s.dispatch request).2 = u at houtcome
    cases houtcome <;> exact hnotify
  | _ => rfl

theorem closeTimeout_performAll (s : Stage) (acts : List Act) :
    (s.performAll acts).closeTimeout = s.closeTimeout := by
  induction acts generalizing s with
  | nil => rfl
  | cons act acts ih => rw [performAll_cons, ih, closeTimeout_perform]

/-! ### Runs -/

/-- A session that is there after some acts has been there before, or a request has begun it; since
then it has attended to all acts by itself. -/
theorem Watching.sessions_performAll {s : Stage} (hs : s.Watching) (acts : List Act)
    {number : Nat} {x : Session} (hx : (s.performAll acts).sessions[number]? = some x) :
    (∃ y, s.sessions[number]? = some y ∧ x = attend number acts y) ∨
    ∃ pre request post script, acts = pre ++ .dispatch request :: post ∧
      let before := s.performAll pre
      before.sessions.length = number ∧ before.Begins request script ∧
      x = attend number post (Session.start script before.closeTimeout before.now) := by
  induction acts generalizing s with
  | nil => exact Or.inl ⟨x, hx, rfl⟩
  | cons act acts ih =>
    -- either the session was there after the first act, or it has begun later
    rcases ih (hs.perform act) hx with ⟨y, hy, rfl⟩ | ⟨pre, request, post, script, rfl, hrest⟩
    · obtain ⟨new, hsessions, hnew⟩ := hs.sessions_perform act
      rw [hsessions] at hy
      by_cases hnumber : number < s.sessions.length
      · have hlength : number < (s.sessions.mapIdx act.forSession).length := by
          rw [List.length_mapIdx]
          exact hnumber
        rw [List.getElem?_append_left hlength, List.getElem?_mapIdx,
          Option.map_eq_some_iff] at hy
        obtain ⟨z, hz, rfl⟩ := hy
        exact Or.inl ⟨z, hz, rfl⟩
      · -- the session has begun just now
        rcases hnew with rfl | ⟨request, script, rfl, hbegins, rfl⟩
        · rw [List.append_nil, List.getElem?_eq_none (by simpa using hnumber)] at hy
          cases hy
        · have hlength := (List.getElem?_eq_some_iff.mp hy).1
          rw [List.length_append, List.length_mapIdx, List.length_singleton] at hlength
          have heq : number = s.sessions.length := by omega
          subst heq
          rw [List.getElem?_append_right (by simp), List.length_mapIdx, Nat.sub_self] at hy
          cases hy
          exact Or.inr ⟨[], request, acts, script, rfl, rfl, hbegins, rfl⟩
    · exact Or.inr ⟨act :: pre, request, post, script, rfl, hrest⟩

/-! ### Responses -/

/-- What a registry answers to a request by itself, if the next session has a number. -/
def respond (r : Registry) (request : Request) (number : Nat) : Response × Registry :=
  match r.next? request.method request.path with
  | none => (.notFound, r)
  | some (entry, rest) =>
    match entry.answer request with
    | .response response => (response, rest)
    | .conversation _ => (.switching number, rest)

/-- Whether two responses differ in nothing but the session that an upgrade leads to. -/
structure Alike (r u : Response) : Prop where
  status : r.status = u.status
  headers : r.headers = u.headers
  delay : r.delay = u.delay
  body : r.body = u.body ∨ ∃ m n, r.body = .session m ∧ u.body = .session n

theorem alike_respond (r : Registry) (request : Request) (m n : Nat) :
    Alike (respond r request m).1 (respond r request n).1 ∧
      (respond r request m).2 = (respond r request n).2 := by
  unfold respond
  split
  · exact ⟨⟨rfl, rfl, rfl, Or.inl rfl⟩, rfl⟩
  · split
    · exact ⟨⟨rfl, rfl, rfl, Or.inl rfl⟩, rfl⟩
    · exact ⟨⟨rfl, rfl, rfl, Or.inr ⟨m, n, rfl, rfl⟩⟩, rfl⟩

/-- The sessions have no part in how a request is answered. -/
theorem Outcome.eq_respond {s u : Stage} {request : Request} {response : Response}
    (h : s.Outcome request response u) :
    (response, u.registry) = respond s.registry request (s.notify request).sessions.length := by
  rw [respond]
  cases h with
  | missing hnext =>
    rw [hnext, (notify_fields s request).1]
  | answered hnext hanswer =>
    rw [hnext]
    simp only [hanswer]
  | begun hnext hanswer =>
    rw [hnext]
    simp only [hanswer]

theorem alike_dispatch {s t : Stage} (h : s.registry = t.registry) (request : Request) :
    Alike (s.dispatch request).1 (t.dispatch request).1 ∧
      (s.dispatch request).2.registry = (t.dispatch request).2.registry := by
  have hs := (s.outcome_dispatch request).eq_respond
  have ht := (t.outcome_dispatch request).eq_respond
  obtain ⟨hresponse, hregistry⟩ := Prod.mk.inj hs
  obtain ⟨hresponse', hregistry'⟩ := Prod.mk.inj ht
  rw [hresponse, hregistry, hresponse', hregistry', h]
  exact alike_respond t.registry request _ _

theorem registry_perform {s t : Stage} (h : s.registry = t.registry) (act : Act) :
    (s.perform act).registry = (t.perform act).registry := by
  cases act with
  | dispatch request => exact (alike_dispatch h request).2
  | register key entry => exact congrArg (·.register key entry) h
  | operate => exact h
  | elapse => exact h
  | settle => exact h
  | advance => exact h
  | count => exact h

theorem registry_performAll {s t : Stage} (h : s.registry = t.registry) (acts : List Act) :
    (s.performAll acts).registry = (t.performAll acts).registry := by
  induction acts generalizing s t with
  | nil => exact h
  | cons act acts ih => exact ih (registry_perform h act)

/-! ### The number of live sessions -/

theorem length_filter_range {α : Type} (p : α → Bool) (xs : List α) :
    ((List.range xs.length).filter fun n => xs[n]?.any p).length = xs.countP p := by
  induction xs with
  | nil => rfl
  | cons x xs ih =>
    rw [List.length_cons, List.range_succ_eq_map, List.filter_cons, List.filter_map,
      List.countP_cons, ← ih]
    by_cases hx : p x = true <;> simp [hx, Function.comp_def]

/-- All sessions that are not closed are counted as live, and no others. -/
theorem Watching.liveSessions_eq {s : Stage} (hs : s.Watching) :
    s.liveSessions = s.sessions.countP fun x => !x.isClosed := by
  have hperm : s.prune.watched.Perm
      ((List.range s.sessions.length).filter fun n => s.sessions[n]?.any fun x => !x.isClosed) := by
    refine (List.perm_ext_iff_of_nodup hs.prune.nodup
      (List.nodup_range.sublist List.filter_sublist)).mpr fun n => ?_
    rw [mem_watched_prune, List.mem_filter, List.mem_range]
    cases hx : s.sessions[n]? with
    | none => simp
    | some x =>
      have hn : n < s.sessions.length := (List.getElem?_eq_some_iff.mp hx).1
      have hwatched : x.phase ≠ .closed → n ∈ s.watched := hs.live n x hx
      simpa [hn, Session.isClosed] using hwatched
  rw [liveSessions, hperm.length_eq, length_filter_range]

/-! ### Independence -/

/-- **Independence.** In every run of a stage that was empty:

* each session was begun by a request, and is now what a session by itself would be that was made
  of the same script and at the same time, and to which everything that came after that request has
  happened: all later requests, its own steps, and the clock;
* every request is answered as by any other stage with the same registry, for instance one without
  sessions, up to the number of the session of an upgrade; and what is left in the registry does not
  depend on the sessions either, however the run goes on;
* the live sessions that are counted are all those that have begun and are not closed. -/
theorem sessions_independent (closeTimeout : Nat) (acts : List Act) :
    let s₀ := empty closeTimeout
    let s := s₀.performAll acts
    (∀ number x, s.sessions[number]? = some x →
      ∃ pre request post script, acts = pre ++ .dispatch request :: post ∧
        let before := s₀.performAll pre
        before.sessions.length = number ∧ before.Begins request script ∧
        x = attend number post (Session.start script closeTimeout before.now)) ∧
    (∀ t : Stage, s.registry = t.registry →
      (∀ request, Alike (s.dispatch request).1 (t.dispatch request).1) ∧
      ∀ more, (s.performAll more).registry = (t.performAll more).registry) ∧
    s.liveSessions = s.sessions.countP fun x => x.phase ≠ .closed := by
  intro s₀ s
  have hs₀ : s₀.Watching := watching_empty closeTimeout
  refine ⟨?_, ?_, ?_⟩
  · intro number x hx
    rcases hs₀.sessions_performAll acts hx with ⟨y, hy, -⟩ | hbegun
    · cases hy
    · obtain ⟨pre, request, post, script, hacts, hlength, hbegins, rfl⟩ := hbegun
      refine ⟨pre, request, post, script, hacts, hlength, hbegins, ?_⟩
      rw [closeTimeout_performAll]
      rfl
  · intro t ht
    refine ⟨?_, registry_performAll ht⟩
    intro request
    exact (alike_dispatch ht request).1
  · rw [(hs₀.performAll acts).liveSessions_eq]
    refine List.countP_congr ?_
    intro x _
    simp [Session.isClosed]

/-- Two sessions of one script: the first has used up a reply and closed, and the second one still
has it, and has heard of a request that nothing else answers. -/
theorem sessions_independent_shared :
    let script : Script :=
      ⟨[], [], [(.message "ping", .ofText "pong"), (.request ⟨.any, "/news"⟩, .ofText "news")],
        none⟩
    let acts : List Act :=
      [.register ⟨.any, "/ws"⟩ ⟨.conversation script, [], none, true⟩,
        .dispatch { method := "GET", path := "/ws" }, .operate 0 .opened,
        .operate 0 (.message "ping"), .dispatch { method := "GET", path := "/ws" },
        .operate 1 .opened, .operate 0 (.closed 1000 ""),
        .dispatch { method := "PUT", path := "/news" }, .settle]
    let s := (empty 2000).performAll acts
    s.liveSessions = 1 ∧
    ∃ x, s.sessions[1]? = some x ∧ x.sent = [⟨0, .text "news"⟩] ∧
      x.replies = [(.message "ping", [.ofText "pong"]), (.request ⟨.any, "/news"⟩, [])] ∧
      ∃ pre request post script, acts = pre ++ .dispatch request :: post ∧
        let before := (empty 2000).performAll pre
        before.sessions.length = 1 ∧ before.Begins request script ∧
        x = attend 1 post (Session.start script 2000 before.now) := by
  intro script acts s
  obtain ⟨hsessions, -, -⟩ := sessions_independent 2000 acts
  have hlive : s.liveSessions = 1 := by decide +kernel
  have hsome : s.sessions[1]?.map (fun x => (x.sent, x.replies)) =
      some ([⟨0, .text "news"⟩],
        [(.message "ping", [.ofText "pong"]), (.request ⟨.any, "/news"⟩, [])]) := by
    decide +kernel
  obtain ⟨x, hx, hparts⟩ := Option.map_eq_some_iff.mp hsome
  obtain ⟨hsent, hreplies⟩ := Prod.mk.inj hparts
  exact ⟨hlive, x, hx, hsent, hreplies, hsessions 1 x hx⟩

end Stage

end Understudy
