import Understudy.Expectation.Sheet

/-!
# Understudy.Proofs.Script.Cues

What a script holds of the cues that it is built from.

A cue puts messages at the ends of the lists of a script, and takes nothing away (`add_eq`). So each
list of a script is what its cues put there, one after the other (`ofCues_eq`), and the queue of a
trigger is what the replies to this trigger put into it, wherever the other cues stand
(`queue_ofCues`).

A reply that is given no time puts nothing into its queue. So a trigger is registered only if some
reply to it is given at least once, and a script may have replies and no triggers, which is when a
session closes by itself.

A conversation that is written down is a list of cues too.
-/

namespace Understudy

namespace Script

/-! ### What cues put into a script -/

/-- How many copies of a message go into the queue. -/
def Repeat.count : Repeat → Nat
  | once => 1
  | always => 1
  | times n => n

namespace Cue

/-- The messages that a part of a script gives for when the connection opens. -/
def openings : Cue → List Message
  | opening messages => messages
  | wait _ _ => []
  | reply _ _ _ => []

/-- The messages for later, each with the delay that it waits for. -/
def waits : Cue → List Message
  | opening _ => []
  | wait delay m => [⟨m.payload, delay, m.leaves, m.closingCode⟩]
  | reply _ _ _ => []

/-- The replies to a trigger. Each leaves its queue when it is used, but for one that is always
given, whatever the message says. -/
def repliesTo (trigger : Trigger) : Cue → List Message
  | opening _ => []
  | wait _ _ => []
  | reply own m repeats =>
    if own = trigger then
      List.replicate repeats.count
        ⟨m.payload, m.delay, decide (repeats ≠ .always), m.closingCode⟩
    else []

/-- The replies under their triggers. -/
def replies : Cue → Replies
  | opening _ => []
  | wait _ _ => []
  | reply trigger m repeats => (repeats.copies m).map fun copy => (trigger, copy)

end Cue

theorem Repeat.copies_eq (repeats : Repeat) (m : Message) :
    repeats.copies m =
      List.replicate repeats.count
        ⟨m.payload, m.delay, decide (repeats ≠ .always), m.closingCode⟩ := by
  cases repeats <;> rfl

theorem Cue.queue_replies (trigger : Trigger) (cue : Cue) :
    Queues.queue cue.replies trigger = cue.repliesTo trigger := by
  cases cue with
  | opening messages => rfl
  | wait delay m => rfl
  | reply own m repeats => rw [replies, Queues.queue_map_key, repeats.copies_eq, repliesTo]

theorem add_eq (script : Script) (cue : Cue) :
    script.add cue =
      ⟨script.opening ++ cue.openings, script.timed ++ cue.waits, script.replies ++ cue.replies,
        script.failure⟩ := by
  obtain ⟨opening, timed, replies, failure⟩ := script
  cases cue <;> simp [add, Cue.openings, Cue.waits, Cue.replies]

theorem foldl_add (script : Script) (cues : List Cue) :
    cues.foldl add script =
      ⟨script.opening ++ cues.flatMap Cue.openings, script.timed ++ cues.flatMap Cue.waits,
        script.replies ++ cues.flatMap Cue.replies, script.failure⟩ := by
  induction cues generalizing script with
  | nil => simp
  | cons cue cues ih =>
    simp only [List.foldl_cons, ih, add_eq, List.flatMap_cons, List.append_assoc]

theorem ofCues_eq (cues : List Cue) :
    ofCues cues =
      ⟨cues.flatMap Cue.openings, cues.flatMap Cue.waits, cues.flatMap Cue.replies, none⟩ :=
  foldl_add _ cues

/-! ### Triggers -/

theorem queue_ofCues (cues : List Cue) (trigger : Trigger) :
    Queues.queue (ofCues cues).replies trigger = cues.flatMap (Cue.repliesTo trigger) := by
  rw [ofCues_eq, Queues.queue_flatMap]
  simp only [Cue.queue_replies]

/-- No reply to a trigger is given at least once. -/
def Silent (cues : List Cue) (trigger : Trigger) : Prop :=
  ∀ m repeats, Cue.reply trigger m repeats ∈ cues → repeats = .times 0

theorem Repeat.count_eq_zero_iff (repeats : Repeat) : repeats.count = 0 ↔ repeats = .times 0 := by
  cases repeats <;> simp [count]

/-- A part of a script gives no reply to a trigger, unless it is one with a count above zero. -/
theorem Cue.repliesTo_eq_nil_iff {trigger : Trigger} {cue : Cue} :
    cue.repliesTo trigger = [] ↔
      ∀ m repeats, cue = .reply trigger m repeats → repeats = .times 0 := by
  cases cue with
  | opening messages => simp [repliesTo]
  | wait delay m => simp [repliesTo]
  | reply own m repeats =>
    rw [repliesTo]
    by_cases h : own = trigger
    · subst h
      rw [if_pos rfl, List.replicate_eq_nil_iff, repeats.count_eq_zero_iff]
      constructor
      · rintro hzero _ _ heq
        cases heq
        exact hzero
      · intro hzero
        exact hzero m repeats rfl
    · simp [h]

theorem queue_ofCues_eq_nil_iff {cues : List Cue} {trigger : Trigger} :
    Queues.queue (ofCues cues).replies trigger = [] ↔ Silent cues trigger := by
  simp only [queue_ofCues, List.flatMap_eq_nil_iff, Cue.repliesTo_eq_nil_iff]
  constructor
  · intro h m repeats hcue
    exact h _ hcue m repeats rfl
  · rintro h _ hcue m repeats rfl
    exact h m repeats hcue

theorem queue?_eq_none_iff {script : Script} {trigger : Trigger} :
    script.queue? trigger = none ↔ Queues.queue script.replies trigger = [] := by
  rw [queue?]
  split
  next h => simpa using (Queues.has_eq_true_iff _ _).mp h
  next h => simpa using mt (Queues.has_eq_true_iff _ _).mpr h

/-- A script has no replies if every queue is empty. -/
theorem replies_eq_nil_iff {script : Script} :
    script.replies = [] ↔ ∀ trigger, Queues.queue script.replies trigger = [] := by
  constructor
  · intro h trigger
    rw [h, Queues.queue_nil]
  · intro h
    cases hreplies : script.replies with
    | nil => rfl
    | cons reply rest =>
      have hqueue := h reply.1
      rw [hreplies, Queues.queue_cons, if_pos rfl] at hqueue
      cases hqueue

end Script

/-! ### Conversations that are written down -/

namespace Sheet

open Script (Cue)

/-- The message of an answer, in the queue of its trigger. -/
def Answer.reply (a : Answer) : Message := ⟨.text a.message, 0, !a.always, none⟩

/-- The message that is written down for later. -/
def Timed.waiting (t : Timed) : Message := ⟨.text t.message, t.delay, true, none⟩

/-- The cue for an answer. -/
def Answer.cue (a : Answer) : Cue :=
  .reply (.message a.trigger) (.ofText a.message) (if a.always then .always else .once)

theorem Answer.repliesTo_cue (a : Answer) (trigger : Trigger) :
    a.cue.repliesTo trigger = if .message a.trigger = trigger then [a.reply] else [] := by
  rw [cue, Cue.repliesTo, reply]
  cases a.always <;> rfl

theorem flatMap_repliesTo_cue (answers : List Answer) (trigger : Trigger) :
    answers.flatMap (fun a => a.cue.repliesTo trigger) =
      (answers.filter fun a => .message a.trigger = trigger).map Answer.reply := by
  induction answers with
  | nil => rfl
  | cons a answers ih =>
    rw [List.flatMap_cons, ih, a.repliesTo_cue, List.filter_cons]
    by_cases h : .message a.trigger = trigger <;> simp [h]

namespace Conversation

variable (c : Conversation)

theorem flatMap_cues {β : Type} (f : Cue → List β) :
    c.cues.flatMap f =
      f (.opening (c.opening.map .ofText)) ++
        (c.timed.flatMap (fun t => f (.wait t.delay (.ofText t.message))) ++
          c.answers.flatMap fun a => f a.cue) := by
  rw [cues, List.cons_append, List.flatMap_cons, List.flatMap_append, List.flatMap_map,
    List.flatMap_map]
  rfl

theorem opening_script : c.script.opening = c.opening.map Message.ofText := by
  have htimed : c.timed.flatMap (fun t => Cue.openings (.wait t.delay (.ofText t.message))) = [] :=
    List.flatMap_eq_nil_iff.mpr fun _ _ => rfl
  have hanswers : c.answers.flatMap (fun a => a.cue.openings) = [] :=
    List.flatMap_eq_nil_iff.mpr fun _ _ => rfl
  simp only [script, Script.ofCues_eq, flatMap_cues, htimed, hanswers, List.append_nil]
  rfl

theorem timed_script : c.script.timed = c.timed.map Timed.waiting := by
  have hanswers : c.answers.flatMap (fun a => a.cue.waits) = [] :=
    List.flatMap_eq_nil_iff.mpr fun _ _ => rfl
  simp only [script, Script.ofCues_eq, flatMap_cues, hanswers, List.append_nil,
    List.map_eq_flatMap]
  rfl

/-- Nothing but the answers puts replies into a queue. -/
theorem queue_script (trigger : Trigger) :
    Queues.queue c.script.replies trigger =
      (c.answers.filter fun a => .message a.trigger = trigger).map Answer.reply := by
  rw [script, Script.queue_ofCues, flatMap_cues, flatMap_repliesTo_cue]
  simp [Cue.repliesTo]

end Conversation

end Sheet

namespace Script

open Sheet (Conversation Answer Timed)

/-- **The queues of a script.** Let a script be built from cues, in any order.

* The queue of each trigger has the replies to it in the order of the cues: a reply that is given
  once, or some number of times, in as many copies, each of which leaves the queue when it is used;
  and one that is always given in one copy, which stays. The message does not decide on this.
* A trigger whose replies are all given no times is not registered, and every other one with a reply
  is. A script has no triggers if none of them is.
* The messages for the opening, and those for later, are in the order of the cues, and each of those
  for later has the delay of its cue.
* The script of a conversation that is written down has the opening and the timed messages of the
  conversation, and the answers to each text as the queue of this text, in order; it has no other
  triggers. -/
theorem queues_of_cues :
    (∀ cues : List Cue,
      let s := ofCues cues
      (∀ trigger, Queues.queue s.replies trigger = cues.flatMap (Cue.repliesTo trigger)) ∧
      (∀ trigger, s.queue? trigger = none ↔ Silent cues trigger) ∧
      (∀ trigger, trigger ∈ Queues.keys s.replies ↔ ¬ Silent cues trigger) ∧
      (s.replies = [] ↔ ∀ trigger, Silent cues trigger) ∧
      s.opening = cues.flatMap Cue.openings ∧
      s.timed = cues.flatMap Cue.waits ∧
      s.failure = none) ∧
    ∀ c : Conversation,
      c.script.opening = c.opening.map Message.ofText ∧
      c.script.timed = c.timed.map Timed.waiting ∧
      (∀ text, Queues.queue c.script.replies (.message text) =
        (c.answers.filter fun a => a.trigger = text).map Answer.reply) ∧
      (∀ key, c.script.queue? (.request key) = none) ∧
      (∀ text, c.script.queue? (.sent text) = none) ∧
      c.script.failure = none := by
  constructor
  · intro cues s
    refine ⟨queue_ofCues cues, fun _ => queue?_eq_none_iff.trans queue_ofCues_eq_nil_iff,
      fun _ => (Queues.mem_keys_iff _ _).trans (not_congr queue_ofCues_eq_nil_iff),
      replies_eq_nil_iff.trans (forall_congr' fun _ => queue_ofCues_eq_nil_iff), ?_⟩
    rw [show s = _ from ofCues_eq cues]
    exact ⟨rfl, rfl, rfl⟩
  · intro c
    have hno {trigger : Trigger} (h : ∀ text, .message text ≠ trigger) :
        c.script.queue? trigger = none := by
      rw [queue?_eq_none_iff, c.queue_script, List.filter_eq_nil_iff.mpr, List.map_nil]
      intro a _
      simpa using h a.trigger
    refine ⟨c.opening_script, c.timed_script, fun text => ?_, fun key => hno (by simp),
      fun text => hno (by simp), by rw [Conversation.script, ofCues_eq]⟩
    simp only [c.queue_script, Trigger.message.injEq]

/-- The replies to a trigger come together, whatever stands between them. -/
example :
    let ping : Trigger := .message "ping"
    let s := ofCues [.reply ping (.ofText "pong") (.times 2),
      .reply (.sent "pong") (.ofText "never") (.times 0), .reply ping (.ofText "up") .always]
    s.queue? ping = some [.ofText "pong", .ofText "pong", ⟨.text "up", 0, false, none⟩] ∧
      s.queue? (.sent "pong") = none := by
  decide

end Script

end Understudy
