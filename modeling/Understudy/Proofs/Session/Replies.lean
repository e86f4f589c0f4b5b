import Understudy.Proofs.Session.Step

/-!
# Understudy.Proofs.Session.Replies

Which reply a trigger gets.

The replies to one trigger are a queue of messages, some of which leave it when they are used and
some of which stay. So the queue moves up to its first message that stays, and stops there. The
lookup with the number `k`, counted from 0, finds the message at `min k (firstKept q)`, and finds
the queue used up if there is none (`replyAt`). This depends on how often that trigger has been
looked up, and on nothing else: not on the other triggers, and not on the time.

`reply_discipline` states this for all runs, and then what an open session does with what it finds.
A message of the peer needs a reply. A request and a message that was sent may have none, but a
queue that is used up closes the session in each of the cases.
-/

namespace Understudy

namespace Session

/-! ### Queues with messages that stay -/

/-- The queue after its first message has been used. -/
def consume : List Message → List Message
  | [] => []
  | m :: rest => if m.leaves then rest else m :: rest

/-- The index of the first message that stays, or the length of the queue. -/
def firstKept (q : List Message) : Nat := q.findIdx fun m => !m.leaves

/-- What the lookup with the number `k` finds in a queue that is `q` at the beginning. -/
def replyAt (q : List Message) (k : Nat) : Found :=
  match q[min k (firstKept q)]? with
  | some m => .reply m
  | none => .exhausted

theorem firstKept_cons (m : Message) (q : List Message) :
    firstKept (m :: q) = if m.leaves then firstKept q + 1 else 0 := by
  rw [firstKept, List.findIdx_cons]
  cases m.leaves <;> rfl

/-- Using a queue once more moves it up by one, until a message stays. -/
theorem consume_drop (q : List Message) (k : Nat) :
    consume (q.drop (min k (firstKept q))) = q.drop (min (k + 1) (firstKept q)) := by
  -- on the queue: a message that leaves takes one of the uses with it
  induction q generalizing k with
  | nil => simp [consume]
  | cons m q ih =>
    rw [firstKept_cons]
    by_cases hm : m.leaves = true
    · rw [if_pos hm]
      cases k with
      | zero => simp [consume, hm]
      | succ k =>
        rw [Nat.add_min_add_right, Nat.add_min_add_right, List.drop_succ_cons,
          List.drop_succ_cons]
        exact ih k
    · rw [if_neg hm]
      simp [consume, hm]

/-! ### What a lookup finds and leaves -/

/-- Using a trigger uses its queue, and no other. -/
theorem queue?_use (t u : Trigger) (s : Session) :
    (s.use t).replies.queue? u =
      if t = u then (s.replies.queue? u).map consume else s.replies.queue? u := by
  by_cases htu : t = u
  · subst htu
    rw [if_pos rfl, use]
    match hq : s.replies.queue? t with
    | none => simpa using hq
    | some [] => simpa [consume] using hq
    | some (m :: rest) =>
      simp only [Option.map_some, consume]
      split
      · simp [QueueMap.queue?_dropFirst, hq]
      · exact hq
  · rw [if_neg htu, use]
    split
    · split
      · rw [QueueMap.queue?_dropFirst, if_neg htu]
      · rfl
    · rfl

/-- A trigger whose queue has been moved up finds the first message that is left, or nothing. -/
theorem lookup_of_queue? {s : Session} {t : Trigger} {q : List Message} (k : Nat)
    (hq : s.replies.queue? t = some (q.drop (min k (firstKept q)))) :
    s.lookup t = replyAt q k := by
  rw [lookup, replyAt, hq]
  cases hd : q.drop (min k (firstKept q)) with
  | nil =>
    rw [List.drop_eq_nil_iff] at hd
    rw [List.getElem?_eq_none hd]
  | cons m rest =>
    have hget : q[min k (firstKept q)]? = some m := by
      rw [← List.head?_drop, hd]
      rfl
    rw [hget]

theorem lookup_eq_unregistered_iff {s : Session} {t : Trigger} :
    s.lookup t = .unregistered ↔ s.replies.queue? t = none := by
  rw [lookup]
  split <;> simp_all

theorem queue?_eq_none_iff {script : Script} {t : Trigger} :
    script.queue? t = none ↔ t ∉ script.replies.keys := by
  rw [Script.queue?, Queues.mem_keys_iff, ← Queues.has_eq_true_iff]
  split <;> simp_all

/-- The triggers that have a queue are those of the script, also when it is used up. -/
theorem Sound.lookup_eq_unregistered_iff {s : Session} (hs : s.Sound) (t : Trigger) :
    s.lookup t = .unregistered ↔ s.script.queue? t = none := by
  rw [Session.lookup_eq_unregistered_iff, QueueMap.queue?_eq_none_iff, hs.replies.keys,
    queue?_eq_none_iff]

/-- A lookup that finds no reply leaves the queue as it is. -/
theorem map_consume_of_not_reply {s : Session} {t : Trigger} (h : ∀ m, s.lookup t ≠ .reply m) :
    (s.replies.queue? t).map consume = s.replies.queue? t := by
  match hq : s.replies.queue? t with
  | none => rfl
  | some [] => rfl
  | some (m :: rest) => exact absurd (by rw [lookup, hq]) (h m)

/-- A turn uses the queues of the triggers that it looks up, and no others. -/
theorem Turn.queue? {s u : Session} {i : Input} {ts : List Trigger} {ms : List Message}
    (h : Turn s i ts ms u) (t : Trigger) :
    u.replies.queue? t =
      if t ∈ ts then (s.replies.queue? t).map consume else s.replies.queue? t := by
  -- lookups that find no reply find an empty queue or none, and leave it
  have hkeep {ts : List Trigger} (hts : ∀ u ∈ ts, ∀ m, s.lookup u ≠ .reply m) :
      s.replies.queue? t =
        if t ∈ ts then (s.replies.queue? t).map consume else s.replies.queue? t := by
    by_cases ht : t ∈ ts
    · rw [if_pos ht, map_consume_of_not_reply (hts t ht)]
    · rw [if_neg ht]
  cases h with
  | still _ hts => exact hkeep (not_reply_of_unregistered hts)
  | reject _ hts => exact hkeep hts
  | send _ _ hts => exact hkeep (not_reply_of_unregistered hts)
  | sendLast _ _ _ _ _ _ hts => exact hkeep hts
  | @answer _ ts t' m _ hts hm =>
    simp only
    rw [queue?_use]
    by_cases htt : t' = t
    · subst htt
      simp
    · have hmem : t ∈ ts ++ [t'] ↔ t ∈ ts := by simp [Ne.symm htt]
      simp only [if_neg htt, hmem]
      exact hkeep (not_reply_of_unregistered hts)
  | @sendAnswer _ t' =>
    simp only
    rw [queue?_use]
    by_cases htt : t' = t
    · subst htt
      simp
    · simp [htt, Ne.symm htt]
  | elapse => simp
  | begin => simp
  | drain => simp
  | fail => simp
  | abandon => simp
  | leave => simp
  | finish => simp

/-! ### The lookups of a run -/

/-- What is looked up in a run, and what is found there, in order. -/
def lookedUp (s : Session) : List Input → Queues Trigger Found
  | [] => []
  | i :: is => (s.lookups i).map (fun t => (t, s.lookup t)) ++ (s.step i).lookedUp is

theorem tried_sublist (s : Session) (ts : List Trigger) : (s.tried ts).Sublist ts := by
  induction ts with
  | nil => exact List.Sublist.refl _
  | cons t ts ih =>
    rw [tried]
    split
    · exact ih.cons_cons t
    · simp

theorem nodup_keys (r : Request) : r.keys.Nodup := by
  unfold Request.keys RequestKey.lookupOrder
  split
  · rename_i m hm
    simp [Method.concrete?_ne_any hm]
  · simp

/-- No step looks a trigger up twice. -/
theorem nodup_lookups (s : Session) (i : Input) : (s.lookups i).Nodup := by
  cases i with
  | request r =>
    simp only [lookups]
    split
    · refine (s.tried_sublist _).nodup ?_
      exact List.Pairwise.map Trigger.request (fun a b hne h => hne (by cases h; rfl))
        (nodup_keys r)
    · exact List.nodup_nil
  | message => simp only [lookups]; split <;> simp
  | binary => simp only [lookups]; split <;> simp
  | emit =>
    simp only [lookups]
    split
    · split <;> simp
    · exact List.nodup_nil
  | sendDue =>
    simp only [lookups]
    split
    · split <;> simp
    · exact List.nodup_nil
  | opened => exact List.nodup_nil
  | closed => exact List.nodup_nil
  | elapse => exact List.nodup_nil

/-- What one step finds at a trigger. -/
theorem queue_map_lookup (s : Session) {ts : List Trigger} (hts : ts.Nodup) (t : Trigger) :
    Queues.queue (ts.map fun t => (t, s.lookup t)) t = if t ∈ ts then [s.lookup t] else [] := by
  induction ts with
  | nil => rfl
  | cons u ts ih =>
    obtain ⟨hu, hts⟩ := List.nodup_cons.mp hts
    rw [List.map_cons, Queues.queue_cons, ih hts]
    by_cases h : u = t
    · subst h
      simp [hu]
    · simp [h, Ne.symm h]

/-- A queue that has been looked up `k` times is looked up on from there: the lookups that follow
find the messages in their turn, and move the queue up accordingly. -/
theorem Sound.lookedUp_spec {s : Session} (hs : s.Sound) {t : Trigger} {q : List Message}
    (k : Nat) (hq : s.replies.queue? t = some (q.drop (min k (firstKept q)))) (is : List Input) :
    let found := Queues.queue (s.lookedUp is) t
    (∀ n, n < found.length → found[n]? = some (replyAt q (k + n))) ∧
      (s.run is).replies.queue? t = some (q.drop (min (k + found.length) (firstKept q))) := by
  -- on the run, where `k` counts the lookups before it
  induction is generalizing s k with
  | nil => simpa [lookedUp] using hq
  | cons i is ih =>
    have hqueue := (hs.turn i).queue? t
    rw [lookedUp, Queues.queue_append, queue_map_lookup s (nodup_lookups s i), run_cons]
    by_cases ht : t ∈ s.lookups i
    · rw [if_pos ht, hq, Option.map_some, consume_drop] at hqueue
      obtain ⟨hfound, hleft⟩ := ih (hs.step i) (k + 1) hqueue
      rw [if_pos ht]
      refine ⟨fun n hn => ?_, ?_⟩
      · cases n with
        | zero => simpa using lookup_of_queue? k hq
        | succ n =>
          have hn' : n < (Queues.queue ((s.step i).lookedUp is) t).length := by
            simpa using hn
          rw [List.singleton_append, List.getElem?_cons_succ, hfound n hn']
          congr 2
          omega
      · rw [hleft, List.singleton_append, List.length_cons]
        congr 3
        omega
    · rw [if_neg ht, hq] at hqueue
      rw [if_neg ht, List.nil_append]
      exact ih (hs.step i) k hqueue

/-! ### What follows a lookup -/

/-- The session goes on as before, with one message more on its agenda. -/
structure Schedules (s : Session) (m : Message) (u : Session) : Prop where
  phase : u.phase = s.phase
  sent : u.sent = s.sent
  agenda : u.agenda = s.agenda.schedule (s.now + m.delay) m

/-- The session closes with the code for something unexpected. -/
structure ClosesUnexpected (s : Session) (what : String) (u : Session) : Prop where
  phase : u.phase = .closed
  sent : u.sent = s.sent ++
    [⟨s.now, .close 1002 (cutReason ("Unexpected message:" ++ what))⟩]

/-- What follows a lookup: a reply is scheduled, a queue that is used up closes the session, and for
a trigger without a queue it depends on who has asked. -/
def Follows (s : Session) (what : String) (u : Session) (otherwise : Prop) : Found → Prop
  | .reply m => s.Schedules m u
  | .exhausted => s.ClosesUnexpected what u
  | .unregistered => otherwise

theorem closesUnexpected_reject {s : Session} (h : s.isLive = true) (what : String) :
    s.ClosesUnexpected what (s.reject what) := by
  rw [reject_of_live h]
  exact ⟨rfl, rfl⟩

/-- A message of the peer gets its reply, and closes the session if there is none. -/
theorem Sound.follows_message {s : Session} (hs : s.Sound) (hp : s.phase = .open)
    (text : String) :
    s.Follows text (s.step (.message text))
      (s.ClosesUnexpected text (s.step (.message text))) (s.lookup (.message text)) := by
  have hreject := closesUnexpected_reject (isLive_of_open hp) text
  rw [Session.step, onMessage, hp]
  cases hf : s.lookup (.message text) with
  | reply m =>
    simp only [Follows]
    rw [hs.answer_eq hp]
    exact ⟨rfl, rfl, rfl⟩
  | exhausted => exact hreject
  | unregistered => exact hreject

/-- One key of a request decides, or leaves it to the keys after it. -/
theorem Sound.follows_onKeys {s : Session} (hs : s.Sound) (hp : s.phase = .open)
    (path : String) (key : RequestKey) (keys : List RequestKey) {otherwise : Prop}
    (hrest : s.lookup (.request key) = .unregistered →
      s.onKeys path (key :: keys) = s.onKeys path keys → otherwise) :
    s.Follows ("from http " ++ path) (s.onKeys path (key :: keys)) otherwise
      (s.lookup (.request key)) := by
  have hreject := closesUnexpected_reject (isLive_of_open hp) ("from http " ++ path)
  cases hf : s.lookup (.request key) with
  | reply m =>
    rw [onKeys, hf]
    simp only [Follows]
    rw [hs.answer_eq hp]
    exact ⟨rfl, rfl, rfl⟩
  | exhausted =>
    rw [onKeys, hf]
    exact hreject
  | unregistered => exact hrest hf (by rw [onKeys, hf])

/-- A request gets the reply under its own method, or else the one under every method, and may have
none. -/
theorem Sound.follows_request {s : Session} (hs : s.Sound) (hp : s.phase = .open)
    (r : Request) :
    let u := s.step (.request r)
    let any := s.Follows ("from http " ++ r.path) u (u = s)
      (s.lookup (.request ⟨.any, r.path⟩))
    match Method.concrete? r.method with
    | some m => s.Follows ("from http " ++ r.path) u any (s.lookup (.request ⟨m, r.path⟩))
    | none => any := by
  have hstep : s.step (.request r) =
      s.onKeys r.path (RequestKey.lookupOrder r.method r.path) := by
    rw [Session.step, onRequest, if_pos hp]
    rfl
  -- both cases end with the key of every method
  have hany : s.Follows ("from http " ++ r.path) (s.onKeys r.path [⟨.any, r.path⟩])
      (s.onKeys r.path [⟨.any, r.path⟩] = s) (s.lookup (.request ⟨.any, r.path⟩)) :=
    hs.follows_onKeys hp r.path ⟨.any, r.path⟩ [] fun _ hrest => hrest
  intro u any
  cases hm : Method.concrete? r.method with
  | none =>
    have hu : u = s.onKeys r.path [⟨.any, r.path⟩] := by
      rw [RequestKey.lookupOrder, hm] at hstep
      exact hstep
    simp only [any]
    rw [hu]
    exact hany
  | some m =>
    have hu : u = s.onKeys r.path [⟨m, r.path⟩, ⟨.any, r.path⟩] := by
      rw [RequestKey.lookupOrder, hm] at hstep
      exact hstep
    simp only [any]
    rw [hu]
    refine hs.follows_onKeys hp r.path ⟨m, r.path⟩ [⟨.any, r.path⟩] fun _ hrest => ?_
    rw [hrest]
    exact hany

/-- A message that is sent gets its reply, and may have none. -/
theorem follows_emit {s : Session} (hp : s.phase = .open) {task : Agenda.Task Message}
    {rest : Agenda Message} (htake : s.agenda.take? s.now = some (task, rest))
    (hcode : task.item.closingCode = none) :
    let v := s.afterSending task rest
    let text := task.item.payload.asText
    v.Follows text (s.step .emit) (s.step .emit = v) (s.lookup (.sent text)) := by
  intro v
  show v.Follows task.item.payload.asText (s.step .emit) (s.step .emit = v)
    (s.lookup (.sent task.item.payload.asText))
  have hl : s.isLive = true := isLive_of_open hp
  have hlive : ({ s with agenda := rest } : Session).isLive = true := hl
  have hawait : s.isAwaited task.item = true := by simp [isAwaited, hp]
  have hsend : ({ s with agenda := rest } : Session).send (.ofPayload task.item.payload) = v :=
    send_of_live hlive _
  have hv : v.isLive = true := hl
  have hstep : s.step .emit = ({ s with agenda := rest } : Session).deliver task.item := by
    rw [step_emit_of_take htake, if_pos hawait]
  -- sending has not touched the queues
  have hlook : v.lookup (.sent task.item.payload.asText) =
      s.lookup (.sent task.item.payload.asText) := lookup_afterSending s task rest _
  rw [hstep, deliver, if_pos hlive, hsend, hcode]
  simp only [hlook]
  cases hf : s.lookup (.sent task.item.payload.asText) with
  | reply next =>
    simp only [Follows]
    rw [use_eq]
    exact ⟨rfl, rfl, rfl⟩
  | exhausted => exact closesUnexpected_reject hv _
  | unregistered => rfl

/-- What an open session does with what it finds. It schedules a reply, and closes when a queue is
used up. A message of the peer needs a queue. A request tries the key of any method only if its own
has no queue, and without a queue a request and a message that was sent have no effect. -/
structure Heeds (s : Session) : Prop where
  message : ∀ text, s.Follows text (s.step (.message text))
    (s.ClosesUnexpected text (s.step (.message text))) (s.lookup (.message text))
  binary : ∀ octets, s.step (.binary octets) = s.step (.message (Utf8.decodeLossy octets))
  request : ∀ r : Request,
    let u := s.step (.request r)
    let any := s.Follows ("from http " ++ r.path) u (u = s)
      (s.lookup (.request ⟨.any, r.path⟩))
    match Method.concrete? r.method with
    | some m => s.Follows ("from http " ++ r.path) u any (s.lookup (.request ⟨m, r.path⟩))
    | none => any
  sent : ∀ task rest, s.agenda.take? s.now = some (task, rest) → task.item.closingCode = none →
    let v := s.afterSending task rest
    let text := task.item.payload.asText
    v.Follows text (s.step .emit) (s.step .emit = v) (s.lookup (.sent text))

theorem Sound.heeds {s : Session} (hs : s.Sound) (hp : s.phase = .open) : s.Heeds where
  message := hs.follows_message hp
  binary := fun _ => rfl
  request := hs.follows_request hp
  sent := fun _ _ htake hcode => follows_emit hp htake hcode

/-- **The discipline of replies.** In every run of a session:

* the lookups of a trigger find the messages of its queue in their turn, up to the first that
  stays, and leave the rest of the queue; so does the next lookup;
* the triggers that have a queue are those of the script, also where the queue is used up, and no
  lookup of another trigger changes the queue of a trigger;
* an open session heeds what it finds. -/
theorem reply_discipline (script : Script) (closeTimeout now : Nat) (is : List Input) :
    let s₀ := start script closeTimeout now
    let s := s₀.run is
    (∀ t q, script.queue? t = some q →
      let found := Queues.queue (s₀.lookedUp is) t
      (∀ k, k < found.length → found[k]? = some (replyAt q k)) ∧
      s.replies.queue? t = some (q.drop (min found.length (firstKept q))) ∧
      s.lookup t = replyAt q found.length) ∧
    (∀ t, s.lookup t = .unregistered ↔ script.queue? t = none) ∧
    (∀ t u, t ≠ u → (s.use t).replies.queue? u = s.replies.queue? u) ∧
    (∀ i u, u ∉ s.lookups i → (s.step i).replies.queue? u = s.replies.queue? u) ∧
    (s.phase = .open → s.Heeds) := by
  intro s₀ s
  have hs₀ : s₀.Sound := sound_start script closeTimeout now
  have hs : s.Sound := hs₀.run is
  have hscript : s.script = script := script_run hs₀ is
  refine ⟨?_, ?_, ?_, ?_, hs.heeds⟩
  · intro t q hq found
    -- at the start nothing has been looked up, so every queue is whole
    have hall : s₀.replies.queue? t = some (q.drop (min 0 (firstKept q))) := by
      rw [Nat.zero_min, List.drop_zero, ← hq]
      exact Queues.queue?_toMap script.replies t
    obtain ⟨hfound, hleft⟩ := hs₀.lookedUp_spec 0 hall is
    simp only [Nat.zero_add] at hfound hleft
    exact ⟨hfound, hleft, lookup_of_queue? _ hleft⟩
  · intro t
    rw [hs.lookup_eq_unregistered_iff t, hscript]
  · intro t u htu
    rw [queue?_use, if_neg htu]
  · intro i u hu
    rw [(hs.turn i).queue? u, if_neg hu]

/-- A reply that is given once, and then one that stays: both have been used, and the one that stays
is what the next message gets. -/
theorem reply_discipline_kept :
    let once : Message := ⟨.text "pong", 0, true, none⟩
    let kept : Message := ⟨.text "gone", 5, false, none⟩
    let script : Script := ⟨[], [], [(.message "ping", once), (.message "ping", kept)], none⟩
    let is : List Input := [.opened, .message "ping", .message "ping", .elapse 3, .message "ping"]
    script.queue? (.message "ping") = some [once, kept] ∧
      Queues.queue ((start script 2000 0).lookedUp is) (.message "ping") =
        [.reply once, .reply kept, .reply kept] ∧
      ((start script 2000 0).run is).replies.queue? (.message "ping") = some [kept] ∧
      ((start script 2000 0).run is).phase = .open ∧
      Schedules ((start script 2000 0).run is) kept
        (((start script 2000 0).run is).step (.message "ping")) := by
  intro once kept script is
  have hq : script.queue? (.message "ping") = some [once, kept] := by decide
  have hp : ((start script 2000 0).run is).phase = .open := by decide +kernel
  have hfound : Queues.queue ((start script 2000 0).lookedUp is) (.message "ping") =
      [.reply once, .reply kept, .reply kept] := by decide +kernel
  have hdrop : [once, kept].drop (min 3 (firstKept [once, kept])) = [kept] := by decide +kernel
  have hreply : replyAt [once, kept] 3 = .reply kept := by decide +kernel
  obtain ⟨hreplies, -, -, -, hopen⟩ := reply_discipline script 2000 0 is
  obtain ⟨-, hleft, hnext⟩ := hreplies (.message "ping") [once, kept] hq
  rw [hfound] at hleft hnext
  have hheeds := hopen hp
  -- from here on the run is not evaluated any more
  generalize (start script 2000 0).run is = s at hp hleft hnext hheeds ⊢
  have hfollows := hheeds.message "ping"
  rw [hnext.trans hreply] at hfollows
  exact ⟨hq, hfound, hleft.trans (congrArg some hdrop), hp, hfollows⟩

end Session

end Understudy
