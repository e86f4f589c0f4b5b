import Understudy.Registry

/-!
# Understudy.Proofs.Registry.History

What becomes of registered entries.

A request reaches at most one queue: the first of those that it is looked up under that has an entry
(`reached?`). It is served the head of that queue, and no other queue changes (`next?_cases`). So
the entries under one key are split at every time: those that are gone, each of which has been
served once and in order, and those that still wait. Only an entry that repeats is served again, and
then it is the head of what waits. This is the `Balance` of a key; a call keeps it, and
`queues_of_runs` has it for all runs.
-/

namespace Understudy

namespace RequestKey

theorem overlaps_iff {k l : RequestKey} :
    k.overlaps l = true ↔
      k.path = l.path ∧ (k.method = l.method ∨ k.method = .any ∨ l.method = .any) := by
  simp [overlaps, Method.overlaps, or_assoc]

/-- A request of a method that expectations can name is looked up under the keys that accept it. -/
theorem mem_lookupOrder_iff {method path : String} {m : Method}
    (hm : Method.concrete? method = some m) {key : RequestKey} :
    key ∈ lookupOrder method path ↔ key.overlaps ⟨m, path⟩ = true := by
  obtain ⟨n, p⟩ := key
  have hany : m ≠ .any := Method.concrete?_ne_any hm
  rw [lookupOrder, hm, overlaps_iff]
  constructor
  · intro h
    rcases List.mem_cons.mp h with h | h
    · cases h
      exact ⟨rfl, Or.inl rfl⟩
    · cases List.mem_singleton.mp h
      exact ⟨rfl, Or.inr (Or.inl rfl)⟩
  · rintro ⟨rfl, rfl | rfl | h⟩
    · exact .head _
    · exact .tail _ (.head [])
    · exact absurd h hany

end RequestKey

namespace Registry

/-! ### Calls -/

/-- A call of a registry. -/
inductive Call where
  | register (key : RequestKey) (entry : Entry)
  | next (method path : String)

/-- The registry after a call. -/
def apply (r : Registry) : Call → Registry
  | .register key entry => r.register key entry
  | .next method path =>
    match r.next? method path with
    | some (_, u) => u
    | none => r

/-- The registry after some calls, in order. -/
def after (r : Registry) (calls : List Call) : Registry := calls.foldl apply r

/-- What is registered by a call, and under which key. -/
def Call.filed : Call → Queues RequestKey Entry
  | register key entry => [(key, entry)]
  | next _ _ => []

/-- What is registered by some calls, in order. -/
def filed (calls : List Call) : Queues RequestKey Entry := calls.flatMap Call.filed

/-- The key whose queue a request reaches. -/
def reached? (r : Registry) (method path : String) : Option RequestKey :=
  (RequestKey.lookupOrder method path).find? fun key => !(r.queue key).isEmpty

/-- What is served in a call, and from the queue of which key. -/
def served (r : Registry) : Call → Queues RequestKey Entry
  | .register _ _ => []
  | .next method path =>
    match r.reached? method path, r.next? method path with
    | some key, some (e, _) => [(key, e)]
    | _, _ => []

/-- What is served in some calls, in order. -/
def log (r : Registry) : List Call → Queues RequestKey Entry
  | [] => []
  | call :: calls => r.served call ++ (r.apply call).log calls

@[simp] theorem after_nil (r : Registry) : r.after [] = r := rfl

@[simp] theorem after_cons (r : Registry) (call : Call) (calls : List Call) :
    r.after (call :: calls) = (r.apply call).after calls := rfl

/-! ### Requests -/

theorem serve?_of_queue {r : Registry} {key : RequestKey} {e : Entry} {rest : List Entry}
    (h : r.queue key = e :: rest) :
    r.serve? key = some (e, if e.repeats then r else r.dropFirst key) := by
  rw [serve?, h]

theorem serve?_eq_none {r : Registry} {key : RequestKey} (h : r.queue key = []) :
    r.serve? key = none := by
  rw [serve?, h]

/-- Keys are tried up to the first one whose queue has an entry. -/
theorem serveFirst?_eq (r : Registry) (keys : List RequestKey) :
    r.serveFirst? keys = (keys.find? fun key => !(r.queue key).isEmpty).bind r.serve? := by
  induction keys with
  | nil => rfl
  | cons key keys ih =>
    rw [serveFirst?, List.find?_cons]
    cases hq : r.queue key with
    | nil =>
      rw [serve?_eq_none hq]
      exact ih
    | cons e rest =>
      rw [serve?_of_queue hq]
      exact (serve?_of_queue hq).symm

/-- A request reaches no queue, and is served nothing; or it is served the head of the queue that it
reaches. -/
theorem next?_cases (r : Registry) (method path : String) :
    r.reached? method path = none ∧ r.next? method path = none ∨
    ∃ key e rest, r.reached? method path = some key ∧ r.queue key = e :: rest ∧
      r.next? method path = some (e, if e.repeats then r else r.dropFirst key) := by
  have hnext : r.next? method path = (r.reached? method path).bind r.serve? :=
    serveFirst?_eq r _
  cases hreached : r.reached? method path with
  | none =>
    rw [hreached] at hnext
    exact Or.inl ⟨rfl, hnext⟩
  | some key =>
    have hne : (!(r.queue key).isEmpty) = true :=
      List.find?_some (p := fun key => !(r.queue key).isEmpty) hreached
    cases hq : r.queue key with
    | nil => rw [hq] at hne; cases hne
    | cons e rest =>
      rw [hreached, Option.bind_some, serve?_of_queue hq] at hnext
      exact Or.inr ⟨key, e, rest, rfl, hq, hnext⟩

/-- The queue of a key after the head of a queue was served. -/
theorem queue_served {r : Registry} {key : RequestKey} {e : Entry} (other : RequestKey) :
    (if e.repeats then r else r.dropFirst key).queue other =
      if e.repeats = false ∧ key = other then (r.queue other).tail else r.queue other := by
  cases e.repeats with
  | false => simp
  | true => simp

/-! ### The balance of a key -/

/-- The account of a key: of the entries that were registered under it, `all`, some are `gone`, and
the others are its queue. The entries that are gone have been served, each once, and then the head
of the queue, again and again. -/
structure Balance (r : Registry) (key : RequestKey) (all served gone again : List Entry) :
    Prop where
  all_eq : all = gone ++ r.queue key
  served_eq : served = gone ++ again
  once : ∀ e ∈ gone, e.repeats = false
  repeated : ∀ e ∈ again, e.repeats = true ∧ (r.queue key).head? = some e

theorem balance_empty (key : RequestKey) : Balance empty key [] [] [] [] where
  all_eq := rfl
  served_eq := rfl
  once := by simp
  repeated := by simp

section Balance

variable {r : Registry} {key : RequestKey} {all served gone again : List Entry}

/-- The balance of a key depends on nothing but its queue. -/
theorem Balance.of_queue_eq {u : Registry} (h : Balance r key all served gone again)
    (hq : u.queue key = r.queue key) : Balance u key all served gone again where
  all_eq := by rw [hq]; exact h.all_eq
  served_eq := h.served_eq
  once := h.once
  repeated := by rw [hq]; exact h.repeated

/-- A queue whose head does not repeat has been served every entry at most once. -/
theorem Balance.again_eq_nil (h : Balance r key all served gone again) {e : Entry}
    {rest : List Entry} (hq : r.queue key = e :: rest) (he : e.repeats = false) : again = [] := by
  rw [List.eq_nil_iff_forall_not_mem]
  intro f hf
  obtain ⟨hrepeats, hhead⟩ := h.repeated f hf
  rw [hq, List.head?_cons, Option.some_inj] at hhead
  rw [← hhead, he] at hrepeats
  cases hrepeats

/-- Registering under the key adds to the queue. -/
theorem Balance.register (h : Balance r key all served gone again) (entry : Entry) :
    Balance (r.register key entry) key (all ++ [entry]) served gone again where
  all_eq := by
    rw [queue_register, if_pos rfl, h.all_eq, List.append_assoc]
  served_eq := h.served_eq
  once := h.once
  repeated := by
    intro e he
    obtain ⟨hrepeats, hhead⟩ := h.repeated e he
    refine ⟨hrepeats, ?_⟩
    rw [queue_register, if_pos rfl, List.head?_append, hhead]
    rfl

/-- Serving the head of the queue moves it to what is gone, unless it repeats. -/
theorem Balance.serve (h : Balance r key all served gone again) {e : Entry} {rest : List Entry}
    (hq : r.queue key = e :: rest) :
    ∃ gone again, Balance (if e.repeats then r else r.dropFirst key) key all (served ++ [e])
      gone again := by
  cases he : e.repeats with
  -- an entry that repeats stays the head, and one that does not is served for the first time
  | true =>
    refine ⟨gone, again ++ [e], ?_⟩
    rw [if_pos rfl]
    refine ⟨h.all_eq, by rw [h.served_eq, List.append_assoc], h.once, ?_⟩
    intro f hf
    rcases List.mem_append.mp hf with hf | hf
    · exact h.repeated f hf
    · rw [List.mem_singleton.mp hf, hq]
      exact ⟨he, rfl⟩
  | false =>
    have hagain : again = [] := h.again_eq_nil hq he
    refine ⟨gone ++ [e], [], ?_⟩
    rw [if_neg Bool.false_ne_true]
    refine ⟨?_, ?_, ?_, by simp⟩
    · rw [queue_dropFirst, if_pos rfl, h.all_eq, hq, List.tail_cons, List.append_cons]
    · rw [h.served_eq, hagain, List.append_nil, List.append_nil]
    · intro f hf
      rcases List.mem_append.mp hf with hf | hf
      · exact h.once f hf
      · rw [List.mem_singleton.mp hf]
        exact he

/-- A call keeps the balance of every key. -/
theorem Balance.apply (h : Balance r key all served gone again) (call : Call) :
    ∃ gone again, Balance (r.apply call) key (all ++ Queues.queue call.filed key)
      (served ++ Queues.queue (r.served call) key) gone again := by
  cases call with
  | register other entry =>
    rw [Call.filed, Registry.served, Queues.queue_nil, List.append_nil, Registry.apply,
      Queues.queue_cons, Queues.queue_nil]
    by_cases hkey : other = key
    · subst hkey
      rw [if_pos rfl]
      exact ⟨gone, again, h.register entry⟩
    · simp only [if_neg hkey, List.append_nil]
      refine ⟨gone, again, h.of_queue_eq ?_⟩
      rw [queue_register, if_neg hkey]
  | next method path =>
    rw [Call.filed, Queues.queue_nil, List.append_nil]
    rcases next?_cases r method path with ⟨hreached, hnext⟩ | ⟨other, e, rest, hreached, hq, hnext⟩
    · simp only [Registry.served, Registry.apply, hreached, hnext, Queues.queue_nil,
        List.append_nil]
      exact ⟨gone, again, h⟩
    · simp only [Registry.served, Registry.apply, hreached, hnext, Queues.queue_cons,
        Queues.queue_nil]
      by_cases hkey : other = key
      · subst hkey
        rw [if_pos rfl]
        exact h.serve hq
      · rw [if_neg hkey, List.append_nil]
        refine ⟨gone, again, h.of_queue_eq ?_⟩
        rw [queue_served, if_neg fun hc => hkey hc.2]

/-- Calls keep the balance of every key. -/
theorem Balance.after (h : Balance r key all served gone again) (calls : List Call) :
    ∃ gone again, Balance (r.after calls) key (all ++ Queues.queue (filed calls) key)
      (served ++ Queues.queue (r.log calls) key) gone again := by
  induction calls generalizing r all served gone again with
  | nil =>
    refine ⟨gone, again, ?_⟩
    rw [filed, log, List.flatMap_nil, Queues.queue_nil, List.append_nil, List.append_nil]
    exact h
  | cons call calls ih =>
    obtain ⟨gone', again', h'⟩ := h.apply call
    rw [filed, log, List.flatMap_cons, Queues.queue_append, Queues.queue_append,
      ← List.append_assoc, ← List.append_assoc]
    exact ih h'

end Balance

/-! ### Heads that repeat -/

/-- Once an entry that repeats is the head of a queue it stays there, and nothing else is served
from that queue. -/
theorem queue_after_of_repeats {r : Registry} {key : RequestKey} {e : Entry} {rest : List Entry}
    (hq : r.queue key = e :: rest) (he : e.repeats = true) (calls : List Call) :
    (r.after calls).queue key = e :: rest ++ Queues.queue (filed calls) key ∧
      ∀ f ∈ Queues.queue (r.log calls) key, f = e := by
  -- a balance that starts with nothing gone: the head repeats, so nothing goes later either
  have hstart : Balance r key (e :: rest) [] [] [] := ⟨hq.symm, rfl, by simp, by simp⟩
  obtain ⟨gone, again, h⟩ := hstart.after calls
  cases gone with
  | cons f gone =>
    have hf : e = f := (List.cons.inj h.all_eq).1
    have honce : f.repeats = false := h.once f (.head gone)
    rw [← hf, he] at honce
    cases honce
  | nil =>
    have hqueue : (r.after calls).queue key = e :: rest ++ Queues.queue (filed calls) key :=
      h.all_eq.symm
    refine ⟨hqueue, ?_⟩
    intro f hf
    have hserved : Queues.queue (r.log calls) key = again := h.served_eq
    rw [hserved] at hf
    have hhead := (h.repeated f hf).2
    rw [hqueue, List.cons_append, List.head?_cons, Option.some_inj] at hhead
    exact hhead.symm

/-! ### Which queue a request reaches -/

/-- A request is served the head of the queue of a key, and no other queue changes. -/
structure Serves (r : Registry) (method path : String) (key : RequestKey) (e : Entry)
    (u : Registry) : Prop where
  next_eq : r.next? method path = some (e, u)
  head : (r.queue key).head? = some e
  queue_eq : u.queue key = if e.repeats then r.queue key else (r.queue key).tail
  others : ∀ other, other ≠ key → u.queue other = r.queue other

theorem exists_serves_of_reached {r : Registry} {method path : String} {key : RequestKey}
    (h : r.reached? method path = some key) : ∃ e u, r.Serves method path key e u := by
  rcases next?_cases r method path with ⟨hnone, -⟩ | ⟨other, e, rest, hreached, hq, hnext⟩
  · rw [h] at hnone
    cases hnone
  · rw [h, Option.some_inj] at hreached
    subst hreached
    refine ⟨e, _, hnext, by rw [hq]; rfl, ?_, ?_⟩
    · rw [queue_served]
      cases e.repeats <;> simp
    · intro other hother
      rw [queue_served, if_neg fun hc => hother hc.2.symm]

theorem reached?_of_exact {r : Registry} {method path : String} {m : Method}
    (hm : Method.concrete? method = some m) (hq : r.queue ⟨m, path⟩ ≠ []) :
    r.reached? method path = some ⟨m, path⟩ := by
  simp [reached?, RequestKey.lookupOrder, hm, hq]

theorem reached?_of_any {r : Registry} {method path : String}
    (hexact : ∀ m, Method.concrete? method = some m → r.queue ⟨m, path⟩ = [])
    (hq : r.queue ⟨.any, path⟩ ≠ []) : r.reached? method path = some ⟨.any, path⟩ := by
  unfold reached? RequestKey.lookupOrder
  cases hm : Method.concrete? method with
  | none => simp [hq]
  | some m => simp [hexact m hm, hq]

theorem reached?_eq_none {r : Registry} {method path : String}
    (hexact : ∀ m, Method.concrete? method = some m → r.queue ⟨m, path⟩ = [])
    (hq : r.queue ⟨.any, path⟩ = []) : r.reached? method path = none := by
  unfold reached? RequestKey.lookupOrder
  cases hm : Method.concrete? method with
  | none => simp [hq]
  | some m => simp [hexact m hm, hq]

/-- A request is served something exactly if a queue that it is looked up under has an entry. -/
theorem next?_isSome_iff (r : Registry) (method path : String) :
    (r.next? method path).isSome = true ↔
      ∃ key ∈ RequestKey.lookupOrder method path, r.queue key ≠ [] := by
  have hreached : (r.reached? method path).isSome = true ↔
      ∃ key ∈ RequestKey.lookupOrder method path, r.queue key ≠ [] := by
    simp [reached?, List.find?_isSome]
  rw [← hreached]
  rcases next?_cases r method path with ⟨hnone, hnext⟩ | ⟨key, e, rest, hsome, -, hnext⟩
  · rw [hnone, hnext]
    exact Iff.rfl
  · rw [hsome, hnext]
    exact iff_of_true rfl rfl

/-! ### Runs -/

/-- **Queues.** After every sequence of registrations and requests, on a registry that was empty:

* the entries that were registered under a key are those that are gone and then its queue, in the
  order of registration; those that are gone do not repeat, and each was served once, in that
  order; only an entry that repeats was served again, and it is the head of the queue;
* an entry that repeats and is the head of a queue stays there, however the run goes on: every
  request that reaches the queue is served it, and nothing else is served from the queue;
* a request is served the head of the queue of its own method, or else that of `any`, or else
  nothing, and no other queue changes;
* a request of a method that expectations can name is served something exactly if there is an entry
  under some key that accepts it. -/
theorem queues_of_runs (calls : List Call) :
    let r := empty.after calls
    (∀ key, ∃ gone again,
      Queues.queue (filed calls) key = gone ++ r.queue key ∧
      Queues.queue (empty.log calls) key = gone ++ again ∧
      (∀ e ∈ gone, e.repeats = false) ∧
      ∀ e ∈ again, e.repeats = true ∧ (r.queue key).head? = some e) ∧
    (∀ key e rest, r.queue key = e :: rest → e.repeats = true → ∀ more,
      (r.after more).queue key = e :: rest ++ Queues.queue (filed more) key ∧
      (∀ f ∈ Queues.queue (r.log more) key, f = e) ∧
      ∀ method path, (r.after more).reached? method path = some key →
        ((r.after more).next? method path).map (·.1) = some e) ∧
    (∀ method path,
      (∀ m, Method.concrete? method = some m → r.queue ⟨m, path⟩ ≠ [] →
        ∃ e u, r.Serves method path ⟨m, path⟩ e u) ∧
      ((∀ m, Method.concrete? method = some m → r.queue ⟨m, path⟩ = []) →
        r.queue ⟨.any, path⟩ ≠ [] → ∃ e u, r.Serves method path ⟨.any, path⟩ e u) ∧
      ((∀ m, Method.concrete? method = some m → r.queue ⟨m, path⟩ = []) →
        r.queue ⟨.any, path⟩ = [] → r.next? method path = none)) ∧
    ∀ method path m, Method.concrete? method = some m →
      ((r.next? method path).isSome = true ↔
        ∃ key, r.queue key ≠ [] ∧ key.overlaps ⟨m, path⟩ = true) := by
  intro r
  refine ⟨?_, ?_, ?_, ?_⟩
  · intro key
    obtain ⟨gone, again, h⟩ := (balance_empty key).after calls
    exact ⟨gone, again, h.all_eq, h.served_eq, h.once, h.repeated⟩
  · intro key e rest hq he more
    obtain ⟨hqueue, hserved⟩ := queue_after_of_repeats hq he more
    refine ⟨hqueue, hserved, ?_⟩
    intro method path hreached
    obtain ⟨f, u, hserves⟩ := exists_serves_of_reached hreached
    have hhead := hserves.head
    rw [hqueue, List.cons_append, List.head?_cons] at hhead
    rw [hserves.next_eq, hhead]
    rfl
  · intro method path
    refine ⟨?_, ?_, ?_⟩
    · intro m hm hq
      exact exists_serves_of_reached (reached?_of_exact hm hq)
    · intro hexact hq
      exact exists_serves_of_reached (reached?_of_any hexact hq)
    · intro hexact hq
      have hnone : r.reached? method path = none := reached?_eq_none hexact hq
      rcases next?_cases r method path with ⟨-, hnext⟩ | ⟨key, e, rest, hsome, -, -⟩
      · exact hnext
      · rw [hnone] at hsome
        cases hsome
  · intro method path m hm
    rw [next?_isSome_iff]
    simp only [RequestKey.mem_lookupOrder_iff hm, and_comm]

/-- An entry of `any` that repeats is served for good to all requests that find no entry of their
own method, while an entry that was registered for one method comes and goes. -/
theorem queues_of_runs_fallback :
    let entry (text : String) (repeats : Bool) : Entry := ⟨.chunked 200 [text], [], none, repeats⟩
    let calls : List Call :=
      [.register ⟨.get, "/a"⟩ (entry "once" false), .register ⟨.any, "/a"⟩ (entry "always" true),
        .next "get" "/a", .next "GET" "/a", .register ⟨.any, "/a"⟩ (entry "never" false)]
    let r := empty.after calls
    r.queue ⟨.any, "/a"⟩ = [entry "always" true, entry "never" false] ∧
      Queues.queue (empty.log calls) ⟨.get, "/a"⟩ = [entry "once" false] ∧
      ∀ more method path, (r.after more).reached? method path = some ⟨.any, "/a"⟩ →
        ((r.after more).next? method path).map (·.1) = some (entry "always" true) := by
  intro entry calls r
  have hq : r.queue ⟨.any, "/a"⟩ = [entry "always" true, entry "never" false] := by rfl
  have hlog : Queues.queue (empty.log calls) ⟨.get, "/a"⟩ = [entry "once" false] := by rfl
  obtain ⟨-, hrepeats, -, -⟩ := queues_of_runs calls
  refine ⟨hq, hlog, ?_⟩
  intro more method path hreached
  obtain ⟨-, -, hserved⟩ := hrepeats ⟨.any, "/a"⟩ _ _ hq rfl more
  exact hserved method path hreached

end Registry

end Understudy
