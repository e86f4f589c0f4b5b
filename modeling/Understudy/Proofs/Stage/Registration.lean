import Understudy.Proofs.Expectation.Filing
import Understudy.Proofs.Registry.Reordering
import Understudy.Proofs.Session.Replies
import Understudy.Proofs.Stage.Independence

/-!
# Understudy.Proofs.Stage.Registration

What requests get of what was registered.

A request is served the first entry of all the queues that it is looked up under, one queue after
the other (`line`). Requests that find the same queues stocked stand in one line: each takes its
first entry, unless that repeats (`line_apply`). So the `k`th of them gets what counting through the
line leads to (`answer?_after`), and that is counting through the expectations with their quotas
(`heldOut_entries`).

`registration` puts this together with what filing does to a registry.
-/

namespace Understudy

namespace Registry

open Expectation (Quota)

/-! ### Counting -/

/-- The entry that comes after some others were taken, each once but for those that repeat. -/
def heldOut : List Entry → Nat → Option Entry
  | [], _ => none
  | e :: _, 0 => some e
  | e :: rest, k + 1 => if e.repeats then some e else heldOut rest k

/-- The entry that the request with a number gets, counting from zero and through as many of each
expectation as it has. -/
def counted : List (Expectation × Quota) → Nat → Option Entry
  | [], _ => none
  | (e, .always) :: _, _ => some (e.entry true)
  | (e, .times n) :: rest, k => if k < n then some (e.entry false) else counted rest (k - n)

/-- What is left after the first entry was taken. -/
def takeFirst : List Entry → List Entry
  | [] => []
  | e :: rest => if e.repeats then e :: rest else rest

theorem takeFirst_append (e : Entry) (rest more : List Entry) :
    takeFirst (e :: rest ++ more) = takeFirst (e :: rest) ++ more := by
  rw [List.cons_append, takeFirst, takeFirst]
  split <;> rfl

theorem heldOut_zero (line : List Entry) : heldOut line 0 = line.head? := by
  cases line <;> rfl

/-- What the next request but some gets is what it gets once the first one is served. -/
theorem heldOut_succ (line : List Entry) (k : Nat) :
    heldOut line (k + 1) = heldOut (takeFirst line) k := by
  cases line with
  | nil => rfl
  | cons e rest =>
    rw [heldOut, takeFirst]
    cases he : e.repeats with
    | false => rfl
    | true =>
      rw [if_pos rfl, if_pos rfl]
      cases k with
      | zero => rfl
      | succ k => rw [heldOut, if_pos he]

/-- Copies that do not repeat are served one by one, and then the rest. -/
theorem heldOut_replicate {e : Entry} (he : e.repeats = false) (n : Nat) (line : List Entry)
    (k : Nat) :
    heldOut (List.replicate n e ++ line) k = if k < n then some e else heldOut line (k - n) := by
  induction n generalizing k with
  | zero => rfl
  | succ n ih =>
    rw [List.replicate_succ, List.cons_append]
    cases k with
    | zero => rfl
    | succ k =>
      rw [heldOut, he, if_neg Bool.false_ne_true, ih, Nat.add_sub_add_right]
      simp only [Nat.add_lt_add_iff_right]

/-- Counting through the entries of expectations is counting through their quotas. -/
theorem heldOut_entries (es : List (Expectation × Quota)) (k : Nat) :
    heldOut (es.flatMap fun filed => filed.1.entries filed.2) k = counted es k := by
  induction es generalizing k with
  | nil => rfl
  | cons filed es ih =>
    obtain ⟨e, quota⟩ := filed
    rw [List.flatMap_cons]
    cases quota with
    | always =>
      rw [Expectation.entries, List.singleton_append, counted]
      cases k with
      | zero => rfl
      | succ k => rw [heldOut, e.repeats_entry, if_pos rfl]
    | times n =>
      rw [Expectation.entries, counted, heldOut_replicate (e.repeats_entry false), ih]

/-! ### Standing in line -/

/-- The keys that a request is looked up under which have an entry. -/
def stocked (r : Registry) (request : Request) : List RequestKey :=
  request.keys.filter fun key => !(r.queue key).isEmpty

/-- The entries under some keys, one queue after the other. -/
def line (r : Registry) (keys : List RequestKey) : List Entry := keys.flatMap r.queue

/-- The call that a request makes. -/
def callOf (request : Request) : Call := .next request.method request.path

theorem reached?_eq_head? (r : Registry) (request : Request) :
    r.reached? request.method request.path = (r.stocked request).head? :=
  List.head?_filter.symm

/-- Queues without entries do not count. -/
theorem line_filter (r : Registry) (keys : List RequestKey) :
    r.line (keys.filter fun key => !(r.queue key).isEmpty) = r.line keys := by
  induction keys with
  | nil => rfl
  | cons key keys ih =>
    rw [List.filter_cons]
    cases hq : r.queue key with
    | nil => simpa [line, hq] using ih
    | cons e rest => simpa [line, hq] using ih

/-- Serving a request is taking the head of the first queue that it finds stocked. -/
theorem serve_of_stocked {r : Registry} {request : Request} {key : RequestKey}
    {more : List RequestKey} (h : r.stocked request = key :: more) :
    r.answer? (request.method, request.path) = (r.queue key).head? ∧
      r.apply (callOf request) = r.spend key := by
  have hreached : r.reached? request.method request.path = some key := by
    rw [reached?_eq_head?, h, List.head?_cons]
  exact @ask_of_some r (request.method, request.path) key hreached

theorem serve_of_none {r : Registry} {request : Request} (h : r.stocked request = []) :
    r.answer? (request.method, request.path) = none ∧ r.apply (callOf request) = r := by
  have hreached : r.reached? request.method request.path = none := by
    rw [reached?_eq_head?, h, List.head?_nil]
  exact @ask_of_none r (request.method, request.path) hreached

/-- Requests do not put anything into a queue. -/
theorem mem_queue_of_apply {r : Registry} {request : Request} {key : RequestKey} {e : Entry}
    (h : e ∈ (r.apply (callOf request)).queue key) : e ∈ r.queue key := by
  rw [callOf, apply] at h
  rcases next?_cases r request.method request.path with ⟨-, hnext⟩ | ⟨other, f, rest, -, -, hnext⟩
  · rw [hnext] at h
    exact h
  · simp only [hnext, queue_served] at h
    split at h
    · exact List.mem_of_mem_tail h
    · exact h

theorem queue_apply_of_nil {r : Registry} {key : RequestKey} (h : r.queue key = [])
    (request : Request) : (r.apply (callOf request)).queue key = [] := by
  rw [List.eq_nil_iff_forall_not_mem] at h ⊢
  exact fun e he => h e (mem_queue_of_apply he)

theorem stocked_apply (r : Registry) (request other : Request) :
    (r.apply (callOf request)).stocked other =
      (r.stocked other).filter fun key => !((r.apply (callOf request)).queue key).isEmpty := by
  rw [stocked, stocked, List.filter_filter]
  refine List.filter_congr fun key _ => ?_
  cases hq : r.queue key with
  | nil => rw [queue_apply_of_nil hq]; rfl
  | cons e rest => simp

/-- Spending the head of the first queue takes the first entry of the line. -/
theorem line_spend {r : Registry} {key : RequestKey} {more : List RequestKey}
    (hnodup : (key :: more).Nodup) {e : Entry} {rest : List Entry} (hq : r.queue key = e :: rest) :
    (r.spend key).line (key :: more) = takeFirst (r.line (key :: more)) := by
  have hmore : (r.spend key).line more = r.line more := by
    refine congrArg List.flatten (List.map_congr_left fun other hother => queue_spend_of_ne ?_)
    rintro rfl
    exact (List.nodup_cons.mp hnodup).1 hother
  have hspent : (r.spend key).queue key = takeFirst (e :: rest) := by
    rw [spend, fleeting, hq, takeFirst]
    cases he : e.repeats <;> simp [he, hq]
  have hline (u : Registry) : u.line (key :: more) = u.queue key ++ u.line more := rfl
  rw [hline, hline, hspent, hmore, hq, takeFirst_append]

/-- A request is served the first entry of its line, and leaves the others. -/
theorem line_apply (r : Registry) (request : Request) :
    r.answer? (request.method, request.path) = (r.line (r.stocked request)).head? ∧
      (r.apply (callOf request)).line (r.stocked request) =
        takeFirst (r.line (r.stocked request)) := by
  cases hkeys : r.stocked request with
  | nil => exact ⟨(serve_of_none hkeys).1, rfl⟩
  | cons key more =>
    obtain ⟨hanswer, hafter⟩ := serve_of_stocked hkeys
    have hnodup : (key :: more).Nodup := hkeys ▸ (Session.nodup_keys request).filter _
    have hmem : key ∈ r.stocked request := hkeys ▸ List.mem_cons_self
    cases hq : r.queue key with
    | nil =>
      have hempty := (List.mem_filter.mp hmem).2
      rw [hq] at hempty
      cases hempty
    | cons e rest =>
      refine ⟨?_, by rw [hafter, line_spend hnodup hq]⟩
      rw [hanswer, line, List.flatMap_cons, hq]
      rfl

/-- Of requests in one line, the one with a number is served what counting through the line leads
to. -/
theorem answer?_after {r : Registry} {keys : List RequestKey} {requests : List Request}
    (h : ∀ request ∈ requests, r.stocked request = keys) {k : Nat} {request : Request}
    (hk : requests[k]? = some request) :
    (r.after ((requests.take k).map callOf)).answer? (request.method, request.path) =
      heldOut (r.line keys) k := by
  induction requests generalizing r keys k with
  | nil => cases hk
  | cons first requests ih =>
    obtain ⟨hfirst, hrest⟩ := List.forall_mem_cons.mp h
    obtain ⟨hanswer, hline⟩ := r.line_apply first
    rw [hfirst] at hanswer hline
    cases k with
    | zero =>
      cases hk
      rw [heldOut_zero]
      exact hanswer
    | succ k =>
      -- those behind the first one find the same queues stocked again, and the rest of the line
      have hnext : ∀ other ∈ requests, (r.apply (callOf first)).stocked other =
          keys.filter fun key => !((r.apply (callOf first)).queue key).isEmpty := by
        intro other hother
        rw [stocked_apply, hrest other hother]
      have hlater := ih hnext hk
      rw [line_filter, hline, ← heldOut_succ] at hlater
      exact hlater

end Registry

namespace Stage

open Registry (callOf counted filedUnder)

/-! ### Dispatching -/

theorem length_sessions_notify (s : Stage) (request : Request) :
    (s.notify request).sessions.length = s.sessions.length := by
  have hmodify (numbers : List Nat) (xs : List Session) :
      (numbers.foldl (fun xs n => xs.modify n (·.step (.request request))) xs).length =
        xs.length := by
    induction numbers generalizing xs with
    | nil => rfl
    | cons n numbers ih => rw [List.foldl_cons, ih, List.length_modify]
  rw [notify, foldl_step]
  exact hmodify _ _

/-- The response to a request for an entry. Without one nothing is found, and a conversation begins
as a session with a number. -/
def responded (request : Request) (number : Nat) : Option Entry → Response
  | none => .notFound
  | some e =>
    match e.answer request with
    | .response response => response
    | .conversation _ => .switching number

/-- The status of the response for an entry. -/
def servedStatus : Option Entry → UInt16
  | none => 404
  | some e =>
    match e.reply with
    | .provided provider => provider.status
    | .chunked status _ => status
    | .conversation _ => 101

theorem status_responded (request : Request) (number : Nat) (found : Option Entry) :
    (responded request number found).status = servedStatus found := by
  cases found with
  | none => rfl
  | some e =>
    obtain ⟨reply, headers, delay, repeats⟩ := e
    cases reply <;> rfl

/-- A request is answered with the entry that it is served, and changes the registry by its call. -/
theorem dispatch_served (s : Stage) (request : Request) :
    (s.dispatch request).1 = responded request s.sessions.length
        (s.registry.answer? (request.method, request.path)) ∧
      (s.dispatch request).2.registry = s.registry.apply (callOf request) := by
  have hrespond := (s.outcome_dispatch request).eq_respond
  rw [length_sessions_notify] at hrespond
  rw [respond] at hrespond
  rw [Registry.answer?, callOf, Registry.apply]
  cases hnext : s.registry.next? request.method request.path with
  | none =>
    rw [hnext] at hrespond
    exact Prod.mk.inj hrespond
  | some found =>
    simp only [hnext] at hrespond
    simp only [Option.map_some, responded]
    cases hanswer : found.1.answer request with
    | response response =>
      simp only [hanswer] at hrespond
      exact Prod.mk.inj hrespond
    | conversation script =>
      simp only [hanswer] at hrespond
      exact Prod.mk.inj hrespond

theorem registry_dispatches (s : Stage) (requests : List Request) :
    (s.performAll (requests.map .dispatch)).registry = s.registry.after (requests.map callOf) := by
  induction requests generalizing s with
  | nil => rfl
  | cons request requests ih =>
    rw [List.map_cons, performAll_cons, ih, List.map_cons, Registry.after_cons]
    exact congrArg (Registry.after · _) (s.dispatch_served request).2

/-- **Registration.** An expectation that is always met is filed as one entry that repeats, at the
end of the queue of its own method and path, and one that is met once or more often as so many
copies of an entry that does not. Nothing else changes.

* A text that is loaded is either no sheet, or refused for its first wrong item, and then nothing is
  registered; or all of its items are registered in order, and it says how many these are.
* After any filings each queue has what it had before, and then the entries of the expectations that
  were filed under its key, in order.
* Let requests be sent to a stage with nothing else registered, and find the same keys stocked, such
  as the one that they all name. The request with a number gets the entry that counting through the
  quotas of the expectations under these keys leads to, and finds nothing after the last one. -/
theorem registration :
    (∀ (clauses : List Expectation.Clause) (r : Registry),
      let e := Expectation.ofClauses clauses
      (e.entry true).repeats = true ∧ (e.entry false).repeats = false ∧
      r.Appends [(⟨e.method, e.path⟩, e.entry true)] (e.register .always r) ∧
      ∀ n, r.Appends (List.replicate n (⟨e.method, e.path⟩, e.entry false))
        (e.register (.times n) r)) ∧
    (∀ (text : String) (r : Registry), Sheet.Loading text r (Sheet.load text r) ∧
      (∀ refusal, Sheet.load text r = .error refusal → r.file (.sheet text) = r) ∧
      ∀ n u, Sheet.load text r = .ok (n, u) → r.file (.sheet text) = u) ∧
    (∀ (filings : List Filing) (r : Registry) (key : RequestKey),
      (r.fileAll filings).queue key =
        r.queue key ++ (filedUnder key filings).flatMap fun filed => filed.1.entries filed.2) ∧
    ∀ (filings : List Filing) (s : Stage) (keys : List RequestKey) (requests : List Request),
      s.registry = Registry.empty.fileAll filings →
      (∀ request ∈ requests, s.registry.stocked request = keys) →
      ∀ k request, requests[k]? = some request →
        let t := s.performAll ((requests.take k).map .dispatch)
        (t.dispatch request).1 = responded request t.sessions.length
          (counted (keys.flatMap fun key => filedUnder key filings) k) := by
  refine ⟨?_, ?_, fun filings r key => r.queue_fileAll filings key, ?_⟩
  · intro clauses r e
    refine ⟨e.repeats_entry true, e.repeats_entry false, e.appends_register .always r, fun n => ?_⟩
    have htimes := e.appends_register (.times n) r
    rwa [Expectation.filed, Expectation.entries, List.map_replicate] at htimes
  · intro text r
    refine ⟨Sheet.loading_load text r, ?_, ?_⟩
    · intro refusal h
      rw [Registry.file, h]
    · intro n u h
      rw [Registry.file, h]
  · intro filings s keys requests hregistry hstocked k request hk t
    -- what the requests come to is what was filed under the keys in stock
    have hline : s.registry.line keys = (keys.flatMap fun key => filedUnder key filings).flatMap
        fun filed => filed.1.entries filed.2 := by
      rw [List.flatMap_assoc]
      refine congrArg List.flatten (List.map_congr_left fun key _ => ?_)
      rw [hregistry, Registry.queue_fileAll]
      rfl
    have hanswer := Registry.answer?_after hstocked hk
    rw [hline, Registry.heldOut_entries, ← registry_dispatches] at hanswer
    rw [(t.dispatch_served request).1, hanswer]

/-- Between two registrations a sheet is refused for its second item, and so its first one is not
there either. Four requests of different methods get the other expectations by their quotas. -/
theorem registration_refused_between :
    let refused := "expectations:\n- path: /a\n- path: b\n"
    let filings : List Filing := [
      .expectation [.path "/a", .chunks 201 ["first"]] (.times 2), .sheet refused,
      .sheet "\x7b\"expectations\": [\x7b\"path\": \"/a\", \"status\": 202, \"times\": 1\x7d]\x7d"]
    let s : Stage := { Stage.empty 0 with registry := Registry.empty.fileAll filings }
    let requests : List Request :=
      ["GET", "POST", "GET", "DELETE"].map fun method => ⟨method, "/a", [], []⟩
    let code (k : Nat) (request : Request) : UInt16 :=
      ((s.performAll ((requests.take k).map .dispatch)).dispatch request).1.status
    (∀ r : Registry, r.file (.sheet refused) = r) ∧
    (∀ request ∈ requests, s.registry.stocked request = [⟨.any, "/a"⟩]) ∧
    ∀ k request, requests[k]? = some request →
      code k request = [201, 201, 202, 404].getD k 0 := by
  intro refused filings s requests code
  obtain ⟨-, hload, -, hcount⟩ := registration
  have hrefused : (Sheet.read refused).isOk = false := by decide +kernel
  have hstocked : ∀ request ∈ requests, s.registry.stocked request = [⟨.any, "/a"⟩] := by
    decide +kernel
  refine ⟨fun r => ?_, hstocked, fun k request hk => ?_⟩
  · cases hread : Sheet.read refused with
    | ok sheet =>
      rw [hread] at hrefused
      cases hrefused
    | error refusal => exact (hload refused r).2.1 refusal (by rw [Sheet.load, hread])
  · have hresponse := hcount filings s [⟨.any, "/a"⟩] requests rfl hstocked k request hk
    have hlt : k < 4 := (List.getElem?_eq_some_iff.mp hk).1
    -- counting is finite, so the four answers are evaluated
    have hcounted : ∀ k < 4,
        servedStatus (counted ([⟨.any, "/a"⟩].flatMap fun key => filedUnder key filings) k) =
          [201, 201, 202, 404].getD k 0 := by decide +kernel
    show Response.status _ = _
    rw [hresponse, status_responded]
    exact hcounted k hlt

end Stage

end Understudy
