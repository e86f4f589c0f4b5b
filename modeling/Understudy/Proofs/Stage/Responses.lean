import Understudy.Proofs.Expectation.Clauses
import Understudy.Proofs.Stage.Registration

/-!
# Understudy.Proofs.Stage.Responses

Responses carry what expectations say.

The entry of an expectation keeps its headers and its delay apart from the reply, and they come
together again in the response. A response to what was described by some clauses has the headers of
the reply, then those of the clauses in their order, and the last delay, unless that is zero
(`described`). A conversation has neither: the response that begins it says nothing but that the
protocol changes.

On a stage where nothing is registered but expectations and sheets of them, all that ever waits are
entries of these, under their keys (`Holds`). A move keeps this, so every response in a run is that
of an expectation, or says that nothing is found.
-/

namespace Understudy

open Expectation (Clause Quota last? replyOf keyOf ofClauses)

namespace Filing

/-- The clauses and the quotas that are filed; a sheet that is refused has none. -/
def orders : Filing → List (List Clause × Quota)
  | expectation clauses quota => [(clauses, quota)]
  | sheet text =>
    match Sheet.read text with
    | .ok s => s.items.map fun i => (i.clauses, i.quota)
    | .error _ => []

theorem expectations_eq (f : Filing) :
    f.expectations = f.orders.map fun order => (ofClauses order.1, order.2) := by
  cases f with
  | expectation clauses quota => rfl
  | sheet text =>
    rw [expectations, orders]
    cases Sheet.read text with
    | ok s => simp only [List.map_map]; rfl
    | error e => rfl

end Filing

/-! ### What waits -/

namespace Registry

/-- Every entry that waits is one of an expectation that was ordered, under the key of this. -/
def Holds (r : Registry) (orders : List (List Clause × Quota)) : Prop :=
  ∀ key, ∀ entry ∈ r.queue key,
    ∃ order ∈ orders, keyOf order.1 = key ∧ entry ∈ (ofClauses order.1).entries order.2

variable {r : Registry} {orders : List (List Clause × Quota)}

theorem holds_empty : empty.Holds [] := by
  intro key entry hentry
  cases hentry

theorem Holds.of_subset {u : Registry} (h : r.Holds orders)
    (hsub : ∀ key, ∀ entry ∈ u.queue key, entry ∈ r.queue key) : u.Holds orders :=
  fun key entry hentry => h key entry (hsub key entry hentry)

theorem Holds.file (h : r.Holds orders) (f : Filing) : (r.file f).Holds (orders ++ f.orders) := by
  intro key entry hentry
  rw [appends_file r f key, queue_filed, f.expectations_eq] at hentry
  rcases List.mem_append.mp hentry with hold | hnew
  · obtain ⟨order, horder, hof⟩ := h key entry hold
    exact ⟨order, List.mem_append_left _ horder, hof⟩
  · obtain ⟨filed, hfiled, hmem⟩ := List.mem_flatMap.mp hnew
    obtain ⟨hin, hkey⟩ := List.mem_filter.mp hfiled
    obtain ⟨order, horder, rfl⟩ := List.mem_map.mp hin
    refine ⟨order, List.mem_append_right _ horder, ?_, hmem⟩
    rw [← Expectation.key_ofClauses]
    exact of_decide_eq_true hkey

/-- What a request is served waits under one of the keys of the request. -/
theorem exists_of_answer? {request : Request} {entry : Entry}
    (h : r.answer? (request.method, request.path) = some entry) :
    ∃ key ∈ request.keys, entry ∈ r.queue key := by
  rw [answer?] at h
  rcases next?_cases r request.method request.path with
    ⟨-, hnext⟩ | ⟨key, e, rest, hreached, hq, hnext⟩
  · rw [hnext] at h
    cases h
  · rw [hnext] at h
    cases h
    exact ⟨key, List.mem_of_find?_eq_some hreached, hq ▸ List.mem_cons_self⟩

end Registry

namespace Stage

open Registry (Holds)

/-! ### Responses -/

/-- The response that clauses describe, to a request, if the next session has a number. -/
def described (clauses : List Clause) (request : Request) (number : Nat) : Response :=
  let headers := clauses.flatMap Clause.headers
  let delay := (last? Clause.delay? clauses).filter (· ≠ 0)
  match replyOf clauses with
  | .provided p => ⟨p.status, p.headers ++ headers, .full (Utf8.encode (p.body request)), delay⟩
  | .chunked status fragments =>
    ⟨status, headers, .chunked (Utf8.encode (String.join fragments)), delay⟩
  | .conversation _ => ⟨101, [], .session number, none⟩

/-- Entries of one expectation are answered alike. -/
theorem responded_of_mem_entries {clauses : List Clause} {quota : Quota} {entry : Entry}
    (h : entry ∈ (ofClauses clauses).entries quota) (request : Request) (number : Nat) :
    responded request number (some entry) = described clauses request number := by
  have hentry : ∃ repeats, entry = (ofClauses clauses).entry repeats := by
    cases quota with
    | times n => exact ⟨false, (List.mem_replicate.mp h).2⟩
    | always => exact ⟨true, List.mem_singleton.mp h⟩
  obtain ⟨repeats, rfl⟩ := hentry
  rw [Expectation.ofClauses_eq, Expectation.entry, described]
  cases replyOf clauses <;> rfl

theorem response_of_next? {s : Stage} {request : Request} {clauses : List Clause} {quota : Quota}
    {entry : Entry} {r : Registry} (hentry : entry ∈ (ofClauses clauses).entries quota)
    (hnext : s.registry.next? request.method request.path = some (entry, r)) :
    (s.dispatch request).1 = described clauses request s.sessions.length := by
  rw [(s.dispatch_served request).1, Registry.answer?, hnext]
  exact responded_of_mem_entries hentry request _

/-- Where nothing but ordered expectations waits, a request is answered with one of them. -/
theorem response_of_holds {s : Stage} {orders : List (List Clause × Quota)}
    (h : s.registry.Holds orders) (request : Request) :
    (s.dispatch request).1 = .notFound ∨
      ∃ order ∈ orders, keyOf order.1 ∈ request.keys ∧
        (s.dispatch request).1 = described order.1 request s.sessions.length := by
  rw [(s.dispatch_served request).1]
  cases hanswer : s.registry.answer? (request.method, request.path) with
  | none => exact Or.inl rfl
  | some entry =>
    obtain ⟨key, hkey, hwaits⟩ := Registry.exists_of_answer? hanswer
    obtain ⟨order, horder, rfl, hentry⟩ := h key entry hwaits
    exact Or.inr ⟨order, horder, hkey, responded_of_mem_entries hentry request _⟩

/-! ### Runs -/

/-- Whether an act puts an entry into the registry by itself. -/
def Act.registers : Act → Bool
  | register _ _ => true
  | dispatch _ | operate _ _ | elapse _ | settle | advance _ | count => false

/-- Something that happens to a stage on which all that is registered are expectations. -/
inductive Move where
  | file (filing : Filing)
  | act (act : Act) (other : act.registers = false)

/-- What is ordered by a move. -/
def Move.orders : Move → List (List Clause × Quota)
  | file filing => filing.orders
  | act _ _ => []

/-- The stage after a move. -/
def move (s : Stage) : Move → Stage
  | .file filing => { s with registry := s.registry.file filing }
  | .act act _ => s.perform act

/-- The stage after some moves, in order. -/
def moveAll (s : Stage) (moves : List Move) : Stage := moves.foldl move s

theorem holds_perform {s : Stage} {orders : List (List Clause × Quota)}
    (h : s.registry.Holds orders) {act : Act} (other : act.registers = false) :
    (s.perform act).registry.Holds orders := by
  cases act with
  | dispatch request =>
    rw [perform, (s.dispatch_served request).2]
    exact h.of_subset fun _ _ => Registry.mem_queue_of_apply
  | register key entry => cases other
  | operate number input => exact h
  | elapse milliseconds => exact h
  | settle => exact h
  | advance milliseconds => exact h
  | count => exact h

theorem holds_move {s : Stage} {orders : List (List Clause × Quota)}
    (h : s.registry.Holds orders) (m : Move) :
    (s.move m).registry.Holds (orders ++ m.orders) := by
  cases m with
  | file filing => exact h.file filing
  | act act other =>
    rw [Move.orders, List.append_nil]
    exact holds_perform h other

theorem holds_moveAll {s : Stage} {orders : List (List Clause × Quota)}
    (h : s.registry.Holds orders) (moves : List Move) :
    (s.moveAll moves).registry.Holds (orders ++ moves.flatMap Move.orders) := by
  induction moves generalizing s orders with
  | nil =>
    rw [List.flatMap_nil, List.append_nil]
    exact h
  | cons m moves ih =>
    rw [List.flatMap_cons, ← List.append_assoc]
    exact ih (holds_move h m)

/-! ### The theorem -/

/-- **Responses carry what expectations say.** Let an expectation be described by clauses, in any
order and any of them again and again.

* However often it is to be met, it is registered as its entries, at the end of the queue under its
  last method and its last path, and nothing else changes.
* A request that is served one of these entries, by whatever stage, gets the response that the
  clauses describe: the last reply, after whose own headers come those of the clauses in order, and
  the last delay unless it is zero. Only if the reply is a conversation there is neither a header
  nor a delay, and the protocol changes.
* Where the clauses about headers stand among the others makes no difference: with the same headers
  in one order, and the same last words on everything else, it is the same expectation.
* If nothing is registered on a stage but expectations and sheets of them, then at any time in a run
  a request gets what the clauses of one of these describe, whose key is one of its keys, or it is
  told that nothing is found. -/
theorem described_responses :
    (∀ (clauses : List Clause) (quota : Quota) (r : Registry),
      r.Appends (((ofClauses clauses).entries quota).map fun entry => (keyOf clauses, entry))
        ((ofClauses clauses).register quota r)) ∧
    (∀ (clauses : List Clause) (quota : Quota), ∀ entry ∈ (ofClauses clauses).entries quota,
      ∀ (s : Stage) (request : Request) (r : Registry),
        s.registry.next? request.method request.path = some (entry, r) →
        (s.dispatch request).1 = described clauses request s.sessions.length) ∧
    (∀ as bs : List Clause,
      as.flatMap Clause.headers = bs.flatMap Clause.headers →
      last? Clause.method? as = last? Clause.method? bs →
      last? Clause.path? as = last? Clause.path? bs →
      last? Clause.delay? as = last? Clause.delay? bs →
      last? Clause.reply? as = last? Clause.reply? bs → ofClauses as = ofClauses bs) ∧
    ∀ (closeTimeout : Nat) (moves : List Move) (request : Request),
      let s := (empty closeTimeout).moveAll moves
      (s.dispatch request).1 = .notFound ∨
        ∃ order ∈ moves.flatMap Move.orders, keyOf order.1 ∈ request.keys ∧
          (s.dispatch request).1 = described order.1 request s.sessions.length := by
  refine ⟨?_, ?_, ?_, ?_⟩
  · intro clauses quota r
    rw [← Expectation.key_ofClauses]
    exact (ofClauses clauses).appends_register quota r
  · intro clauses quota entry hentry s request r hnext
    exact response_of_next? hentry hnext
  · intro as bs hheaders hmethod hpath hdelay hreply
    exact Expectation.ofClauses_congr hmethod hpath hheaders hdelay hreply
  · intro closeTimeout moves request s
    have hholds : s.registry.Holds ([] ++ moves.flatMap Move.orders) :=
      holds_moveAll Registry.holds_empty moves
    exact response_of_holds hholds request

/-- A JSON document gives way to chunks, and leaves its header where it was; a delay gives way to
another one. The same expectation has other clauses too. -/
theorem described_responses_overridden :
    let clauses : List Clause := [.header "X-A" "1", .delay 0, .json 200 (.bool true), .path "/a",
      .header "X-B" "2", .chunks 201 ["x", "y"], .method .get, .delay 5000]
    let others : List Clause := [.path "/a", .chunks 201 ["x", "y"], .header "X-A" "1",
      .header "Content-Type" "application/json", .header "X-B" "2", .delay 5000, .method .get]
    let s : Stage :=
      (empty 0).moveAll [.file (.expectation clauses (.times 2)), .act (.advance 10) rfl]
    let request : Request := ⟨"get", "/a", [], []⟩
    let entry := (ofClauses clauses).entry false
    entry ∈ (ofClauses clauses).entries (.times 2) ∧
    s.registry.next? request.method request.path =
      some (entry, s.registry.dropFirst ⟨.get, "/a"⟩) ∧
    (s.dispatch request).1 =
      ⟨201, [("X-A", "1"), ("Content-Type", "application/json"), ("X-B", "2")],
        .chunked (Utf8.encode "xy"), some 5000⟩ ∧
    ofClauses clauses = ofClauses others := by
  intro clauses others s request entry
  obtain ⟨-, hserved, hcongr, -⟩ := described_responses
  have hentry : entry ∈ (ofClauses clauses).entries (.times 2) := List.mem_cons_self
  have hkeys : RequestKey.lookupOrder request.method request.path =
      [⟨.get, "/a"⟩, ⟨.any, "/a"⟩] := by decide +kernel
  have hnext : s.registry.next? request.method request.path =
      some (entry, s.registry.dropFirst ⟨.get, "/a"⟩) := by
    rw [Registry.next?, hkeys]
    rfl
  refine ⟨hentry, hnext, ?_, hcongr clauses others rfl rfl rfl rfl rfl⟩
  rw [hserved clauses (.times 2) entry hentry s request _ hnext]
  decide +kernel

/-- A response that begins a conversation has neither the headers nor the delay of the clauses. -/
theorem upgrade_without_headers :
    let clauses : List Clause :=
      [.header "X-Trace" "abc", .delay 25000, .path "/ws", .conversation (.ofCues [])]
    let s : Stage :=
      { empty 60000 with registry := (ofClauses clauses).register .always Registry.empty }
    let response := (s.dispatch ⟨"GET", "/ws", [], []⟩).1
    response = ⟨101, [], .session 0, none⟩ ∧
    clauses.flatMap Clause.headers = [("X-Trace", "abc")] ∧
    last? Clause.delay? clauses = some 25000 := by
  decide +kernel

end Stage

end Understudy
