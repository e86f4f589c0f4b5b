import Understudy.Expectation

/-!
# Understudy.Proofs.Expectation.Clauses

What an expectation has of each of its clauses.

A clause says something about the method, the path, the headers, the delay or the reply; only that
the reply is a JSON document says two things at once. What clauses say about the headers adds up in
their order, and of what they say about anything else the last word counts (`ofClauses_eq`). So two
descriptions with the same headers in one order, and with the same last words, are descriptions of
one expectation (`ofClauses_congr`), wherever the clauses about headers stand among the others.
-/

namespace Understudy

namespace Expectation

open Clause (method path header delay reply json chunks conversation)

/-! ### What a clause says -/

namespace Clause

/-- What a clause says about the method. -/
def method? : Clause → Option Method
  | method m => some m
  | path _ | header _ _ | delay _ | reply _ | json _ _ | chunks _ _ | conversation _ => none

/-- What a clause says about the path. -/
def path? : Clause → Option String
  | path p => some p
  | method _ | header _ _ | delay _ | reply _ | json _ _ | chunks _ _ | conversation _ => none

/-- The headers that a clause adds; a JSON document adds its type. -/
def headers : Clause → Headers
  | header name value => [(name, value)]
  | json _ _ => [("Content-Type", "application/json")]
  | method _ | path _ | delay _ | reply _ | chunks _ _ | conversation _ => []

/-- What a clause says about the delay. -/
def delay? : Clause → Option Nat
  | delay microseconds => some microseconds
  | method _ | path _ | header _ _ | reply _ | json _ _ | chunks _ _ | conversation _ => none

/-- What a clause says about the reply. -/
def reply? : Clause → Option Reply
  | reply provider => some (.provided provider)
  | json status document => some (.provided (.fixed status [] document.text))
  | chunks status fragments => some (.chunked status fragments)
  | conversation script => some (.conversation script)
  | method _ | path _ | header _ _ | delay _ => none

end Clause

/-- The last word of clauses on something. -/
def last? {α : Type} (said? : Clause → Option α) (clauses : List Clause) : Option α :=
  (clauses.filterMap said?).getLast?

theorem last?_cons {α : Type} (said? : Clause → Option α) (c : Clause) (clauses : List Clause) :
    last? said? (c :: clauses) = (last? said? clauses).or (said? c) := by
  rw [last?, last?, List.filterMap_cons]
  cases said? c with
  | none => rw [Option.or_none]
  | some a =>
    rw [List.getLast?_cons]
    cases (clauses.filterMap said?).getLast? <;> rfl

/-! ### What clauses say together -/

theorem add_eq (e : Expectation) (c : Clause) :
    e.add c =
      ⟨c.method?.getD e.method, c.path?.getD e.path, e.headers ++ c.headers, c.delay?.or e.delay,
        c.reply?.getD e.reply⟩ := by
  cases c <;> simp [add, Clause.method?, Clause.path?, Clause.headers, Clause.delay?, Clause.reply?]

/-- An expectation after clauses: the last word of them on each part, and headers added up. -/
theorem foldl_add (clauses : List Clause) (e : Expectation) :
    clauses.foldl add e =
      ⟨(last? Clause.method? clauses).getD e.method, (last? Clause.path? clauses).getD e.path,
        e.headers ++ clauses.flatMap Clause.headers, (last? Clause.delay? clauses).or e.delay,
        (last? Clause.reply? clauses).getD e.reply⟩ := by
  induction clauses generalizing e with
  | nil => simp [last?]
  | cons c clauses ih =>
    simp only [List.foldl_cons, ih, add_eq, last?_cons, Option.getD_or, Option.or_assoc,
      List.flatMap_cons, List.append_assoc]

/-- The reply of clauses; an empty one if they do not speak of it. -/
def replyOf (clauses : List Clause) : Reply :=
  (last? Clause.reply? clauses).getD (.provided (.fixed 200 [] ""))

/-- The key that an expectation of clauses is filed under. -/
def keyOf (clauses : List Clause) : RequestKey :=
  ⟨(last? Clause.method? clauses).getD .any, (last? Clause.path? clauses).getD "/"⟩

theorem ofClauses_eq (clauses : List Clause) :
    ofClauses clauses =
      ⟨(keyOf clauses).method, (keyOf clauses).path, clauses.flatMap Clause.headers,
        last? Clause.delay? clauses, replyOf clauses⟩ := by
  rw [ofClauses, foldl_add, List.nil_append, Option.or_none]
  rfl

theorem key_ofClauses (clauses : List Clause) : (ofClauses clauses).key = keyOf clauses := by
  rw [ofClauses_eq, key]

theorem ofClauses_congr {as bs : List Clause}
    (hmethod : last? Clause.method? as = last? Clause.method? bs)
    (hpath : last? Clause.path? as = last? Clause.path? bs)
    (hheaders : as.flatMap Clause.headers = bs.flatMap Clause.headers)
    (hdelay : last? Clause.delay? as = last? Clause.delay? bs)
    (hreply : last? Clause.reply? as = last? Clause.reply? bs) : ofClauses as = ofClauses bs := by
  rw [ofClauses_eq, ofClauses_eq, keyOf, keyOf, replyOf, replyOf, hmethod, hpath, hheaders, hdelay,
    hreply]

end Expectation

end Understudy
