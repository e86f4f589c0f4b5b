import Understudy.Proofs.Registry.History

/-!
# Understudy.Proofs.Registry.Reordering

The order of requests does not matter for what is handed out in total.

A request is served the head of the queue that it reaches, and `spend` is what that does to the
registry. Two requests that reach different queues do not see each other: neither takes from the
queue of the other, and a queue that was empty stays empty (`reached?_spend_of_ne`). Two requests
that reach one queue are served its head and what comes after it, and it is the same for both where
the second one goes: only the queue of `any` is tried after one that was found (`reached?_spend`).
So two neighbours can change places (`swap`), and with that every order leads to every other one
(`after_of_perm`, `answers_of_perm`). A single request may well be served another entry.
-/

namespace Understudy

namespace Queues

variable {κ α : Type} [DecidableEq κ]

/-- Dropping under two keys can be done in either order. -/
theorem dropFirst_comm (items : Queues κ α) {k l : κ} (h : k ≠ l) :
    dropFirst (dropFirst items k) l = dropFirst (dropFirst items l) k := by
  unfold dropFirst
  refine List.eraseP_comm ?_
  intro item _
  by_cases hk : item.1 = k
  · right
    simp [hk, h]
  · left
    simp [hk]

end Queues

namespace RequestKey

/-- The keys that a request is looked up under after a key at which it could have been served. -/
def fallbacks (key : RequestKey) : List RequestKey :=
  if key.method = .any then [] else [⟨.any, key.path⟩]

/-- What comes after a key in the order of a lookup depends on that key alone. -/
theorem eq_fallbacks_of_lookupOrder {method path : String} {key : RequestKey}
    {pre post : List RequestKey} (h : lookupOrder method path = pre ++ key :: post) :
    post = key.fallbacks := by
  unfold lookupOrder at h
  cases hm : Method.concrete? method with
  | none =>
    rw [hm] at h
    -- the key of the own method comes first, and that of every method last
    cases pre with
    | nil =>
      cases h
      rfl
    | cons k pre => simp at h
  | some m =>
    have hany : m ≠ .any := Method.concrete?_ne_any hm
    rw [hm] at h
    cases pre with
    | nil =>
      cases h
      rw [fallbacks, if_neg hany]
    | cons k pre =>
      cases pre with
      | nil =>
        cases h
        rfl
      | cons k' pre => simp at h

end RequestKey

namespace Registry

/-! ### Serving the head of a queue -/

/-- Whether the head of a queue goes away once it is served. -/
def fleeting (r : Registry) (key : RequestKey) : Bool :=
  (r.queue key).head?.any fun e => !e.repeats

/-- The registry after the head of a queue was served, if there is one. -/
def spend (r : Registry) (key : RequestKey) : Registry :=
  if r.fleeting key then r.dropFirst key else r

theorem spend_eq_self_or (r : Registry) (key : RequestKey) :
    r.spend key = r ∨ r.spend key = r.dropFirst key := by
  unfold spend
  split
  · exact Or.inr rfl
  · exact Or.inl rfl

theorem queue_spend_of_ne {r : Registry} {key other : RequestKey} (h : key ≠ other) :
    (r.spend key).queue other = r.queue other := by
  rcases spend_eq_self_or r key with heq | heq
  · rw [heq]
  · rw [heq, queue_dropFirst, if_neg h]

theorem queue_spend_of_nil {r : Registry} {key other : RequestKey} (h : r.queue other = []) :
    (r.spend key).queue other = [] := by
  by_cases hkey : key = other
  · subst hkey
    rw [spend, fleeting, h]
    exact h
  · rw [queue_spend_of_ne hkey, h]

/-- Serving one queue does not change whether the head of another one goes away. -/
theorem fleeting_spend_of_ne {r : Registry} {key other : RequestKey} (h : key ≠ other) :
    (r.spend key).fleeting other = r.fleeting other := by
  rw [fleeting, queue_spend_of_ne h, fleeting]

theorem spend_comm (r : Registry) {k l : RequestKey} (h : k ≠ l) :
    (r.spend k).spend l = (r.spend l).spend k := by
  rw [spend, fleeting_spend_of_ne h, spend, spend, fleeting_spend_of_ne (Ne.symm h), spend]
  by_cases hk : r.fleeting k = true
  · by_cases hl : r.fleeting l = true
    · rw [if_pos hk, if_pos hl, if_pos hl, if_pos hk]
      exact congrArg Registry.mk (Queues.dropFirst_comm r.entries h)
    · rw [if_neg hl, if_pos hk, if_neg hl, if_pos hk]
  · rw [if_neg hk, if_neg hk]

/-! ### Which queue a request reaches afterwards -/

/-- A request reaches the first key in its order that has a queue. -/
theorem reached?_eq_some_iff {r : Registry} {method path : String} {key : RequestKey} :
    r.reached? method path = some key ↔
      r.queue key ≠ [] ∧ ∃ pre, RequestKey.lookupOrder method path =
        pre ++ key :: key.fallbacks ∧ ∀ k ∈ pre, r.queue k = [] := by
  rw [reached?, List.find?_eq_some_iff_append]
  constructor
  · rintro ⟨hne, pre, post, horder, hpre⟩
    have hpost : post = key.fallbacks := RequestKey.eq_fallbacks_of_lookupOrder horder
    refine ⟨by simpa using hne, pre, hpost ▸ horder, ?_⟩
    intro k hk
    simpa using hpre k hk
  · rintro ⟨hne, pre, horder, hpre⟩
    refine ⟨by simpa using hne, pre, _, horder, ?_⟩
    intro k hk
    simpa using hpre k hk

theorem reached?_eq_none_iff {r : Registry} {method path : String} :
    r.reached? method path = none ↔
      ∀ key ∈ RequestKey.lookupOrder method path, r.queue key = [] := by
  rw [reached?, List.find?_eq_none]
  simp

theorem reached?_spend_of_none {r : Registry} {method path : String}
    (h : r.reached? method path = none) (key : RequestKey) :
    (r.spend key).reached? method path = none := by
  rw [reached?_eq_none_iff] at h ⊢
  intro k hk
  exact queue_spend_of_nil (h k hk)

/-- A request still reaches its queue when another one was served from. -/
theorem reached?_spend_of_ne {r : Registry} {method path : String} {key other : RequestKey}
    (h : r.reached? method path = some key) (hne : other ≠ key) :
    (r.spend other).reached? method path = some key := by
  rw [reached?_eq_some_iff] at h ⊢
  obtain ⟨hq, pre, horder, hpre⟩ := h
  rw [queue_spend_of_ne hne]
  refine ⟨hq, pre, horder, ?_⟩
  intro k hk
  exact queue_spend_of_nil (hpre k hk)

/-- Where a request goes once its queue was served from depends on that queue alone. -/
theorem reached?_spend {r : Registry} {method path : String} {key : RequestKey}
    (h : r.reached? method path = some key) :
    (r.spend key).reached? method path =
      (key :: key.fallbacks).find? fun k => !((r.spend key).queue k).isEmpty := by
  obtain ⟨-, pre, horder, hpre⟩ := reached?_eq_some_iff.mp h
  have hnone : (pre.find? fun k => !((r.spend key).queue k).isEmpty) = none := by
    rw [List.find?_eq_none]
    intro k hk
    rw [queue_spend_of_nil (hpre k hk)]
    simp
  rw [reached?, horder, List.find?_append, hnone, Option.none_or]

/-! ### Requests -/

/-- The call that a request makes, with its method and its path. -/
def ask (request : String × String) : Call := .next request.1 request.2

/-- What a request is served, if anything. -/
def answer? (r : Registry) (request : String × String) : Option Entry :=
  (r.next? request.1 request.2).map (·.1)

/-- What requests are served, in order. -/
def answers (r : Registry) : List (String × String) → List (Option Entry)
  | [] => []
  | request :: requests => r.answer? request :: (r.apply (ask request)).answers requests

/-- A request that reaches no queue is served nothing, and changes nothing. -/
theorem ask_of_none {r : Registry} {request : String × String}
    (h : r.reached? request.1 request.2 = none) :
    r.answer? request = none ∧ r.apply (ask request) = r := by
  rcases next?_cases r request.1 request.2 with ⟨-, hnext⟩ | ⟨key, e, rest, hsome, -, -⟩
  · rw [answer?, ask, apply, hnext]
    exact ⟨rfl, rfl⟩
  · rw [h] at hsome
    cases hsome

/-- A request is served the head of the queue that it reaches. -/
theorem ask_of_some {r : Registry} {request : String × String} {key : RequestKey}
    (h : r.reached? request.1 request.2 = some key) :
    r.answer? request = (r.queue key).head? ∧ r.apply (ask request) = r.spend key := by
  rcases next?_cases r request.1 request.2 with ⟨hnone, -⟩ | ⟨other, e, rest, hsome, hq, hnext⟩
  · rw [h] at hnone
    cases hnone
  · rw [h, Option.some_inj] at hsome
    subst hsome
    rw [answer?, ask, apply, hnext, spend, fleeting, hq]
    refine ⟨rfl, ?_⟩
    cases he : e.repeats <;> simp [he]

/-- Requests that reach the same queue, or both none, are served alike and change the same. -/
theorem ask_congr {r : Registry} {a b : String × String}
    (h : r.reached? a.1 a.2 = r.reached? b.1 b.2) :
    r.answer? a = r.answer? b ∧ r.apply (ask a) = r.apply (ask b) := by
  cases hb : r.reached? b.1 b.2 with
  | none =>
    obtain ⟨hanswerA, hafterA⟩ := ask_of_none (h.trans hb)
    obtain ⟨hanswerB, hafterB⟩ := ask_of_none hb
    exact ⟨hanswerA.trans hanswerB.symm, hafterA.trans hafterB.symm⟩
  | some key =>
    obtain ⟨hanswerA, hafterA⟩ := ask_of_some (h.trans hb)
    obtain ⟨hanswerB, hafterB⟩ := ask_of_some hb
    exact ⟨hanswerA.trans hanswerB.symm, hafterA.trans hafterB.symm⟩

/-- Whether two requests, one after the other, may change places: both orders lead to the same
registry, and between them the requests are served the same. -/
structure Swap (r : Registry) (a b : String × String) : Prop where
  after_eq : (r.apply (ask a)).apply (ask b) = (r.apply (ask b)).apply (ask a)
  answers_perm : [r.answer? a, (r.apply (ask a)).answer? b].Perm
    [r.answer? b, (r.apply (ask b)).answer? a]

theorem Swap.symm {r : Registry} {a b : String × String} (h : Swap r a b) : Swap r b a :=
  ⟨h.after_eq.symm, h.answers_perm.symm⟩

/-- A request that reaches no queue does not reach one after another request either. -/
theorem swap_of_none {r : Registry} {a b : String × String}
    (ha : r.reached? a.1 a.2 = none) : Swap r a b := by
  obtain ⟨hanswer, hafter⟩ := ask_of_none ha
  have hlater : (r.apply (ask b)).reached? a.1 a.2 = none := by
    cases hb : r.reached? b.1 b.2 with
    | none =>
      rw [(ask_of_none hb).2]
      exact ha
    | some key =>
      rw [(ask_of_some hb).2]
      exact reached?_spend_of_none ha key
  obtain ⟨hanswer', hafter'⟩ := ask_of_none hlater
  refine ⟨by rw [hafter, hafter'], ?_⟩
  rw [hafter, hanswer, hanswer']
  exact List.Perm.swap _ _ _

/-- Requests that reach different queues are served the same in either order. -/
theorem swap_of_ne {r : Registry} {a b : String × String} {k l : RequestKey}
    (ha : r.reached? a.1 a.2 = some k) (hb : r.reached? b.1 b.2 = some l) (hne : k ≠ l) :
    Swap r a b := by
  obtain ⟨hanswerA, hafterA⟩ := ask_of_some ha
  obtain ⟨hanswerB, hafterB⟩ := ask_of_some hb
  obtain ⟨hlaterB, hbothB⟩ := ask_of_some (reached?_spend_of_ne hb hne)
  obtain ⟨hlaterA, hbothA⟩ := ask_of_some (reached?_spend_of_ne ha (Ne.symm hne))
  refine ⟨by rw [hafterA, hafterB, hbothA, hbothB, spend_comm r hne], ?_⟩
  rw [hafterA, hafterB, hanswerA, hanswerB, hlaterA, hlaterB, queue_spend_of_ne hne,
    queue_spend_of_ne (Ne.symm hne)]
  exact List.Perm.swap _ _ _

/-- Of requests that reach one queue, the second is served the same whichever it is. -/
theorem swap_of_same {r : Registry} {a b : String × String} {key : RequestKey}
    (ha : r.reached? a.1 a.2 = some key) (hb : r.reached? b.1 b.2 = some key) : Swap r a b := by
  obtain ⟨hanswerA, hafterA⟩ := ask_of_some ha
  obtain ⟨hanswerB, hafterB⟩ := ask_of_some hb
  have hlater : (r.spend key).reached? a.1 a.2 = (r.spend key).reached? b.1 b.2 := by
    rw [reached?_spend ha, reached?_spend hb]
  obtain ⟨hanswer, hafter⟩ := ask_congr hlater
  refine ⟨by rw [hafterA, hafterB, hafter], ?_⟩
  rw [hafterA, hafterB, hanswerA, hanswerB, hanswer]

/-- Any two requests in a row may change places. -/
theorem swap (r : Registry) (a b : String × String) : Swap r a b := by
  cases ha : r.reached? a.1 a.2 with
  | none => exact swap_of_none ha
  | some k =>
    cases hb : r.reached? b.1 b.2 with
    | none => exact (swap_of_none hb).symm
    | some l =>
      by_cases hne : k = l
      · subst hne
        exact swap_of_same ha hb
      · exact swap_of_ne ha hb hne

/-! ### Orders of requests -/

/-- The registry that requests leave does not depend on their order. -/
theorem after_of_perm {as bs : List (String × String)} (h : as.Perm bs) (r : Registry) :
    r.after (as.map ask) = r.after (bs.map ask) := by
  unfold after
  rw [List.foldl_map, List.foldl_map]
  refine h.foldl_eq' ?_ r
  intro a _ b _ r
  exact (swap r a b).after_eq

/-- What requests are handed out in total does not depend on their order. -/
theorem answers_of_perm {as bs : List (String × String)} (h : as.Perm bs) (r : Registry) :
    (r.answers as).Perm (r.answers bs) := by
  induction h generalizing r with
  | nil => exact List.Perm.nil
  | cons a _ ih => exact (ih _).cons _
  | swap a b rest =>
    obtain ⟨hafter, hanswers⟩ := swap r b a
    -- the two answers in front change places, and all others come from the same registry
    rw [answers, answers, answers, answers, hafter]
    exact hanswers.append_right _
  | trans _ _ ih ih' => exact (ih r).trans (ih' r)

/-- **The order of requests.** Whatever a registry holds, the same requests in another order

* leave the same queues;
* are served the same entries in total, each as often;
* are left unanswered as often. -/
theorem totals_of_reordered (r : Registry) {as bs : List (String × String)} (h : as.Perm bs) :
    (∀ key, (r.after (as.map ask)).queue key = (r.after (bs.map ask)).queue key) ∧
    ((r.answers as).filterMap id).Perm ((r.answers bs).filterMap id) ∧
    (r.answers as).countP Option.isNone = (r.answers bs).countP Option.isNone := by
  have hanswers := answers_of_perm h r
  refine ⟨?_, hanswers.filterMap id, hanswers.countP_eq Option.isNone⟩
  intro key
  rw [after_of_perm h r]

/-- Of three requests on a path, the one that comes first is served another entry in each order, and
a request on another path is served nothing in both. -/
theorem totals_of_reordered_competing :
    let entry (text : String) (repeats : Bool) : Entry := ⟨.chunked 200 [text], [], none, repeats⟩
    let text (e : Entry) : String :=
      match e.reply with
      | .chunked _ fragments => String.join fragments
      | _ => ""
    let r := empty.after
      [.register ⟨.get, "/a"⟩ (entry "own" false), .register ⟨.any, "/a"⟩ (entry "spare" false),
        .register ⟨.any, "/a"⟩ (entry "rest" true)]
    let as := [("GET", "/a"), ("get", "/a"), ("POST", "/a"), ("GET", "/b")]
    let bs := [("POST", "/a"), ("GET", "/b"), ("GET", "/a"), ("get", "/a")]
    as.Perm bs ∧
    (r.answers as).map (·.map text) = [some "own", some "spare", some "rest", none] ∧
    (r.answers bs).map (·.map text) = [some "spare", none, some "own", some "rest"] ∧
    (∀ key, (r.after (as.map ask)).queue key = (r.after (bs.map ask)).queue key) ∧
    ((r.answers as).filterMap id).Perm ((r.answers bs).filterMap id) ∧
    (r.answers as).countP Option.isNone = (r.answers bs).countP Option.isNone := by
  intro entry text r as bs
  have hperm : as.Perm bs := by decide
  exact ⟨hperm, by decide +kernel, by decide +kernel, totals_of_reordered r hperm⟩

end Registry

end Understudy
