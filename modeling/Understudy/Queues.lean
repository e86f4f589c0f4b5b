/-!
# Understudy.Queues

Queues under keys.

`Queues` keeps them as one list. The items under a key are its queue, in their order in the list.
Putting an item at the end of the list puts it at the end of its queue, and dropping the first item
under a key takes the head off its queue; both leave the queues of other keys alone (`queue_push`,
`queue_dropFirst`). A key without items has no queue.

`QueueMap` keeps a queue for each of its keys. There a key stays when the last item has left its
queue (`keys_dropFirst`), so that a queue that is used up can be told from one that never was.
-/

namespace Understudy

/-- Items in order, each under a key. -/
abbrev Queues (κ α : Type) := List (κ × α)

namespace Queues

variable {κ α : Type} [DecidableEq κ]

/-- The items under a key, in order. -/
def queue (items : Queues κ α) (key : κ) : List α :=
  (items.filter fun item => item.1 = key).map (·.2)

/-- Whether there is an item under a key. -/
def has (items : Queues κ α) (key : κ) : Bool := items.any fun item => item.1 = key

/-- Puts an item at the end of the queue of a key. -/
def push (items : Queues κ α) (key : κ) (item : α) : Queues κ α := items ++ [(key, item)]

/-- Drops the first item under a key. -/
def dropFirst (items : Queues κ α) (key : κ) : Queues κ α :=
  items.eraseP fun item => item.1 = key

/-- The keys, each of them once. -/
def keys (items : Queues κ α) : List κ := (items.map (·.1)).eraseDups

@[simp] theorem queue_nil (key : κ) : queue ([] : Queues κ α) key = [] := rfl

theorem queue_cons (item : κ × α) (items : Queues κ α) (key : κ) :
    queue (item :: items) key =
      if item.1 = key then item.2 :: queue items key else queue items key := by
  by_cases h : item.1 = key <;> simp [queue, h]

theorem queue_append (as bs : Queues κ α) (key : κ) :
    queue (as ++ bs) key = queue as key ++ queue bs key := by simp [queue]

theorem queue_flatMap {β : Type} (bs : List β) (f : β → Queues κ α) (key : κ) :
    queue (bs.flatMap f) key = bs.flatMap fun b => queue (f b) key := by
  simp only [queue, List.filter_flatMap, List.map_flatMap]

/-- Items under one key are the queue of that key. -/
theorem queue_map_key (own : κ) (items : List α) (key : κ) :
    queue (items.map fun item => (own, item)) key = if own = key then items else [] := by
  by_cases h : own = key
  · subst h
    simp [queue, List.filter_map, Function.comp_def]
  · simp [queue, List.filter_map, Function.comp_def, h]

theorem queue_push (items : Queues κ α) (key other : κ) (item : α) :
    queue (push items key item) other =
      if key = other then queue items other ++ [item] else queue items other := by
  by_cases h : key = other <;> simp [push, queue, h]

/-- Dropping the first under a key drops the first of its queue, and leaves the others. -/
theorem queue_dropFirst (items : Queues κ α) (key other : κ) :
    queue (dropFirst items key) other =
      if key = other then (queue items other).tail else queue items other := by
  induction items with
  | nil => simp [dropFirst]
  | cons item rest ih =>
    by_cases hk : item.1 = key
    · rw [dropFirst, List.eraseP_cons_of_pos (by simpa using hk), queue_cons]
      subst hk
      split <;> simp
    · rw [dropFirst, List.eraseP_cons_of_neg (by simpa using hk), queue_cons, queue_cons]
      rw [dropFirst] at ih
      rw [ih]
      by_cases h : key = other
      · subst h
        simp [hk]
      · simp [h]

theorem has_eq_true_iff (items : Queues κ α) (key : κ) :
    has items key = true ↔ queue items key ≠ [] := by
  induction items with
  | nil => simp [has]
  | cons item rest ih =>
    rw [queue_cons]
    by_cases h : item.1 = key
    · simp [has, h]
    · simpa [has, h] using ih

theorem mem_keys_iff (items : Queues κ α) (key : κ) : key ∈ keys items ↔ queue items key ≠ [] := by
  rw [keys, List.mem_eraseDups, ← has_eq_true_iff]
  simp [has]

/-- There are no keys only if there is nothing. -/
theorem keys_eq_nil_iff (items : Queues κ α) : keys items = [] ↔ items = [] := by
  constructor
  · intro h
    cases items with
    | nil => rfl
    | cons item rest =>
      have hmem : item.1 ∈ keys (item :: rest) := by
        rw [mem_keys_iff, queue_cons, if_pos rfl]
        exact List.cons_ne_nil _ _
      rw [h] at hmem
      cases hmem
  · rintro rfl
    rfl

end Queues

/-- Keys in order, each with its queue, which may be empty. -/
abbrev QueueMap (κ α : Type) := List (κ × List α)

/-- A queue for each key that has an item. -/
def Queues.toMap {κ α : Type} [DecidableEq κ] (items : Queues κ α) : QueueMap κ α :=
  items.keys.map fun key => (key, items.queue key)

namespace QueueMap

variable {κ α : Type} [DecidableEq κ]

/-- The keys that have a queue, used up or not. -/
def keys (m : QueueMap κ α) : List κ := m.map (·.1)

/-- The queue of a key, if it has one. -/
def queue? (m : QueueMap κ α) (key : κ) : Option (List α) :=
  (m.find? fun entry => entry.1 = key).map (·.2)

/-- Takes the head off the queue of a key. The key stays. -/
def dropFirst : QueueMap κ α → κ → QueueMap κ α
  | [], _ => []
  | (k, q) :: rest, key => if k = key then (k, q.tail) :: rest else (k, q) :: dropFirst rest key

/-- The items of all queues, each under its key. -/
def items (m : QueueMap κ α) : Queues κ α :=
  m.flatMap fun entry => entry.2.map fun item => (entry.1, item)

theorem queue?_cons (entry : κ × List α) (rest : QueueMap κ α) (key : κ) :
    queue? (entry :: rest) key = if entry.1 = key then some entry.2 else queue? rest key := by
  by_cases h : entry.1 = key <;> simp [queue?, h]

omit [DecidableEq κ] in
theorem items_cons (entry : κ × List α) (rest : QueueMap κ α) :
    items (entry :: rest) = (entry.2.map fun item => (entry.1, item)) ++ items rest := rfl

@[simp] theorem keys_dropFirst (m : QueueMap κ α) (key : κ) : keys (dropFirst m key) = keys m := by
  induction m with
  | nil => rfl
  | cons entry rest ih =>
    rw [dropFirst]
    split
    · rfl
    · simpa [keys] using ih

/-- Dropping the first of a queue leaves its key, and the other queues. -/
theorem queue?_dropFirst (m : QueueMap κ α) (key other : κ) :
    queue? (dropFirst m key) other =
      if key = other then (queue? m other).map List.tail else queue? m other := by
  induction m with
  | nil => simp [dropFirst, queue?]
  | cons entry rest ih =>
    rw [dropFirst]
    by_cases hk : entry.1 = key
    · rw [if_pos hk, queue?_cons, queue?_cons]
      subst hk
      split <;> simp_all
    · rw [if_neg hk, queue?_cons, queue?_cons, ih]
      by_cases h : key = other
      · subst h
        simp [hk]
      · simp [h]

theorem queue?_eq_none_iff (m : QueueMap κ α) (key : κ) : queue? m key = none ↔ key ∉ keys m := by
  induction m with
  | nil => simp [queue?, keys]
  | cons entry rest ih =>
    rw [queue?_cons]
    by_cases hk : entry.1 = key
    · simp [keys, hk]
    · simpa [keys, hk, Ne.symm hk] using ih

/-- Dropping the head of a queue takes out one item, and this is the head under the key. -/
theorem exists_items_dropFirst {m : QueueMap κ α} {key : κ} {a : α} {as : List α}
    (h : queue? m key = some (a :: as)) :
    ∃ pre post, items m = pre ++ (key, a) :: post ∧ items (dropFirst m key) = pre ++ post := by
  induction m with
  | nil => cases h
  | cons entry rest ih =>
    obtain ⟨k, q⟩ := entry
    rw [queue?_cons] at h
    by_cases hk : k = key
    · rw [if_pos hk] at h
      obtain rfl := Option.some.inj h
      rw [dropFirst, if_pos hk, items_cons, items_cons, ← hk]
      exact ⟨[], (as.map fun item => (k, item)) ++ items rest, rfl, rfl⟩
    · rw [if_neg hk] at h
      obtain ⟨pre, post, hitems, hdrop⟩ := ih h
      rw [dropFirst, if_neg hk, items_cons, items_cons, hitems, hdrop]
      exact ⟨_, post, (List.append_assoc _ _ _).symm, (List.append_assoc _ _ _).symm⟩

end QueueMap

namespace Queues

variable {κ α : Type} [DecidableEq κ]

@[simp] theorem keys_toMap (items : Queues κ α) : items.toMap.keys = items.keys := by
  rw [QueueMap.keys, toMap, List.map_map]
  exact List.map_id _

/-- At first the queue of a key holds what stands under it. -/
theorem queue?_toMap (items : Queues κ α) (key : κ) :
    items.toMap.queue? key = if items.has key then some (items.queue key) else none := by
  have hfind (ks : List κ) : QueueMap.queue? (ks.map fun k => (k, items.queue k)) key =
      if key ∈ ks then some (items.queue key) else none := by
    induction ks with
    | nil => rfl
    | cons k ks ih =>
      rw [List.map_cons, QueueMap.queue?_cons, ih]
      by_cases hk : k = key
      · subst hk
        simp
      · simp [hk, Ne.symm hk]
  have hmem : key ∈ items.keys ↔ items.has key = true := by
    rw [mem_keys_iff, has_eq_true_iff]
  simp only [toMap, hfind, hmem]

end Queues

end Understudy
