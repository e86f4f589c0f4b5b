import Understudy.Expectation.Sheet

/-!
# Understudy.Proofs.Expectation.Filing

What registering expectations does to a registry.

An expectation is filed as copies of one entry under one key, and a sheet as those of its items, in
order. Filing appends to the queues of these keys and does nothing else (`Appends`). Everything that
can refuse a sheet comes before the first of its expectations is registered (`loading_load`), so a
sheet that is refused leaves no trace. `queue_fileAll` has this for filings one after the other.
-/

namespace Understudy

/-! ### Appending -/

namespace Registry

/-- A registry is another one with entries put at the ends of the queues of their keys. -/
def Appends (r : Registry) (entries : Queues RequestKey Entry) (u : Registry) : Prop :=
  ∀ key, u.queue key = r.queue key ++ Queues.queue entries key

theorem appends_nil (r : Registry) : r.Appends [] r := fun _ => (List.append_nil _).symm

theorem Appends.trans {r u v : Registry} {as bs : Queues RequestKey Entry} (h : r.Appends as u)
    (h' : u.Appends bs v) : r.Appends (as ++ bs) v := by
  intro key
  rw [h' key, h key, Queues.queue_append, List.append_assoc]

theorem appends_register (r : Registry) (key : RequestKey) (entry : Entry) :
    r.Appends [(key, entry)] (r.register key entry) := by
  intro other
  rw [queue_register, Queues.queue_cons, Queues.queue_nil]
  by_cases h : key = other
  · rw [if_pos h, if_pos h]
  · rw [if_neg h, if_neg h, List.append_nil]

/-- Appending one after the other appends it all. -/
theorem appends_foldl {α : Type} {file : Registry → α → Registry}
    {entries : α → Queues RequestKey Entry} (h : ∀ r a, Appends r (entries a) (file r a))
    (as : List α) (r : Registry) : r.Appends (as.flatMap entries) (as.foldl file r) := by
  induction as generalizing r with
  | nil => exact appends_nil r
  | cons a as ih => exact (h r a).trans (ih _)

end Registry

/-! ### Expectations -/

namespace Expectation

/-- The entries of an expectation under its key. -/
def filed (e : Expectation) (quota : Quota) : Queues RequestKey Entry :=
  (e.entries quota).map fun entry => (e.key, entry)

theorem appends_register (e : Expectation) (quota : Quota) (r : Registry) :
    r.Appends (e.filed quota) (e.register quota r) := by
  rw [filed, List.map_eq_flatMap]
  exact Registry.appends_foldl (fun r entry => r.appends_register e.key entry) (e.entries quota) r

theorem repeats_entry (e : Expectation) (repeats : Bool) : (e.entry repeats).repeats = repeats := by
  rw [entry]
  cases e.reply <;> rfl

/-- Clauses about neither the method nor the path leave the key as it is. -/
theorem key_foldl_add {clauses : List Clause} (h : ∀ c ∈ clauses, ∀ e, (add e c).key = e.key)
    (e : Expectation) : (clauses.foldl add e).key = e.key := by
  induction clauses generalizing e with
  | nil => rfl
  | cons c clauses ih =>
    obtain ⟨hc, hrest⟩ := List.forall_mem_cons.mp h
    rw [List.foldl_cons, ih hrest, hc]

end Expectation

/-! ### Sheets -/

namespace Sheet

theorem key_add_replyClause (i : Item) (e : Expectation) : (e.add i.replyClause).key = e.key := by
  rw [Item.replyClause]
  split <;> rfl

/-- An item is filed under the method and the path that it names. -/
theorem key_expectation (i : Item) : i.expectation.key = ⟨i.method, i.path⟩ := by
  rw [Item.expectation, Expectation.ofClauses, Item.clauses, List.append_assoc, List.cons_append,
    List.cons_append, List.singleton_append, List.foldl_cons, List.foldl_cons]
  refine Expectation.key_foldl_add ?_ _
  intro c hc e
  rcases List.mem_cons.mp hc with rfl | hc
  · exact key_add_replyClause i e
  rcases List.mem_append.mp hc with hc | hc
  · obtain ⟨header, -, rfl⟩ := List.mem_map.mp hc
    rfl
  · obtain ⟨ms, -, rfl⟩ := Option.map_eq_some_iff.mp (Option.mem_toList.mp hc)
    rfl

/-- The entries of an item: one that repeats, or as many as it says that do not. -/
def Item.filed (i : Item) : Queues RequestKey Entry :=
  match i.times with
  | none => [(⟨i.method, i.path⟩, i.expectation.entry true)]
  | some n => List.replicate n (⟨i.method, i.path⟩, i.expectation.entry false)

theorem filed_expectation (i : Item) : i.expectation.filed i.quota = i.filed := by
  rw [Expectation.filed, key_expectation, Item.filed, Item.quota]
  cases i.times with
  | none => rfl
  | some n => exact List.map_replicate

theorem appends_register (s : Sheet) (r : Registry) :
    r.Appends (s.items.flatMap Item.filed) (s.register r) := by
  refine Registry.appends_foldl (fun r i => ?_) s.items r
  rw [← filed_expectation]
  exact i.expectation.appends_register i.quota r

/-! ### Refusals -/

theorem faultFrom?_eq_none_iff {items : List Item} {index : Nat} :
    faultFrom? index items = none ↔ ∀ i ∈ items, i.wrong? = none := by
  induction items generalizing index with
  | nil => simp [faultFrom?]
  | cons i items ih =>
    rw [faultFrom?, List.forall_mem_cons]
    cases hwrong : i.wrong? with
    | none => simpa using ih
    | some wrong => simp

/-- The fault of a sheet is that of the first item that is wrong, whatever is right before it. -/
theorem exists_of_faultFrom? {items : List Item} {index : Nat} {fault : Fault}
    (h : faultFrom? index items = some fault) :
    ∃ pre i post, items = pre ++ i :: post ∧ (∀ j ∈ pre, j.wrong? = none) ∧
      i.wrong? = some fault.wrong ∧ fault.index = index + pre.length := by
  induction items generalizing index with
  | nil => cases h
  | cons i items ih =>
    rw [faultFrom?] at h
    cases hwrong : i.wrong? with
    | some wrong =>
      rw [hwrong] at h
      cases h
      exact ⟨[], i, items, rfl, by simp, hwrong, rfl⟩
    | none =>
      rw [hwrong] at h
      obtain ⟨pre, j, post, rfl, hpre, hj, hindex⟩ := ih h
      refine ⟨i :: pre, j, post, rfl, List.forall_mem_cons.mpr ⟨hwrong, hpre⟩, hj, ?_⟩
      rw [hindex, List.length_cons]
      omega

/-- What comes of a text that is loaded into a registry. -/
inductive Loading (text : String) (r : Registry) :
    Except (Yaml.Refusal Fault) (Nat × Registry) → Prop
  /-- The text does not write a sheet. -/
  | malformed : Yaml.decode? decode text = none → Loading text r (.error .malformed)
  /-- An item is wrong, and it is the first one. -/
  | invalid {pre : List Item} {i : Item} {post : List Item} {wrong : Wrong} :
      Yaml.decode? decode text = some ⟨pre ++ i :: post⟩ → (∀ j ∈ pre, j.wrong? = none) →
      i.wrong? = some wrong → Loading text r (.error (.invalid ⟨pre.length, wrong⟩))
  /-- All items are registered, in order. -/
  | loaded {items : List Item} {u : Registry} :
      Yaml.decode? decode text = some ⟨items⟩ → (∀ i ∈ items, i.wrong? = none) →
      r.Appends (items.flatMap Item.filed) u → Loading text r (.ok (items.length, u))

/-- Loading a sheet registers all its items in order, or nothing. -/
theorem loading_load (text : String) (r : Registry) : Loading text r (load text r) := by
  rw [load, read]
  cases hdecode : Yaml.decode? decode text with
  | none => exact .malformed hdecode
  | some s =>
    cases hfault : s.fault? with
    | none =>
      simp only [hfault]
      exact .loaded hdecode (faultFrom?_eq_none_iff.mp hfault) (appends_register s r)
    | some fault =>
      obtain ⟨index, wrong⟩ := fault
      obtain ⟨pre, i, post, hitems, hpre, hi, hindex⟩ := exists_of_faultFrom? hfault
      rw [Nat.zero_add] at hindex
      cases hindex
      simp only [hfault]
      exact .invalid (hdecode.trans (congrArg (fun items => some (Sheet.mk items)) hitems)) hpre hi

end Sheet

/-! ### Filings -/

/-- Something to file with a registry: an expectation, or the text of a sheet. -/
inductive Filing where
  | expectation (clauses : List Expectation.Clause) (quota : Expectation.Quota)
  | sheet (text : String)

namespace Filing

/-- The expectations of a filing, and how often each is met; a sheet that is refused has none. -/
def expectations : Filing → List (Expectation × Expectation.Quota)
  | expectation clauses quota => [(.ofClauses clauses, quota)]
  | sheet text =>
    match Sheet.read text with
    | .ok s => s.items.map fun i => (i.expectation, i.quota)
    | .error _ => []

end Filing

namespace Registry

/-- The registry after a filing. -/
def file (r : Registry) : Filing → Registry
  | .expectation clauses quota => (Expectation.ofClauses clauses).register quota r
  | .sheet text =>
    match Sheet.load text r with
    | .ok (_, u) => u
    | .error _ => r

/-- Registers filings one after the other. -/
def fileAll (r : Registry) (filings : List Filing) : Registry := filings.foldl file r

/-- The expectations of filings under a key, in order. -/
def filedUnder (key : RequestKey) (filings : List Filing) :
    List (Expectation × Expectation.Quota) :=
  (filings.flatMap Filing.expectations).filter fun filed => filed.1.key = key

/-- Filing appends the entries of what is filed. -/
theorem appends_file (r : Registry) (f : Filing) :
    r.Appends (f.expectations.flatMap fun filed => filed.1.filed filed.2) (r.file f) := by
  cases f with
  | expectation clauses quota =>
    rw [Filing.expectations, List.flatMap_singleton]
    exact (Expectation.ofClauses clauses).appends_register quota r
  | sheet text =>
    rw [Filing.expectations, file, Sheet.load]
    cases Sheet.read text with
    | error e => exact appends_nil r
    | ok s =>
      simp only [List.flatMap_map, Sheet.filed_expectation]
      exact Sheet.appends_register s r

/-- The entries of expectations under a key are those of the expectations under this key. -/
theorem queue_filed (es : List (Expectation × Expectation.Quota)) (key : RequestKey) :
    Queues.queue (es.flatMap fun filed => filed.1.filed filed.2) key =
      (es.filter fun filed => filed.1.key = key).flatMap fun filed => filed.1.entries filed.2 := by
  induction es with
  | nil => rfl
  | cons filed es ih =>
    obtain ⟨e, quota⟩ := filed
    rw [List.flatMap_cons, Queues.queue_append, ih, Expectation.filed, Queues.queue_map_key,
      List.filter_cons]
    by_cases h : e.key = key
    · simp only [h, decide_true, if_true, List.flatMap_cons]
    · simp only [h, decide_false, if_false, List.nil_append, Bool.false_eq_true]

theorem queue_fileAll (r : Registry) (filings : List Filing) (key : RequestKey) :
    (r.fileAll filings).queue key =
      r.queue key ++ (filedUnder key filings).flatMap fun filed => filed.1.entries filed.2 := by
  have hall := appends_foldl appends_file filings r key
  rwa [← List.flatMap_assoc, queue_filed] at hall

end Registry

end Understudy
