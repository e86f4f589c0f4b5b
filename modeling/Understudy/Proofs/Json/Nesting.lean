import Understudy.Json.Parser
import Understudy.Json.Printer

/-!
# Understudy.Proofs.Json.Nesting

Written documents are read back exactly if they nest no deeper than the reader goes.

The writer nests as deep as the document does, the reader at most `maxDepth` deep. The induction is
over the document and goes through both outcomes at once (`Reader.run_tokens`): in front of a value
the stack holds the arrays and objects around it, and the tokens of the value lead to where it is
given to them, unless some part of it has too many around it; then the machine stops.
-/

namespace Understudy

namespace Json

theorem depthItems_le_iff {items : List Json} {n : Nat} :
    depthItems items ≤ n ↔ ∀ item ∈ items, item.depth ≤ n := by
  induction items with
  | nil => simp [depthItems]
  | cons item items ih => rw [depthItems, Nat.max_le, ih, List.forall_mem_cons]

namespace Reader

theorem run_cons {m m' : Machine} {t : Token} (h : step m t = some m') (ts : List Token) :
    run m (t :: ts) = run m' ts := by
  rw [run, h, Option.bind_some]

/-- After an opening bracket the first item is read like the next one after a comma. -/
theorem run_arrayOpen (stack : List Frame) (item : Json) (items : List Json) (ts : List Token) :
    run ⟨stack, .arrayOpen⟩ (itemTokens (item :: items) ++ ts) =
      run ⟨.array [] :: stack, .value⟩ (itemTokens (item :: items) ++ ts) := by
  cases items <;> cases item <;> rfl

/-- After an opening brace the first field is read like the next one after a comma. -/
theorem run_objectOpen (stack : List Frame) (field : String × Json) (fields : List (String × Json))
    (ts : List Token) :
    run ⟨stack, .objectOpen⟩ (fieldTokens (field :: fields) ++ ts) =
      run ⟨stack, .name []⟩ (fieldTokens (field :: fields) ++ ts) := by
  cases fields <;> rfl

mutual

/-- The tokens of a value lead to where it is given to the arrays and objects around it, unless they
and those inside it are too many. -/
theorem run_tokens : (j : Json) → (stack : List Frame) → (ts : List Token) →
    stack.length ≤ maxDepth →
    run ⟨stack, .value⟩ (j.tokens ++ ts) =
      if stack.length + j.depth ≤ maxDepth then run (give stack j) ts else none
  | null, _, _, h => (if_pos h).symm
  | bool _, _, _, h => (if_pos h).symm
  | number _, _, _, h => (if_pos h).symm
  | string _, _, _, h => (if_pos h).symm
  | array items, stack, ts, _ => by
    -- beyond the limit the machine stops at the bracket, whatever is inside
    by_cases hroom : stack.length < maxDepth
    · have hopen : step ⟨stack, .value⟩ .openArray = some ⟨stack, .arrayOpen⟩ := if_pos hroom
      rw [tokens, List.cons_append, run_cons hopen, List.append_assoc]
      cases items with
      | nil => exact (if_pos hroom).symm
      | cons item items =>
        have hitems := run_itemTokens (item :: items) (List.cons_ne_nil _ _) [] stack ts hroom
        rw [depth, ← Nat.add_assoc]
        exact (run_arrayOpen stack item items _).trans hitems
    · have hopen : step ⟨stack, .value⟩ .openArray = none := if_neg hroom
      have hdeep : ¬ stack.length + (1 + depthItems items) ≤ maxDepth := by omega
      rw [tokens, List.cons_append, run, hopen, depth, if_neg hdeep]
      rfl
  | object fields, stack, ts, _ => by
    by_cases hroom : stack.length < maxDepth
    · have hopen : step ⟨stack, .value⟩ .openObject = some ⟨stack, .objectOpen⟩ := if_pos hroom
      rw [tokens, List.cons_append, run_cons hopen, List.append_assoc]
      cases fields with
      | nil => exact (if_pos hroom).symm
      | cons field fields =>
        have hfields := run_fieldTokens (field :: fields) (List.cons_ne_nil _ _) [] stack ts hroom
        rw [depth, ← Nat.add_assoc]
        exact (run_objectOpen stack field fields _).trans hfields
    · have hopen : step ⟨stack, .value⟩ .openObject = none := if_neg hroom
      have hdeep : ¬ stack.length + (1 + depthFields fields) ≤ maxDepth := by omega
      rw [tokens, List.cons_append, run, hopen, depth, if_neg hdeep]
      rfl

/-- A machine that reads items goes on with the array, unless one of them is too deep. -/
theorem run_itemTokens : (items : List Json) → items ≠ [] → (done : List Json) →
    (stack : List Frame) → (ts : List Token) → stack.length < maxDepth →
    run ⟨.array done :: stack, .value⟩ (itemTokens items ++ .closeArray :: ts) =
      if stack.length + 1 + depthItems items ≤ maxDepth then
        run (give stack (.array (done.reverse ++ items))) ts
      else none
  | [], hne, _, _, _, _ => absurd rfl hne
  | [item], _, done, stack, ts, h => by
    have hitem := run_tokens item (.array done :: stack) (.closeArray :: ts) h
    rw [itemTokens, hitem, depthItems, depthItems, Nat.max_zero, ← List.reverse_cons]
    rfl
  | item :: next :: items, _, done, stack, ts, h => by
    have hitem := run_tokens item (.array done :: stack)
      (.comma :: (itemTokens (next :: items) ++ .closeArray :: ts)) h
    have hnext := run_itemTokens (next :: items) (List.cons_ne_nil _ _) (item :: done) stack ts h
    rw [List.reverse_cons, List.append_assoc, List.singleton_append] at hnext
    rw [itemTokens, List.append_assoc, List.cons_append, hitem, depthItems, List.length_cons]
    -- if this item fits, the others decide: they are read with it among the items before
    by_cases hfits : stack.length + 1 + item.depth ≤ maxDepth
    · have hmax : stack.length + 1 + max item.depth (depthItems (next :: items)) ≤ maxDepth ↔
          stack.length + 1 + depthItems (next :: items) ≤ maxDepth := by omega
      rw [if_pos hfits, give, run_cons rfl, hnext]
      simp only [hmax]
    · rw [if_neg hfits, if_neg (by omega)]

/-- A machine that reads fields goes on with the object, unless a value is too deep. -/
theorem run_fieldTokens : (fields : List (String × Json)) → fields ≠ [] →
    (done : List (String × Json)) → (stack : List Frame) → (ts : List Token) →
    stack.length < maxDepth →
    run ⟨stack, .name done⟩ (fieldTokens fields ++ .closeObject :: ts) =
      if stack.length + 1 + depthFields fields ≤ maxDepth then
        run (give stack (.object (done.reverse ++ fields))) ts
      else none
  | [], hne, _, _, _, _ => absurd rfl hne
  | [(name, value)], _, done, stack, ts, h => by
    have hvalue := run_tokens value (.field done name :: stack) (.closeObject :: ts) h
    rw [depthFields, depthFields, Nat.max_zero, ← List.reverse_cons]
    exact hvalue
  | (name, value) :: next :: fields, _, done, stack, ts, h => by
    have hvalue := run_tokens value (.field done name :: stack)
      (.comma :: (fieldTokens (next :: fields) ++ .closeObject :: ts)) h
    have hnext := run_fieldTokens (next :: fields) (List.cons_ne_nil _ _) ((name, value) :: done)
      stack ts h
    rw [List.reverse_cons, List.append_assoc, List.singleton_append] at hnext
    have hname : run ⟨stack, .name done⟩
        (fieldTokens ((name, value) :: next :: fields) ++ .closeObject :: ts) =
      run ⟨.field done name :: stack, .value⟩
        (value.tokens ++ .comma :: (fieldTokens (next :: fields) ++ .closeObject :: ts)) := by
      simp only [fieldTokens, List.cons_append, List.append_assoc]
      rfl
    rw [hname, hvalue, depthFields, List.length_cons]
    -- if this value fits, the others decide, as with items
    by_cases hfits : stack.length + 1 + value.depth ≤ maxDepth
    · have hmax : stack.length + 1 + max value.depth (depthFields (next :: fields)) ≤ maxDepth ↔
          stack.length + 1 + depthFields (next :: fields) ≤ maxDepth := by omega
      rw [if_pos hfits, give, run_cons rfl, hnext]
      simp only [hmax]
    · rw [if_neg hfits, if_neg (by omega)]

end

end Reader

/-- The tokens of a document are read back exactly if the document is not nested too deep. -/
theorem ofTokens?_tokens (j : Json) :
    ofTokens? j.tokens = if j.depth ≤ Reader.maxDepth then some j else none := by
  have hrun := Reader.run_tokens j [] [] (Nat.zero_le _)
  rw [List.append_nil, List.length_nil, Nat.zero_add] at hrun
  rw [ofTokens?, hrun]
  by_cases hdepth : j.depth ≤ Reader.maxDepth
  · rw [if_pos hdepth, if_pos hdepth]
    rfl
  · rw [if_neg hdepth, if_neg hdepth]

end Json

end Understudy
