import Understudy.Proofs.Json.Concatenation
import Understudy.Proofs.Json.Nesting

/-!
# Understudy.Proofs.Json.Grammar

The reader reads what is spelled, and nothing else.

`Spells` says without the reader what a text spells: the tokens of the text are those that the
document is written with. The reader adds only its limit to that: it reads a document from a text
exactly if the text spells it and it is not nested too deep (`read?_eq_some_iff`).

`Nesting` has the one direction. For the other the machine never forgets a token: those it has taken
can be told from its stack and its mode (`Machine.taken`), each step adds the one that it takes
(`hasTaken_step`), and at the end they are the tokens of the document.
-/

namespace Understudy

namespace Json

/-- Whether a text spells a document: its tokens are those of the document. -/
def Spells (text : String) (j : Json) : Prop := Token.ofText? text.toList = some j.tokens

/-- Blanks around a text make no difference. -/
theorem Spells.padded {text before after : String} {j : Json} (h : Spells text j)
    (hbefore : ∀ c ∈ before.toList, Token.isBlank c = true)
    (hafter : ∀ c ∈ after.toList, Token.isBlank c = true) :
    Spells (before ++ text ++ after) j := by
  rw [Spells, String.toList_append, String.toList_append]
  exact Token.ofText?_padded hbefore hafter h

/-- A document without floats is spelled by its text. -/
theorem spells_text {j : Json} (h : j.isIntegral = true) : Spells j.text j := by
  rw [Spells, text, String.toList_ofList]
  exact ofText?_chars h

/-! ### Items and fields in front of others -/

/-- The tokens of an item that another one follows. -/
def itemTokensBefore (item : Json) : List Token := item.tokens ++ [.comma]

/-- The tokens of a field that another one follows. -/
def fieldTokensBefore (field : String × Json) : List Token :=
  .string field.1 :: .colon :: (field.2.tokens ++ [.comma])

theorem itemTokens_append_singleton (items : List Json) (last : Json) :
    itemTokens (items ++ [last]) = items.flatMap itemTokensBefore ++ last.tokens := by
  induction items with
  | nil => rfl
  | cons item items ih =>
    have hitem : itemTokens (item :: items ++ [last]) =
        itemTokensBefore item ++ itemTokens (items ++ [last]) := by
      cases items <;> simp [itemTokens, itemTokensBefore]
    rw [hitem, ih, List.flatMap_cons, List.append_assoc]

/-- The tokens of fields, with those before the last one set apart. -/
theorem fieldTokens_append_singleton (fields : List (String × Json)) (name : String)
    (last : Json) :
    fieldTokens (fields ++ [(name, last)]) =
      fields.flatMap fieldTokensBefore ++ .string name :: .colon :: last.tokens := by
  induction fields with
  | nil => rfl
  | cons field fields ih =>
    have hfield : fieldTokens (field :: fields ++ [(name, last)]) =
        fieldTokensBefore field ++ fieldTokens (fields ++ [(name, last)]) := by
      cases fields <;> simp [fieldTokens, fieldTokensBefore]
    rw [hfield, ih, List.flatMap_cons, List.append_assoc]

namespace Reader

/-! ### What the machine has taken -/

/-- The tokens that were taken of an array or object before its value that is being read. -/
def Frame.taken : Frame → List Token
  | .array items => .openArray :: items.reverse.flatMap itemTokensBefore
  | .field fields name =>
    .openObject :: (fields.reverse.flatMap fieldTokensBefore ++ [.string name, .colon])

/-- The tokens that were taken of the array or object that is being read. -/
def Mode.taken : Mode → List Token
  | .value => []
  | .arrayOpen => [.openArray]
  | .arrayNext items => .openArray :: itemTokens items.reverse
  | .objectOpen => [.openObject]
  | .name fields => .openObject :: fields.reverse.flatMap fieldTokensBefore
  | .colon fields last =>
    .openObject :: (fields.reverse.flatMap fieldTokensBefore ++ [.string last])
  | .objectNext fields => .openObject :: fieldTokens fields.reverse
  | .done v => v.tokens

/-- The tokens that were taken of the arrays and objects of a stack. -/
def takenOf (stack : List Frame) : List Token := stack.reverse.flatMap Frame.taken

/-- The tokens that a machine has taken since it began. -/
def Machine.taken (m : Machine) : List Token := takenOf m.stack ++ m.mode.taken

/-- Whether there is an item before a comma or a closing bracket that is not the first token, and
nothing around the document. -/
def Machine.Proper : Machine → Prop
  | ⟨_, .arrayNext items⟩ => items ≠ []
  | ⟨_, .objectNext fields⟩ => fields ≠ []
  | ⟨stack, .done _⟩ => stack = []
  | _ => True

theorem takenOf_cons (frame : Frame) (stack : List Frame) :
    takenOf (frame :: stack) = takenOf stack ++ frame.taken := by
  simp [takenOf]

/-- A machine that has taken some tokens, and is proper. -/
def Machine.HasTaken (m : Machine) (ts : List Token) : Prop := m.taken = ts ∧ m.Proper

/-- A machine that is given a value has taken its tokens as well. -/
theorem hasTaken_give (stack : List Frame) (v : Json) :
    (give stack v).HasTaken (takenOf stack ++ v.tokens) := by
  cases stack with
  | nil => exact ⟨rfl, rfl⟩
  | cons frame stack =>
    rw [takenOf_cons, List.append_assoc]
    cases frame with
    | array items =>
      refine ⟨congrArg (takenOf stack ++ ·) ?_, List.cons_ne_nil _ _⟩
      show .openArray :: itemTokens (v :: items).reverse = _
      rw [List.reverse_cons, itemTokens_append_singleton]
      rfl
    | field fields name =>
      refine ⟨congrArg (takenOf stack ++ ·) ?_, List.cons_ne_nil _ _⟩
      show .openObject :: fieldTokens ((name, v) :: fields).reverse = _
      rw [List.reverse_cons, fieldTokens_append_singleton]
      simp [Frame.taken]

/-- A machine that begins a value with a token has taken that token. -/
theorem hasTaken_beginValue {stack : List Frame} {t : Token} {m : Machine}
    (h : beginValue stack t = some m) : m.HasTaken (takenOf stack ++ [t]) := by
  cases t with
  | openArray =>
    rw [beginValue] at h
    split at h
    · cases h
      exact ⟨rfl, trivial⟩
    · cases h
  | openObject =>
    rw [beginValue] at h
    split at h
    · cases h
      exact ⟨rfl, trivial⟩
    · cases h
  | null | bool | number | string =>
    cases h
    exact hasTaken_give stack _
  | closeArray | closeObject | comma | colon => cases h

/-- The comma after an item makes it one that another one follows. -/
theorem itemTokens_comma {items : List Json} (h : items ≠ []) :
    itemTokens items.reverse ++ [.comma] = items.reverse.flatMap itemTokensBefore := by
  cases items with
  | nil => exact absurd rfl h
  | cons item items =>
    rw [List.reverse_cons, itemTokens_append_singleton, List.flatMap_append, List.append_assoc]
    simp [itemTokensBefore]

theorem fieldTokens_comma {fields : List (String × Json)} (h : fields ≠ []) :
    fieldTokens fields.reverse ++ [.comma] = fields.reverse.flatMap fieldTokensBefore := by
  cases fields with
  | nil => exact absurd rfl h
  | cons field fields =>
    rw [List.reverse_cons, fieldTokens_append_singleton, List.flatMap_append, List.append_assoc]
    simp [fieldTokensBefore]

theorem step_arrayOpen {stack : List Frame} {t : Token} (h : t ≠ .closeArray) :
    step ⟨stack, .arrayOpen⟩ t = beginValue (.array [] :: stack) t := by
  cases t with
  | closeArray => exact absurd rfl h
  | openArray | openObject | closeObject | comma | colon | null | bool | number | string => rfl

/-- Each step adds the token that it takes to those before. -/
theorem hasTaken_step {m m' : Machine} {t : Token} (h : step m t = some m') (hm : m.Proper) :
    m'.HasTaken (m.taken ++ [t]) := by
  obtain ⟨stack, mode⟩ := m
  have hgive {before : List Token} {v : Json} (hv : v.tokens = before ++ [t]) :
      (give stack v).HasTaken (takenOf stack ++ before ++ [t]) := by
    rw [List.append_assoc, ← hv]
    exact hasTaken_give stack v
  -- one case for each mode; a token that does not belong there ends the machine
  cases mode with
  | value =>
    rw [Machine.taken, Mode.taken, List.append_nil]
    exact hasTaken_beginValue h
  | arrayOpen =>
    cases t with
    | closeArray =>
      cases h
      exact hgive rfl
    | openArray | openObject | closeObject | comma | colon | null | bool | number | string =>
      rw [step_arrayOpen (by nofun)] at h
      have hfirst := hasTaken_beginValue h
      rwa [takenOf_cons] at hfirst
  | arrayNext items =>
    cases t with
    | comma =>
      cases h
      refine ⟨?_, trivial⟩
      rw [Machine.taken, takenOf_cons, Frame.taken, ← itemTokens_comma hm]
      simp [Machine.taken, Mode.taken]
    | closeArray =>
      cases h
      exact hgive rfl
    | openArray | openObject | closeObject | colon | null | bool | number | string => cases h
  | objectOpen =>
    cases t with
    | closeObject =>
      cases h
      exact hgive rfl
    | string name =>
      cases h
      exact ⟨by simp [Machine.taken, Mode.taken], trivial⟩
    | openArray | closeArray | openObject | comma | colon | null | bool | number => cases h
  | name fields =>
    cases t with
    | string last =>
      cases h
      exact ⟨by simp [Machine.taken, Mode.taken], trivial⟩
    | openArray | closeArray | openObject | closeObject | comma | colon | null | bool | number =>
      cases h
  | colon fields last =>
    cases t with
    | colon =>
      cases h
      exact ⟨by simp [Machine.taken, Mode.taken, takenOf_cons, Frame.taken], trivial⟩
    | openArray | closeArray | openObject | closeObject | comma | null | bool | number | string =>
      cases h
  | objectNext fields =>
    cases t with
    | comma =>
      cases h
      refine ⟨?_, trivial⟩
      rw [Machine.taken, Mode.taken, ← fieldTokens_comma hm]
      simp [Machine.taken, Mode.taken]
    | closeObject =>
      cases h
      exact hgive rfl
    | openArray | closeArray | openObject | colon | null | bool | number | string => cases h
  | done v => cases h

/-- A run adds all the tokens that it takes. -/
theorem hasTaken_run {m m' : Machine} {ts : List Token} (h : run m ts = some m')
    (hm : m.Proper) : m'.HasTaken (m.taken ++ ts) := by
  induction ts generalizing m with
  | nil =>
    cases h
    exact ⟨(List.append_nil _).symm, hm⟩
  | cons t ts ih =>
    obtain ⟨next, hstep, hrest⟩ := Option.bind_eq_some_iff.mp h
    obtain ⟨htaken, hnext⟩ := hasTaken_step hstep hm
    have hrun := ih hrest hnext
    rwa [htaken, List.append_assoc] at hrun

end Reader

/-- What is read from tokens is what they write. -/
theorem eq_tokens_of_ofTokens? {ts : List Token} {j : Json} (h : ofTokens? ts = some j) :
    ts = j.tokens := by
  rw [ofTokens?] at h
  split at h
  · rename_i stack v hrun
    cases h
    obtain ⟨htaken, hproper⟩ := Reader.hasTaken_run hrun trivial
    have hstack : stack = [] := hproper
    subst hstack
    exact htaken.symm
  · cases h

/-- Tokens are read as a document exactly if they are its tokens, and it is not too deep. -/
theorem ofTokens?_eq_some_iff {ts : List Token} {j : Json} :
    ofTokens? ts = some j ↔ ts = j.tokens ∧ j.depth ≤ Reader.maxDepth := by
  constructor
  · intro h
    have hts := eq_tokens_of_ofTokens? h
    subst hts
    rw [ofTokens?_tokens] at h
    exact ⟨rfl, (Option.ite_none_right_eq_some.mp h).1⟩
  · rintro ⟨rfl, hdepth⟩
    rw [ofTokens?_tokens, if_pos hdepth]

/-- **Reading.** A document is read exactly from the texts that spell it, up to a depth. -/
theorem read?_eq_some_iff {text : String} {j : Json} :
    read? text = some j ↔ Spells text j ∧ j.depth ≤ Reader.maxDepth := by
  rw [read?, Option.bind_eq_some_iff]
  constructor
  · rintro ⟨ts, htext, hts⟩
    obtain ⟨rfl, hdepth⟩ := ofTokens?_eq_some_iff.mp hts
    exact ⟨htext, hdepth⟩
  · rintro ⟨htext, hdepth⟩
    exact ⟨j.tokens, htext, ofTokens?_eq_some_iff.mpr ⟨rfl, hdepth⟩⟩

end Json

end Understudy
