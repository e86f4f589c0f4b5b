import Understudy.Proofs.AttributeSet.WrittenQuery

/-!
# Understudy.Proofs.AttributeSet.RoundTrip

Every query is read as the conditions that it writes.

`WrittenAs` says how one condition is written, and `AllWrittenAs` how several are, with signs `&`
between them. Fields have no signs in them, and signs that stand together have nothing between them
that would be read (`conditions_signs`), so a query is read condition by condition
(`conditions_eq`). They are taken over the path in this order. The last one on a name stays, which
makes the order of conditions on different names indifferent (`ofList_congr`).
-/

namespace Understudy

namespace Text

variable {α : Type} [DecidableEq α]

/-- What is dropped at the end are copies. -/
theorem exists_eq_dropTrailing_append (a : α) (as : List α) :
    ∃ n, as = dropTrailing a as ++ List.replicate n a := by
  induction as with
  | nil => exact ⟨0, rfl⟩
  | cons b bs ih =>
    obtain ⟨n, hn⟩ := ih
    rw [dropTrailing]
    cases hrest : dropTrailing a bs with
    | nil =>
      rw [hrest, List.nil_append] at hn
      by_cases hb : b = a
      · exact ⟨n + 1, by simp [hb, hn, List.replicate_succ]⟩
      · exact ⟨n, by simp [hb, hn]⟩
    | cons c cs =>
      rw [hrest] at hn
      exact ⟨n, congrArg (b :: ·) hn⟩

/-- No copy is left at the end. -/
theorem getLast?_dropTrailing_ne (a : α) (as : List α) : (dropTrailing a as).getLast? ≠ some a := by
  induction as with
  | nil => simp [dropTrailing]
  | cons b bs ih =>
    rw [dropTrailing]
    cases hrest : dropTrailing a bs with
    | nil => by_cases hb : b = a <;> simp [hb]
    | cons c cs =>
      rw [hrest] at ih
      simpa using ih

end Text

namespace AttributeSet

/-! ### Conditions -/

/-- A condition of a query. -/
inductive Condition where
  /-- The name has to be there with the value, or with any value if that is a star. -/
  | equals (name value : String)
  /-- The name must not be there with the value, or with any value if that is a star. -/
  | differs (name value : String)
  /-- The name has to be there. -/
  | bare (name : String)
deriving Repr, DecidableEq

namespace Condition

/-- The attribute that a condition wants or does not want. -/
def meaning : Condition → Attribute
  | equals name value => ⟨name, .ofText value, .present⟩
  | differs name value => ⟨name, .ofText value, .absent⟩
  | bare name => ⟨name, .wildcard, .present⟩

/-- Whether a text writes a condition: `k=v`, `k!=v`, or `k` that is not empty, with fields that
write the name and the value. -/
inductive WrittenAs : Condition → String → Prop where
  | equals {k v name value : String} : Percent.Writes k.toList (Utf8.encode name) →
      Percent.Writes v.toList (Utf8.encode value) → WrittenAs (.equals name value) (equation (k, v))
  | differs {k v name value : String} : Percent.Writes k.toList (Utf8.encode name) →
      Percent.Writes v.toList (Utf8.encode value) →
      WrittenAs (.differs name value) (exclusion (k, v))
  | bare {k name : String} : name ≠ "" → Percent.Writes k.toList (Utf8.encode name) →
      WrittenAs (.bare name) k

/-- What writes a condition is a query for it alone. -/
theorem WrittenAs.conditions_eq {c : Condition} {part : String} (h : c.WrittenAs part) :
    conditions part.toList = [c.meaning] := by
  cases h with
  | equals hname hvalue =>
    have hname := spells_of_writes hname
    have hvalue := spells_of_writes hvalue
    rw [conditions_of_unbroken (equation_ne_nil _) (equation_unbroken hname hvalue),
      condition_equation hname hvalue]
    rfl
  | differs hname hvalue =>
    have hname := spells_of_writes hname
    have hvalue := spells_of_writes hvalue
    rw [conditions_of_unbroken (by simp [toList_exclusion]) (exclusion_unbroken hname hvalue),
      condition_exclusion hname hvalue]
    rfl
  | bare hne hname =>
    have hname := spells_of_writes hname
    rw [conditions_of_unbroken (by simpa using hname.ne_empty hne) hname.not_mem.1,
      condition_bare hname]
    rfl

end Condition

/-! ### Queries -/

/-- Signs between conditions. -/
def signs (n : Nat) : String := String.ofList (List.replicate n '&')

/-- Whether a query writes some conditions, in this order and with one sign or more between two. -/
inductive AllWrittenAs : List Condition → String → Prop where
  | nil : AllWrittenAs [] ""
  | single {c : Condition} {part : String} : c.WrittenAs part → AllWrittenAs [c] part
  | cons {c d : Condition} {cs : List Condition} {part query : String} (more : Nat) :
      c.WrittenAs part → AllWrittenAs (d :: cs) query →
      AllWrittenAs (c :: d :: cs) (part ++ signs (more + 1) ++ query)

/-- Signs in front of a query have nothing between them. -/
theorem conditions_signs (n : Nat) (query : List Char) :
    conditions (List.replicate n '&' ++ query) = conditions query := by
  induction n with
  | zero => rfl
  | succ n ih =>
    have hfirst := conditions_append [] (List.replicate n '&' ++ query)
    rw [List.replicate_succ, List.cons_append]
    rwa [conditions_nil, List.nil_append, List.nil_append, ih] at hfirst

/-- A query is read as the conditions that it writes. -/
theorem AllWrittenAs.conditions_eq {cs : List Condition} {query : String}
    (h : AllWrittenAs cs query) : conditions query.toList = cs.map Condition.meaning := by
  induction h with
  | nil => rfl
  | single hpart => exact hpart.conditions_eq
  | @cons c d cs part query more hpart _ ih =>
    have hquery : (part ++ signs (more + 1) ++ query).toList =
        part.toList ++ '&' :: (List.replicate more '&' ++ query.toList) := by
      simp [signs, List.replicate_succ]
    rw [hquery, conditions_append, hpart.conditions_eq, conditions_signs, ih]
    rfl

/-! ### Paths -/

/-- The order of attributes with different names makes no difference to the set of them. -/
theorem ofList_congr {as bs : List Attribute}
    (h : ∀ name, as.filter (·.name = name) = bs.filter (·.name = name)) :
    ofList as = ofList bs := by
  refine ext_get? fun name => ?_
  rw [get?_ofList, get?_ofList, last?, last?, ← List.getLast?_filter, ← List.getLast?_filter, h]

theorem baseName_eq (cs : List Char) : baseName cs =
    if Text.dropTrailing '/' cs = [] then "/" else String.ofList (Text.dropTrailing '/' cs) := by
  rw [baseName]
  cases Text.dropTrailing '/' cs <;> rfl

/-- **Queries are read as they are written.** Let a query write conditions of the forms `k=v`,
`k!=v` and `k`, in this order, each name and value encoded in some way and with any number of signs
between two conditions, and let it stand behind a base path. The path is read as

* its base without the slashes at its end, or `/` if nothing is left of it, as the literal value of
  `path`, and over that the conditions in their order: so under each name is what the last one of
  them wants, also under `path`;
* the same set as any other query behind this base that writes the same conditions for each name in
  the same order. -/
theorem paths_read_back {base query : String} {asked : List Condition} (hbase : '?' ∉ base.toList)
    (hquery : AllWrittenAs asked query) :
    let path := base ++ "?" ++ query
    let wanted := asked.map Condition.meaning
    (∃ stem slashes, base.toList = stem ++ List.replicate slashes '/' ∧ stem.getLast? ≠ some '/' ∧
      let home : Attribute :=
        ⟨"path", .literal (if stem = [] then "/" else String.ofList stem), .present⟩
      ofPath path = ofList (home :: wanted) ∧
      ∀ name, (ofPath path).get? name = last? (home :: wanted) name) ∧
    ∀ others query', AllWrittenAs others query' →
      (∀ name, (others.map Condition.meaning).filter (·.name = name) =
        wanted.filter (·.name = name)) →
      ofPath (base ++ "?" ++ query') = ofPath path := by
  intro path wanted
  have hpath : ofPath path = ofList (⟨pathName, .literal (baseName base.toList), .present⟩ ::
      wanted) := by
    rw [ofPath_append hbase, hquery.conditions_eq]
  refine ⟨?_, fun others query' hothers hsame => ?_⟩
  · obtain ⟨slashes, hslashes⟩ := Text.exists_eq_dropTrailing_append '/' base.toList
    refine ⟨_, slashes, hslashes, Text.getLast?_dropTrailing_ne '/' base.toList, ?_⟩
    rw [hpath, baseName_eq]
    exact ⟨rfl, get?_ofList _⟩
  · rw [hpath, ofPath_append hbase, hothers.conditions_eq]
    refine ofList_congr fun name => ?_
    rw [List.filter_cons, List.filter_cons, hsame]

/-- A name with a sign in it is asked for twice, with a space and with two octets for one letter,
and a condition on `path` takes the place of the base. -/
theorem paths_read_back_overriding :
    let path := "/items//?a%26=1+1&&path!=%2a&&&kind&a%26=%c3%bc"
    (ofPath path).get? "a&" = some (.literal "ü", .present) ∧
    (ofPath path).get? "path" = some (.wildcard, .absent) ∧
    (ofPath path).get? "kind" = some (.wildcard, .present) ∧
    ofPath "/items//?path!=%2a&a%26=1%201&kind&a%26=%c3%bc" = ofPath path := by
  intro path
  let field := fun text : String => String.ofList (Percent.encode text.toList)
  have hfield : ∀ text, Percent.Writes (field text).toList (Utf8.encode text) := by
    intro text
    rw [String.toList_ofList]
    exact Percent.writes_encode text.toList
  have hspace : Percent.Writes "1+1".toList (Utf8.encode "1 1") :=
    .plain (b := 0x31) rfl (.space (.plain (b := 0x31) rfl .nil))
  -- the two queries end alike
  let rest := field "kind" ++ signs 1 ++ equation (field "a&", field "ü")
  have hrest : AllWrittenAs [.bare "kind", .equals "a&" "ü"] rest :=
    .cons 0 (.bare (by decide) (hfield _)) (.single (.equals (hfield _) (hfield _)))
  have hquery :
      AllWrittenAs [.equals "a&" "1 1", .differs "path" "*", .bare "kind", .equals "a&" "ü"]
      (equation (field "a&", "1+1") ++ signs 2 ++
        (exclusion (field "path", field "*") ++ signs 3 ++ rest)) :=
    .cons 1 (.equals (hfield _) hspace) (.cons 2 (.differs (hfield _) (hfield _)) hrest)
  have hothers :
      AllWrittenAs [.differs "path" "*", .equals "a&" "1 1", .bare "kind", .equals "a&" "ü"]
      (exclusion (field "path", field "*") ++ signs 1 ++
        (equation (field "a&", field "1 1") ++ signs 1 ++ rest)) :=
    .cons 0 (.differs (hfield _) (hfield _)) (.cons 0 (.equals (hfield _) (hfield _)) hrest)
  obtain ⟨⟨stem, slashes, -, -, -, hget⟩, hsame⟩ :=
    paths_read_back (by decide : '?' ∉ "/items//".toList) hquery
  have hpath : path = "/items//" ++ "?" ++ (equation (field "a&", "1+1") ++ signs 2 ++
      (exclusion (field "path", field "*") ++ signs 3 ++ rest)) := by decide +kernel
  rw [hpath]
  refine ⟨?_, ?_, ?_, ?_⟩
  · rw [hget]
    rfl
  · rw [hget]
    rfl
  · rw [hget]
    rfl
  · refine Eq.trans ?_ (hsame _ _ hothers fun name => ?_)
    · exact congrArg ofPath (by decide +kernel)
    · -- the conditions that have changed places are on different names
      by_cases hname : "a&" = name
      · subst hname
        rfl
      · simp [Condition.meaning, List.filter_cons, hname]

end AttributeSet

end Understudy
