import Understudy.Proofs.Json.Spelling

/-!
# Understudy.Proofs.Json.Concatenation

The tokens of texts that are put together.

The tokens of a text are found in front of other text as well, and nothing of that is taken for a
part of them. It is so for each reader of a token (`Local`), and the one condition comes from
numbers, which nothing ends but what follows: that must not begin with a digit, a point or an `e`
(`Ends`). Blanks between and around tokens add none. So the tokens of two texts together are those
of the one and then those of the other (`ofText?_append`).
-/

namespace Understudy

namespace Json

namespace Token

variable {α β : Type}

/-! ### Local readers -/

/-- Whether a reader takes the same from a text whatever follows it, unless a number could go on
with that. -/
def Local (read? : List Char → Option (α × List Char)) : Prop :=
  ∀ ⦃cs rest : List Char⦄ ⦃x : α⦄, read? cs = some (x, rest) →
    ∀ ⦃tail : List Char⦄, Ends tail → read? (cs ++ tail) = some (x, rest ++ tail)

theorem local_none : Local fun _ => (none : Option (α × List Char)) := by
  intro cs rest x h
  cases h

/-- To take nothing more is local. -/
theorem local_some (x : α) : Local fun cs => some (x, cs) := by
  intro cs rest y h tail _
  cases h
  rfl

theorem Local.map {read? : List Char → Option (α × List Char)} (h : Local read?) (f : α → β) :
    Local fun cs => (read? cs).map fun found => (f found.1, found.2) := by
  intro cs rest y hy tail htail
  obtain ⟨found, hfound, heq⟩ := Option.map_eq_some_iff.mp hy
  cases heq
  dsimp only
  rw [h hfound htail]
  rfl

theorem Local.bind {read? : List Char → Option (α × List Char)}
    {next? : α × List Char → Option (β × List Char)} (h : Local read?)
    (hnext : ∀ x, Local fun cs => next? (x, cs)) : Local fun cs => (read? cs).bind next? := by
  intro cs rest y hy tail htail
  obtain ⟨⟨x, after⟩, hx, hy⟩ := Option.bind_eq_some_iff.mp hy
  dsimp only
  rw [h hx htail]
  exact hnext x hy htail

theorem Local.ite {p : Prop} [Decidable p] {read? other? : List Char → Option (α × List Char)}
    (h : Local read?) (hother : Local other?) :
    Local fun cs => if p then read? cs else other? cs := by
  by_cases hp : p
  · simpa only [if_pos hp] using h
  · simpa only [if_neg hp] using hother

/-- A reader that needs a first character is local if it is local behind each. -/
theorem local_of_cons {read? : List Char → Option (α × List Char)} (hnil : read? [] = none)
    (hcons : ∀ c, Local fun cs => read? (c :: cs)) : Local read? := by
  intro cs rest x h
  cases cs with
  | nil => cases hnil.symm.trans h
  | cons c cs => exact hcons c h

/-! ### Strings -/

theorem local_fourHex? : Local fourHex? := by
  intro cs rest n h tail _
  unfold fourHex? at h
  split at h
  · obtain ⟨v, hv, heq⟩ := Option.map_eq_some_iff.mp h
    cases heq
    rw [List.cons_append, List.cons_append, List.cons_append, List.cons_append, fourHex?, hv]
    rfl
  · cases h

/-- A unit of four digits, and a pair of them, are read alike in front of any text. -/
theorem local_unit? : Local unit? := by
  refine local_fourHex?.bind fun v => ?_
  refine .ite ?_ (.ite local_none (local_some _))
  intro cs rest c h tail htail
  dsimp only at h ⊢
  split at h
  · have hlow (w : Nat) : Local fun cs => if 0xDC00 ≤ w ∧ w < 0xE000 then
        some (Char.ofNat (0x10000 + (v - 0xD800) * 0x400 + (w - 0xDC00)), cs) else none :=
      .ite (local_some _) local_none
    exact local_fourHex?.bind hlow h htail
  · cases h

theorem local_quotedChar? : Local quotedChar? := by
  refine local_of_cons rfl fun c => .ite ?_ (.ite local_none (local_some c))
  refine local_of_cons rfl fun e => .ite local_unit? ?_
  intro cs rest x h tail _
  obtain ⟨v, hv, heq⟩ := Option.map_eq_some_iff.mp h
  cases heq
  simp only [hv]
  rfl

/-- At a closing quote there is no character of the quoted text, whatever follows. -/
theorem quotedChar?_quote (rest : List Char) : quotedChar? ('"' :: rest) = none := by
  rw [quotedChar?.eq_def]
  rfl

/-- A quoted text is read alike in front of any text. -/
theorem local_quoted? : Local quoted? := by
  intro cs rest text h tail htail
  -- by the length of the text, since a character takes one or more of it
  induction hn : cs.length using Nat.strongRecOn generalizing cs text with
  | ind n ih =>
    rw [quoted?.eq_def] at h
    split at h
    · rename_i c after hc
      obtain ⟨found, hfound, heq⟩ := Option.map_eq_some_iff.mp h
      cases heq
      have hrest := ih after.length (hn ▸ quotedChar?_length hc) hfound rfl
      rw [quoted?.eq_def]
      split
      · rename_i hc'
        cases (local_quotedChar? hc htail).symm.trans hc'
        rw [hrest]
        rfl
      · rename_i hc'
        cases (local_quotedChar? hc htail).symm.trans hc'
    · split at h
      · rename_i c after _
        split at h
        · rename_i hquote
          cases h
          subst hquote
          rw [List.cons_append, quoted?.eq_def]
          split
          · rename_i hc'
            cases (quotedChar?_quote _).symm.trans hc'
          · rfl
        · cases h
      · cases h

/-! ### Numbers -/

/-- Digits are read alike in front of a text that does not go on with them. -/
theorem local_digits? : Local digits? := by
  intro cs rest ds h tail htail
  obtain ⟨hnone, hall⟩ := htail.no_digits
  have htake : (cs ++ tail).takeWhile Ascii.isDigit = cs.takeWhile Ascii.isDigit := by
    rw [List.takeWhile_append]
    split
    · rename_i hlength
      rw [hnone, List.append_nil]
      exact ((List.takeWhile_prefix _).eq_of_length hlength).symm
    · rfl
  have hdrop : (cs ++ tail).dropWhile Ascii.isDigit = cs.dropWhile Ascii.isDigit ++ tail := by
    rw [List.dropWhile_append]
    split
    · rename_i hempty
      rw [hall, List.isEmpty_iff.mp hempty, List.nil_append]
    · rfl
  unfold digits? at h ⊢
  dsimp only at h ⊢
  rw [htake, hdrop]
  split at h
  · cases h
  · rename_i hne
    cases h
    rw [if_neg hne]

/-- The digits may begin with a character that was looked at. -/
theorem local_digits?_cons (c : Char) : Local fun cs => digits? (c :: cs) :=
  fun _ _ _ h _ htail => local_digits? h htail

theorem local_whole? : Local whole? :=
  local_of_cons rfl fun c => .ite (local_some [c]) (local_digits?_cons c)

/-- A fraction is read alike in front of a text that does not go on with it. -/
theorem local_fraction? : Local fraction? := by
  intro cs rest ds h tail htail
  cases cs with
  | nil =>
    cases h
    exact fraction?_of_ends htail
  | cons c cs =>
    have hcons : Local fun cs => fraction? (c :: cs) := by
      refine .ite local_digits? ?_
      intro cs rest ds h tail _
      cases h
      rfl
    exact hcons h htail

/-- An exponent is read alike in front of a text that does not go on with it. -/
theorem local_exponent? : Local exponent? := by
  intro cs rest e h tail htail
  cases cs with
  | nil =>
    cases h
    exact exponent?_of_ends htail
  | cons c cs =>
    have hcons : Local fun cs => exponent? (c :: cs) := by
      refine .ite ?_ ?_
      · refine local_of_cons rfl fun s => ?_
        refine .ite (local_digits?.map fun ds => some (true, ds)) ?_
        exact .ite (local_digits?.map fun ds => some (false, ds))
          ((local_digits?_cons s).map fun ds => some (false, ds))
      · intro cs rest e h tail _
        cases h
        rfl
    exact hcons h htail

/-- A sign is there or not, and the number goes on behind it. -/
theorem local_literal? : Local literal? := by
  have hunsigned (negative : Bool) : Local fun cs => (whole? cs).bind fun found =>
      (fraction? found.2).bind fun found' => (exponent? found'.2).bind fun found'' =>
        some (Number.Literal.mk negative found.1 found'.1 found''.1, found''.2) := by
    refine local_whole?.bind fun whole => ?_
    dsimp only
    refine local_fraction?.bind fun fraction => ?_
    dsimp only
    refine local_exponent?.bind fun exponent => ?_
    exact local_some (Number.Literal.mk negative whole fraction exponent)
  refine local_of_cons rfl fun c => ?_
  by_cases hc : c = '-'
  · subst hc
    exact hunsigned true
  · have hhead (cs : List Char) : ¬ (c :: cs).head? = some '-' := fun h => hc (Option.some.inj h)
    have hcons : (fun cs => literal? (c :: cs)) = fun cs => (whole? (c :: cs)).bind fun found =>
        (fraction? found.2).bind fun found' => (exponent? found'.2).bind fun found'' =>
          some (Number.Literal.mk false found.1 found'.1 found''.1, found''.2) := by
      funext cs
      simp only [literal?, hhead, decide_false]
      rfl
    rw [hcons]
    exact fun _ _ _ h _ htail => hunsigned false h htail

theorem local_number? : Local number? := by
  refine local_literal?.bind fun l => ?_
  dsimp only
  cases l.value? with
  | none => exact local_none
  | some n => exact local_some _

/-! ### Tokens -/

theorem local_word (ws : List Char) (t : Token) :
    Local fun cs => (dropWord? ws cs).map fun rest => (t, rest) := by
  induction ws with
  | nil => exact local_some t
  | cons w ws ih =>
    refine local_of_cons rfl fun c => ?_
    by_cases hw : w = c
    · simpa only [dropWord?, if_pos hw] using ih
    · simpa only [dropWord?, if_neg hw, Option.map_none] using local_none

theorem local_first? : Local first? := by
  refine local_of_cons rfl fun c => ?_
  refine .ite (local_some _) <| .ite (local_some _) <| .ite (local_some _) <| .ite (local_some _) <|
    .ite (local_some _) <| .ite (local_some _) <| .ite ?_ <| .ite (local_word _ _) <|
    .ite (local_word _ _) <| .ite (local_word _ _) ?_
  · exact local_quoted?.map fun text => string (String.ofList text)
  · exact fun _ _ _ h _ htail => local_number? h htail

/-- The tokens of two texts, where the second one does not go on with the last token of the
first. -/
theorem ofText?_append {cs tail : List Char} {ts : List Token} (h : ofText? cs = some ts)
    (htail : Ends tail) : ofText? (cs ++ tail) = (ofText? tail).map (ts ++ ·) := by
  -- by the length of the text, since a token takes one character or more of it
  induction hn : cs.length using Nat.strongRecOn generalizing cs ts with
  | ind n ih =>
    rw [ofText?.eq_def] at h
    cases cs with
    | nil =>
      cases h
      simp
    | cons c cs =>
      rw [List.cons_append, ofText?.eq_def]
      dsimp only at h ⊢
      split at h
      · rename_i hblank
        rw [if_pos hblank]
        exact ih cs.length (by rw [← hn]; exact Nat.lt_succ_self _) h rfl
      · rename_i hblank
        rw [if_neg hblank]
        split at h
        · cases h
        · rename_i t rest hfirst
          have hfirst' := local_first? hfirst htail
          obtain ⟨us, hus, heq⟩ := Option.map_eq_some_iff.mp h
          cases heq
          have hrest := ih rest.length (hn ▸ first?_length hfirst) hus rfl
          split
          · rename_i hnone
            cases hfirst'.symm.trans hnone
          · rename_i hsome
            cases hfirst'.symm.trans hsome
            rw [hrest, Option.map_map]
            rfl

/-! ### Blanks -/

theorem ofText?_blanks {blanks : List Char} (h : ∀ c ∈ blanks, isBlank c = true)
    (cs : List Char) : ofText? (blanks ++ cs) = ofText? cs := by
  induction blanks with
  | nil => rfl
  | cons c blanks ih =>
    obtain ⟨hc, hrest⟩ := List.forall_mem_cons.mp h
    rw [List.cons_append, ofText?.eq_def]
    dsimp only
    rw [if_pos hc, ih hrest]

/-- A number does not go on with a blank. -/
theorem ends_blanks {blanks : List Char} (h : ∀ c ∈ blanks, isBlank c = true) : Ends blanks := by
  intro c hc
  have hblank := h c (List.mem_of_mem_head? hc)
  simp only [isBlank, Bool.or_eq_true, decide_eq_true_eq] at hblank
  rcases hblank with ((rfl | rfl) | rfl) | rfl <;> decide

/-- Blanks around a text add no tokens. -/
theorem ofText?_padded {before after cs : List Char} {ts : List Token}
    (hbefore : ∀ c ∈ before, isBlank c = true) (hafter : ∀ c ∈ after, isBlank c = true)
    (h : ofText? cs = some ts) : ofText? (before ++ cs ++ after) = some ts := by
  have hnone : ofText? after = some [] := by
    have hblanks := ofText?_blanks hafter []
    rwa [List.append_nil, ofText?.eq_def []] at hblanks
  rw [List.append_assoc, ofText?_blanks hbefore, ofText?_append h (ends_blanks hafter), hnone,
    Option.map_some, List.append_nil]

end Token

end Json

end Understudy
