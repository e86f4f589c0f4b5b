import Understudy.Json.Lexer
import Understudy.Json.Printer

/-!
# Understudy.Proofs.Json.Spelling

Tokens are read back as they are written.

Most tokens say themselves where they end: a quoted text ends at its closing quote, since all quotes
inside are escaped, and signs and words have their length. Only a number goes on for as long as it
can, so it is read back in front of what a number cannot go on with (`Ends`). In a document that is
a comma, a closing bracket or the end, and so the text of a document has its tokens
(`ofText?_chars`). Floats are left out throughout: their text need not read back.
-/

namespace Understudy

namespace Json

/-! ### Numbers -/

namespace Number

theorem isDigit_eq (c : Char) : Ascii.isDigit c = c.isDigit := by
  rw [Ascii.isDigit, Ascii.digit?, Bool.eq_iff_iff]
  show (if _ then _ else _ : Option Nat).isSome = true ↔
    (decide (c.val ≥ '0'.val) && decide (c.val ≤ '9'.val)) = true
  rw [Bool.and_eq_true, decide_eq_true_iff, decide_eq_true_iff]
  split
  · rename_i h
    exact iff_of_true rfl h
  · rename_i h
    exact iff_of_false (by simp) h

theorem isDigit_of_mem_decimal {n : Nat} {c : Char} (h : c ∈ Ascii.decimal n) :
    Ascii.isDigit c = true := by
  rw [isDigit_eq]
  exact Nat.isDigit_of_mem_toDigits (by decide) (by decide) h

/-- The digits of a number have its value. -/
theorem natOf_decimal (n : Nat) : natOf (Ascii.decimal n) = n := by
  have hvalue : ∀ (ds : List Char), (∀ c ∈ ds, Ascii.isDigit c = true) → ∀ init,
      ds.foldl (fun n c => n * 10 + (Ascii.digit? c).getD 0) init =
        Nat.ofDigitChars 10 ds init := by
    intro ds
    induction ds with
    | nil => exact fun _ _ => rfl
    | cons c ds ih =>
      intro hds init
      obtain ⟨hc, hrest⟩ := List.forall_mem_cons.mp hds
      have hdigit : (Ascii.digit? c).getD 0 = c.toNat - '0'.toNat := by
        rw [Ascii.isDigit, Ascii.digit?] at hc
        rw [Ascii.digit?]
        split at hc
        · rename_i h
          rw [if_pos h, Option.getD_some]
        · cases hc
      rw [List.foldl_cons, ih hrest, hdigit, Nat.mul_comm]
      rfl
  rw [natOf, hvalue _ fun c hc => isDigit_of_mem_decimal hc]
  exact Nat.ofDigitChars_toDigits (by decide) (by decide)

/-- Only zero is written with a zero in front. -/
theorem head?_decimal {n : Nat} (hn : n ≠ 0) : (Ascii.decimal n).head? ≠ some '0' := by
  induction n using Nat.strongRecOn with
  | ind n ih =>
    rw [Ascii.decimal, Nat.toDigits_eq_if (by decide)]
    split
    · rename_i hlt
      have hdigits : ∀ m < 10, m ≠ 0 → m.digitChar ≠ '0' := by decide
      simpa using hdigits n hlt hn
    · have hrest := ih (n / 10) (by omega) (by omega)
      cases hds : Nat.toDigits 10 (n / 10) with
      | nil => exact absurd hds Nat.toDigits_ne_nil
      | cons d ds => rwa [Ascii.decimal, hds] at hrest

end Number

namespace Token

/-- Whether a number cannot go on with a text. -/
def Ends (rest : List Char) : Prop :=
  ∀ c ∈ rest.head?, Ascii.isDigit c = false ∧ c ≠ '.' ∧ c ≠ 'e' ∧ c ≠ 'E'

theorem ends_nil : Ends [] := by
  intro c hc
  cases hc

/-- A comma or a closing bracket stands after a number. -/
theorem ends_text {t : Token} (h : t = comma ∨ t = closeArray ∨ t = closeObject)
    (rest : List Char) : Ends (t.text ++ rest) := by
  intro c hc
  rcases h with rfl | rfl | rfl <;> (cases hc; decide)

/-- Where a number cannot go on there are no digits. -/
theorem Ends.no_digits {rest : List Char} (h : Ends rest) :
    rest.takeWhile Ascii.isDigit = [] ∧ rest.dropWhile Ascii.isDigit = rest := by
  cases rest with
  | nil => exact ⟨rfl, rfl⟩
  | cons c rest =>
    have hc : ¬ Ascii.isDigit c = true := by rw [(h c rfl).1]; decide
    exact ⟨List.takeWhile_cons_of_neg hc, List.dropWhile_cons_of_neg hc⟩

theorem digits?_append {ds rest : List Char} (hne : ds ≠ [])
    (hds : ∀ c ∈ ds, Ascii.isDigit c = true) (hrest : Ends rest) :
    digits? (ds ++ rest) = some (ds, rest) := by
  rw [digits?, List.takeWhile_append_of_pos hds, List.dropWhile_append_of_pos hds,
    hrest.no_digits.1, hrest.no_digits.2, List.append_nil]
  exact if_neg (by simpa using hne)

/-- A number in digits is read back. -/
theorem whole?_decimal (n : Nat) {rest : List Char} (hrest : Ends rest) :
    whole? (Ascii.decimal n ++ rest) = some (Ascii.decimal n, rest) := by
  by_cases hn : n = 0
  · subst hn
    rfl
  · have hhead := Number.head?_decimal hn
    have hdigits : digits? (Ascii.decimal n ++ rest) = some (Ascii.decimal n, rest) :=
      digits?_append Nat.toDigits_ne_nil (fun c hc => Number.isDigit_of_mem_decimal hc) hrest
    cases hds : Ascii.decimal n with
    | nil => exact absurd hds Nat.toDigits_ne_nil
    | cons c ds =>
      rw [hds] at hhead hdigits
      have hc : c ≠ '0' := by simpa using hhead
      rw [List.cons_append, whole?, if_neg hc, ← List.cons_append, hdigits]

theorem fraction?_of_ends {rest : List Char} (h : Ends rest) :
    fraction? rest = some ([], rest) := by
  cases rest with
  | nil => rfl
  | cons c rest => rw [fraction?, if_neg (h c rfl).2.1]

theorem exponent?_of_ends {rest : List Char} (h : Ends rest) :
    exponent? rest = some (none, rest) := by
  cases rest with
  | nil => rfl
  | cons c rest =>
    obtain ⟨-, -, he, hE⟩ := h c rfl
    rw [exponent?.eq_def]
    exact if_neg (not_or.mpr ⟨he, hE⟩)

/-- An integer is written with a minus sign or a digit in front. -/
theorem head_intText (i : Int) : ∃ c cs, Number.intText i = c :: cs ∧
    (i < 0 ∧ c = '-' ∧ cs = Ascii.decimal i.natAbs ∨
      ¬ i < 0 ∧ Ascii.isDigit c = true ∧ c :: cs = Ascii.decimal i.natAbs) := by
  by_cases hi : i < 0
  · exact ⟨'-', _, if_pos hi, Or.inl ⟨hi, rfl, rfl⟩⟩
  · cases hds : Ascii.decimal i.natAbs with
    | nil => exact absurd hds Nat.toDigits_ne_nil
    | cons c cs =>
      have hc : Ascii.isDigit c = true :=
        Number.isDigit_of_mem_decimal (by rw [hds]; exact List.mem_cons_self)
      exact ⟨c, cs, by rw [Number.intText, if_neg hi, hds], Or.inr ⟨hi, hc, rfl⟩⟩

theorem starts_intText (i : Int) :
    ∃ c cs, Number.intText i = c :: cs ∧ (c = '-' ∨ Ascii.isDigit c = true) := by
  obtain ⟨c, cs, htext, hc⟩ := head_intText i
  exact ⟨c, cs, htext, hc.imp (·.2.1) (·.2.1)⟩

/-- An integer is read back as its literal. -/
theorem literal?_intText (i : Int) {rest : List Char} (hrest : Ends rest) :
    literal? (Number.intText i ++ rest) =
      some (⟨i < 0, Ascii.decimal i.natAbs, [], none⟩, rest) := by
  obtain ⟨c, cs, htext, ⟨hi, rfl, rfl⟩ | ⟨hi, hc, hcs⟩⟩ := head_intText i
  · simp [literal?, htext, whole?_decimal _ hrest, fraction?_of_ends hrest, exponent?_of_ends hrest,
      hi]
  · have hminus : c ≠ '-' := by
      rintro rfl
      exact absurd hc (by decide)
    have hwhole := whole?_decimal i.natAbs hrest
    rw [← hcs, List.cons_append] at hwhole
    simp [literal?, htext, hminus, hwhole, fraction?_of_ends hrest, exponent?_of_ends hrest, hi,
      ← hcs]

/-- An integer is read back. -/
theorem number?_intText {i : Int} (h : -0x8000000000000000 ≤ i ∧ i < 0x10000000000000000)
    {rest : List Char} (hrest : Ends rest) :
    number? (Number.intText i ++ rest) = some (number (.int i h), rest) := by
  have hvalue : Number.Literal.value? ⟨i < 0, Ascii.decimal i.natAbs, [], none⟩ =
      some (.int i h) := by
    have habs : (if i < 0 then -(i.natAbs : Int) else i.natAbs) = i := by omega
    have hzero : ¬ (i < 0 ∧ i.natAbs = 0) := by omega
    simp only [Number.Literal.value?, Number.natOf_decimal, decide_eq_true_eq, habs]
    rw [if_pos ⟨rfl, rfl, hzero⟩, dif_pos h]
  rw [number?, literal?_intText i hrest]
  simp [hvalue]

/-! ### Strings -/

/-- A control character is read back from its escaped unit. -/
theorem unit?_control {c : Char} (h : c.toNat < 0x20) (rest : List Char) :
    unit? ('0' :: '0' :: Ascii.hexDigit (c.toNat / 16) :: Ascii.hexDigit (c.toNat % 16) :: rest) =
      some (c, rest) := by
  have hdigits : ∀ n < 0x20, Ascii.digits? 16
      ['0', '0', Ascii.hexDigit (n / 16), Ascii.hexDigit (n % 16)] = some n := by decide
  have hhigh : ¬ (0xD800 ≤ c.toNat ∧ c.toNat < 0xDC00) := by omega
  have hlow : ¬ (0xDC00 ≤ c.toNat ∧ c.toNat < 0xE000) := by omega
  simp [unit?, fourHex?, hdigits _ h, hhigh, hlow]

/-- A character that is escaped is read back. -/
theorem quotedChar?_escape (c : Char) (rest : List Char) :
    quotedChar? (escape c ++ rest) = some (c, rest) := by
  unfold escape
  split
  · next h => subst h; rfl
  split
  · next h => subst h; rfl
  split
  · next h => subst h; rfl
  split
  · next h => subst h; rfl
  split
  · next h => subst h; rfl
  split
  · next h => subst h; rfl
  split
  · next h => subst h; rfl
  split
  · next h => exact unit?_control h rest
  · next hquote hbackslash _ _ _ _ _ hcontrol =>
    show quotedChar? (c :: rest) = some (c, rest)
    rw [quotedChar?.eq_def]
    simp [hquote, hbackslash, hcontrol]

/-- A text in quotes ends at the closing quote: the quotes inside are escaped. -/
theorem quoted?_append (cs rest : List Char) :
    quoted? (cs.flatMap escape ++ '"' :: rest) = some (cs, rest) := by
  induction cs with
  | nil =>
    rw [List.flatMap_nil, List.nil_append, quoted?.eq_def]
    rfl
  | cons c cs ih =>
    have hc := quotedChar?_escape c (cs.flatMap escape ++ '"' :: rest)
    rw [List.flatMap_cons, List.append_assoc, quoted?.eq_def]
    -- the reader takes exactly the escape of `c`, and so it is not at the closing quote
    split
    · next hfirst =>
      cases hc.symm.trans hfirst
      rw [ih]
      rfl
    · next hfirst => cases hc.symm.trans hfirst

/-! ### Tokens -/

/-- Whether a token is not a float. -/
def isIntegral : Token → Bool
  | number (.float _) => false
  | _ => true

/-- Whether a token is a number. -/
def isNumber : Token → Bool
  | number _ => true
  | _ => false

/-- What starts a number is no sign that does not. -/
theorem ne_of_starts {c : Char} {others : List Char} (h : c = '-' ∨ Ascii.isDigit c = true)
    (hothers : (others.any fun d => d = '-' ∨ Ascii.isDigit d = true) = false) :
    ∀ d ∈ others, c ≠ d := by
  rintro d hd rfl
  exact List.any_eq_false.mp hothers c hd (decide_eq_true h)

theorem first?_of_starts {c : Char} (h : c = '-' ∨ Ascii.isDigit c = true) (rest : List Char) :
    first? (c :: rest) = number? (c :: rest) := by
  have hne : ∀ d ∈ ['[', ']', '\x7b', '\x7d', ',', ':', '"', 'n', 't', 'f'], c ≠ d :=
    ne_of_starts h (by decide)
  simp only [List.forall_mem_cons] at hne
  simp [first?, hne]

/-- A token that is written is read back, if nothing goes on with it. -/
theorem first?_text {t : Token} (ht : t.isIntegral = true) {rest : List Char}
    (hrest : t.isNumber = true → Ends rest) : first? (t.text ++ rest) = some (t, rest) := by
  cases t with
  | number n =>
    cases n with
    | float x => cases ht
    | int i h =>
      -- numbers are tried last, so the first character has to rule out every other token
      obtain ⟨c, cs, htext, hstarts⟩ := starts_intText i
      have hnumber := number?_intText h (hrest rfl)
      rw [htext, List.cons_append, ← first?_of_starts hstarts] at hnumber
      rw [text, Number.text, htext]
      exact hnumber
  | string s =>
    have hquoted := quoted?_append s.toList rest
    simp [text, quoted, first?, hquoted]
  | bool b => cases b <;> rfl
  | _ => rfl

/-- No token starts with a blank. -/
theorem head_text {t : Token} (ht : t.isIntegral = true) :
    ∃ c cs, t.text = c :: cs ∧ isBlank c = false := by
  cases t with
  | number n =>
    cases n with
    | float x => cases ht
    | int i h =>
      obtain ⟨c, cs, htext, hstarts⟩ := starts_intText i
      have hne : ∀ d ∈ [' ', '\t', '\n', '\r'], c ≠ d := ne_of_starts hstarts (by decide)
      simp only [List.forall_mem_cons] at hne
      exact ⟨c, cs, htext, by simp [isBlank, hne]⟩
  | bool b => cases b <;> exact ⟨_, _, rfl, rfl⟩
  | _ => exact ⟨_, _, rfl, rfl⟩

/-- Tokens are read back one by one. -/
theorem ofText?_text {t : Token} (ht : t.isIntegral = true) {rest : List Char} {ts : List Token}
    (hrest : t.isNumber = true → Ends rest) (hts : ofText? rest = some ts) :
    ofText? (t.text ++ rest) = some (t :: ts) := by
  obtain ⟨c, cs, htext, hblank⟩ := head_text ht
  have hfirst := first?_text ht hrest
  rw [htext, List.cons_append] at hfirst ⊢
  rw [ofText?.eq_def]
  dsimp only
  rw [hblank, if_neg Bool.false_ne_true]
  split
  · next hnone => cases hfirst.symm.trans hnone
  · next hsome =>
    cases hfirst.symm.trans hsome
    rw [hts]
    rfl

/-- Anything may stand behind a token that is not a number. -/
theorem ofText?_of_not_number (t : Token) (ht : t.isNumber = false) {rest : List Char}
    {ts : List Token} (hts : ofText? rest = some ts) :
    ofText? (t.text ++ rest) = some (t :: ts) := by
  have hintegral : t.isIntegral = true := by
    cases t with
    | number => cases ht
    | _ => rfl
  have hends : t.isNumber = true → Ends rest :=
    fun hnumber => absurd (ht.symm.trans hnumber) Bool.false_ne_true
  exact ofText?_text hintegral hends hts

end Token

/-! ### Documents -/

mutual

/-- Whether a document has no floats. -/
def isIntegral : Json → Bool
  | number (.float _) => false
  | array items => itemsIntegral items
  | object fields => fieldsIntegral fields
  | _ => true

/-- Whether the numbers in all items are integers. -/
def itemsIntegral : List Json → Bool
  | [] => true
  | item :: rest => isIntegral item && itemsIntegral rest

/-- Whether the numbers in the values of all fields are integers. -/
def fieldsIntegral : List (String × Json) → Bool
  | [] => true
  | (_, value) :: rest => isIntegral value && fieldsIntegral rest

end

mutual

/-- The tokens of a document are read in front of everything that its last one cannot go on with. -/
theorem ofText?_tokens : (j : Json) → j.isIntegral = true → {rest : List Char} →
    {ts : List Token} → Token.Ends rest → Token.ofText? rest = some ts →
    Token.ofText? (j.tokens.flatMap Token.text ++ rest) = some (j.tokens ++ ts)
  | null, _, _, _, _, hts => by
    simpa [tokens] using Token.ofText?_of_not_number .null rfl hts
  | bool b, _, _, _, _, hts => by
    simpa [tokens] using Token.ofText?_of_not_number (.bool b) rfl hts
  | number (.int i h), _, _, _, hrest, hts => by
    simpa [tokens] using Token.ofText?_text rfl (fun _ => hrest) hts (t := .number (.int i h))
  | string s, _, _, _, _, hts => by
    simpa [tokens] using Token.ofText?_of_not_number (.string s) rfl hts
  | array items, hj, rest, ts, _, hts => by
    have hclose := Token.ofText?_of_not_number .closeArray rfl hts
    have hitems := ofText?_itemTokens items hj (Token.ends_text (Or.inr (Or.inl rfl)) rest) hclose
    have hopen := Token.ofText?_of_not_number .openArray rfl hitems
    simpa [tokens] using hopen
  | object fields, hj, rest, ts, _, hts => by
    have hclose := Token.ofText?_of_not_number .closeObject rfl hts
    have hfields := ofText?_fieldTokens fields hj
      (Token.ends_text (Or.inr (Or.inr rfl)) rest) hclose
    have hopen := Token.ofText?_of_not_number .openObject rfl hfields
    simpa [tokens] using hopen

/-- The tokens of items are read back. -/
theorem ofText?_itemTokens : (items : List Json) → itemsIntegral items = true →
    {rest : List Char} → {ts : List Token} → Token.Ends rest → Token.ofText? rest = some ts →
    Token.ofText? ((itemTokens items).flatMap Token.text ++ rest) = some (itemTokens items ++ ts)
  | [], _, _, _, _, hts => hts
  | [item], h, _, _, hrest, hts => by
    obtain ⟨hitem, -⟩ := Bool.and_eq_true_iff.mp h
    exact ofText?_tokens item hitem hrest hts
  | item :: next :: items, h, rest, ts, hrest, hts => by
    obtain ⟨hitem, hitems⟩ := Bool.and_eq_true_iff.mp h
    have hnext := ofText?_itemTokens (next :: items) hitems hrest hts
    have hcomma := Token.ofText?_of_not_number .comma rfl hnext
    have hall := ofText?_tokens item hitem (Token.ends_text (Or.inl rfl) _) hcomma
    simpa [itemTokens] using hall

/-- The tokens of fields are read back. -/
theorem ofText?_fieldTokens : (fields : List (String × Json)) → fieldsIntegral fields = true →
    {rest : List Char} → {ts : List Token} → Token.Ends rest → Token.ofText? rest = some ts →
    Token.ofText? ((fieldTokens fields).flatMap Token.text ++ rest) =
      some (fieldTokens fields ++ ts)
  | [], _, _, _, _, hts => hts
  | [(name, value)], h, _, _, hrest, hts => by
    obtain ⟨hvalue, -⟩ := Bool.and_eq_true_iff.mp h
    have hvalue := ofText?_tokens value hvalue hrest hts
    have hcolon := Token.ofText?_of_not_number .colon rfl hvalue
    have hname := Token.ofText?_of_not_number (.string name) rfl hcolon
    simpa [fieldTokens] using hname
  | (name, value) :: next :: fields, h, rest, ts, hrest, hts => by
    obtain ⟨hvalue, hfields⟩ := Bool.and_eq_true_iff.mp h
    have hnext := ofText?_fieldTokens (next :: fields) hfields hrest hts
    have hcomma := Token.ofText?_of_not_number .comma rfl hnext
    have hvalue := ofText?_tokens value hvalue (Token.ends_text (Or.inl rfl) _) hcomma
    have hcolon := Token.ofText?_of_not_number .colon rfl hvalue
    have hname := Token.ofText?_of_not_number (.string name) rfl hcolon
    simpa [fieldTokens] using hname

end

/-- The text of a document without floats has the tokens that it was written from. -/
theorem ofText?_chars {j : Json} (hj : j.isIntegral = true) :
    Token.ofText? j.chars = some j.tokens := by
  have hnil : Token.ofText? [] = some [] := by rw [Token.ofText?.eq_def]
  simpa [chars] using ofText?_tokens j hj Token.ends_nil hnil

end Json

end Understudy
