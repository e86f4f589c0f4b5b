import Understudy.Json.Token

/-!
# Understudy.Json.Lexer

Reading the tokens of JSON texts.

Every reader takes what it can from the beginning of a text and returns what follows. `ofText?`
reads all the tokens and skips blanks between them; a text with a malformed token has none. It ends
since each token takes at least one character (`first?_length`).
-/

namespace Understudy

namespace Json

namespace Token

/-! ### Strings -/

/-- The character that a backslash and a letter stand for. -/
def unescape? (c : Char) : Option Char :=
  if c = '"' then some '"'
  else if c = '\\' then some '\\'
  else if c = '/' then some '/'
  else if c = 'b' then some '\x08'
  else if c = 'f' then some '\x0c'
  else if c = 'n' then some '\n'
  else if c = 'r' then some '\r'
  else if c = 't' then some '\t'
  else none

/-- The value of four hexadecimal digits, and what follows them. -/
def fourHex? : List Char → Option (Nat × List Char)
  | a :: b :: c :: d :: rest => (Ascii.digits? 16 [a, b, c, d]).map fun n => (n, rest)
  | _ => none

/-- The character of an escaped UTF-16 unit, and what follows it. A unit of a surrogate pair has to
be followed by the other one. -/
def unit? (cs : List Char) : Option (Char × List Char) := do
  let (v, rest) ← fourHex? cs
  if 0xD800 ≤ v ∧ v < 0xDC00 then
    match rest with
    | '\\' :: 'u' :: rest' =>
      let (w, rest'') ← fourHex? rest'
      if 0xDC00 ≤ w ∧ w < 0xE000 then
        some (Char.ofNat (0x10000 + (v - 0xD800) * 0x400 + (w - 0xDC00)), rest'')
      else none
    | _ => none
  else if 0xDC00 ≤ v ∧ v < 0xE000 then none
  else some (Char.ofNat v, rest)

/-- One character of a quoted text, and what follows it; there is none at the closing quote, at a
control character and in front of a malformed escape. -/
def quotedChar? : List Char → Option (Char × List Char)
  | [] => none
  | c :: rest =>
    if c = '\\' then
      match rest with
      | [] => none
      | e :: rest' =>
        if e = 'u' then unit? rest' else (unescape? e).map fun x => (x, rest')
    else if c = '"' ∨ c.toNat < 0x20 then none
    else some (c, rest)

theorem fourHex?_length {cs rest : List Char} {n : Nat} (h : fourHex? cs = some (n, rest)) :
    rest.length < cs.length := by
  unfold fourHex? at h
  split at h
  · simp only [Option.map_eq_some_iff, Prod.mk.injEq] at h
    obtain ⟨_, _, _, rfl⟩ := h
    simp only [List.length_cons]; omega
  · simp at h

/-- A unit takes one character or more. -/
theorem unit?_length {cs rest : List Char} {c : Char} (h : unit? cs = some (c, rest)) :
    rest.length < cs.length := by
  simp only [unit?, Option.bind_eq_bind, Option.bind_eq_some_iff] at h
  obtain ⟨⟨v, rest₁⟩, hv, h⟩ := h
  have h₁ := fourHex?_length hv
  dsimp only at h
  split at h
  · split at h
    · simp only [Option.bind_eq_some_iff] at h
      obtain ⟨⟨w, rest₂⟩, hw, h⟩ := h
      have h₂ := fourHex?_length hw
      simp only [List.length_cons] at h₁
      split at h
      · simp only [Option.some.injEq, Prod.mk.injEq] at h
        obtain ⟨_, rfl⟩ := h
        omega
      · simp at h
    · simp at h
  · split at h
    · simp at h
    · simp only [Option.some.injEq, Prod.mk.injEq] at h
      obtain ⟨_, rfl⟩ := h
      exact h₁

/-- A character takes one character of the text or more. -/
theorem quotedChar?_length {cs rest : List Char} {c : Char}
    (h : quotedChar? cs = some (c, rest)) : rest.length < cs.length := by
  unfold quotedChar? at h
  split at h
  · simp at h
  · split at h
    · split at h
      · simp at h
      · split at h
        · have := unit?_length h
          simp only [List.length_cons]; omega
        · simp only [Option.map_eq_some_iff, Prod.mk.injEq] at h
          obtain ⟨_, _, _, rfl⟩ := h
          simp only [List.length_cons]; omega
    · split at h
      · simp at h
      · cases h; simp

/-- Reads a quoted text after its opening quote: what it spells, and what follows the closing
quote. -/
def quoted? (cs : List Char) : Option (List Char × List Char) :=
  match _h : quotedChar? cs with
  | some (c, rest) => (quoted? rest).map fun found => (c :: found.1, found.2)
  | none =>
    match cs with
    | c :: rest => if c = '"' then some ([], rest) else none
    | [] => none
termination_by cs.length
decreasing_by exact quotedChar?_length _h

/-! ### Numbers -/

/-- The digits at the beginning of a text, if there is one, and what follows them. -/
def digits? (cs : List Char) : Option (List Char × List Char) :=
  let ds := cs.takeWhile Ascii.isDigit
  if ds.isEmpty then none else some (ds, cs.dropWhile Ascii.isDigit)

/-- The whole part of a number: a zero, or digits that do not start with one. -/
def whole? : List Char → Option (List Char × List Char)
  | [] => none
  | c :: rest => if c = '0' then some ([c], rest) else digits? (c :: rest)

/-- The fraction of a number, if a point announces one. -/
def fraction? : List Char → Option (List Char × List Char)
  | [] => some ([], [])
  | c :: rest => if c = '.' then digits? rest else some ([], c :: rest)

/-- The exponent of a number, if a letter announces one; its sign is first. -/
def exponent? : List Char → Option (Option (Bool × List Char) × List Char)
  | [] => some (none, [])
  | c :: rest =>
    if c = 'e' ∨ c = 'E' then
      match rest with
      | [] => none
      | s :: rest' =>
        if s = '-' then (digits? rest').map fun found => (some (true, found.1), found.2)
        else if s = '+' then (digits? rest').map fun found => (some (false, found.1), found.2)
        else (digits? (s :: rest')).map fun found => (some (false, found.1), found.2)
    else some (none, c :: rest)

/-- Reads a number as it is spelled. -/
def literal? (cs : List Char) : Option (Number.Literal × List Char) := do
  let negative := cs.head? = some '-'
  let (whole, rest) ← whole? (if negative then cs.drop 1 else cs)
  let (fraction, rest) ← fraction? rest
  let (exponent, rest) ← exponent? rest
  some (⟨negative, whole, fraction, exponent⟩, rest)

/-- Reads a number. -/
def number? (cs : List Char) : Option (Token × List Char) := do
  let (l, rest) ← literal? cs
  let n ← l.value?
  some (number n, rest)

/-! ### Tokens -/

/-- Drops a word from the beginning of a text. -/
def dropWord? : List Char → List Char → Option (List Char)
  | [], cs => some cs
  | _ :: _, [] => none
  | w :: ws, c :: cs => if w = c then dropWord? ws cs else none

/-- Reads the token at the beginning of a text. -/
def first? : List Char → Option (Token × List Char)
  | [] => none
  | c :: rest =>
    if c = '[' then some (openArray, rest)
    else if c = ']' then some (closeArray, rest)
    else if c = '\x7b' then some (openObject, rest)
    else if c = '\x7d' then some (closeObject, rest)
    else if c = ',' then some (comma, rest)
    else if c = ':' then some (colon, rest)
    else if c = '"' then (quoted? rest).map fun found => (string (String.ofList found.1), found.2)
    else if c = 'n' then (dropWord? ['u', 'l', 'l'] rest).map fun rest => (null, rest)
    else if c = 't' then (dropWord? ['r', 'u', 'e'] rest).map fun rest => (bool true, rest)
    else if c = 'f' then (dropWord? ['a', 'l', 's', 'e'] rest).map fun rest => (bool false, rest)
    else number? (c :: rest)

/-- Whether a character separates tokens. -/
def isBlank (c : Char) : Bool := c = ' ' || c = '\t' || c = '\n' || c = '\r'

/-- A quoted text takes one character or more. -/
theorem quoted?_length {cs rest text : List Char} (h : quoted? cs = some (text, rest)) :
    rest.length < cs.length := by
  induction hn : cs.length using Nat.strongRecOn generalizing cs text with
  | ind n ih =>
    rw [quoted?.eq_def] at h
    split at h
    · next c r hc =>
      have hlt := quotedChar?_length hc
      simp only [Option.map_eq_some_iff, Prod.mk.injEq] at h
      obtain ⟨found, hf, _, rfl⟩ := h
      have := ih r.length (by omega) hf rfl
      omega
    · split at h
      · split at h
        · cases h; simp only [List.length_cons] at hn; omega
        · simp at h
      · simp at h

/-- Digits take one character or more. -/
theorem digits?_length {cs ds rest : List Char} (h : digits? cs = some (ds, rest)) :
    rest.length < cs.length := by
  unfold digits? at h
  simp only at h
  split at h
  · simp at h
  · next hne =>
    cases h
    have := congrArg List.length (List.takeWhile_append_dropWhile (p := Ascii.isDigit) (l := cs))
    simp only [List.length_append] at this
    have hpos : 0 < (cs.takeWhile Ascii.isDigit).length := by
      cases hds : cs.takeWhile Ascii.isDigit with
      | nil => simp [hds] at hne
      | cons => simp
    omega

theorem whole?_length {cs ds rest : List Char} (h : whole? cs = some (ds, rest)) :
    rest.length < cs.length := by
  unfold whole? at h
  split at h
  · simp at h
  · split at h
    · cases h; simp
    · exact digits?_length h

theorem fraction?_length {cs ds rest : List Char} (h : fraction? cs = some (ds, rest)) :
    rest.length ≤ cs.length := by
  unfold fraction? at h
  split at h
  · cases h; simp
  · split at h
    · have := digits?_length h
      simp only [List.length_cons]; omega
    · cases h; simp

theorem exponent?_length {cs rest : List Char} {e : Option (Bool × List Char)}
    (h : exponent? cs = some (e, rest)) : rest.length ≤ cs.length := by
  unfold exponent? at h
  split at h
  · cases h; simp
  · split at h
    · split at h
      · simp at h
      · split at h
        · simp only [Option.map_eq_some_iff, Prod.mk.injEq] at h
          obtain ⟨found, hf, _, rfl⟩ := h
          have := digits?_length hf
          simp only [List.length_cons]; omega
        · split at h
          · simp only [Option.map_eq_some_iff, Prod.mk.injEq] at h
            obtain ⟨found, hf, _, rfl⟩ := h
            have := digits?_length hf
            simp only [List.length_cons]; omega
          · simp only [Option.map_eq_some_iff, Prod.mk.injEq] at h
            obtain ⟨found, hf, _, rfl⟩ := h
            have := digits?_length hf
            simp only [List.length_cons] at this ⊢; omega
    · cases h; simp

/-- A number takes one character or more. -/
theorem number?_length {cs rest : List Char} {t : Token} (h : number? cs = some (t, rest)) :
    rest.length < cs.length := by
  simp only [number?, literal?, Option.bind_eq_bind, Option.bind_eq_some_iff] at h
  obtain ⟨⟨l, rest₀⟩, ⟨⟨w, rest₁⟩, hw, ⟨f, rest₂⟩, hf, ⟨e, rest₃⟩, he, hl⟩, n, hn, h⟩ := h
  cases h
  cases hl
  have h₁ := whole?_length hw
  have h₂ := fraction?_length hf
  have h₃ := exponent?_length he
  have h₄ : (if cs.head? = some '-' then cs.drop 1 else cs).length ≤ cs.length := by
    split <;> simp
  dsimp only at h₁ h₂ h₃ ⊢
  omega

theorem dropWord?_length {ws cs rest : List Char} (h : dropWord? ws cs = some rest) :
    rest.length ≤ cs.length := by
  induction ws generalizing cs with
  | nil => cases h; simp
  | cons w ws ih =>
    cases cs with
    | nil => simp [dropWord?] at h
    | cons c cs =>
      simp only [dropWord?] at h
      split at h
      · have := ih h
        simp only [List.length_cons]; omega
      · simp at h

theorem length_lt_of_word {ws cs rest : List Char} {t u : Token} {c : Char}
    (h : ((dropWord? ws cs).map fun rest => (t, rest)) = some (u, rest)) :
    rest.length < (c :: cs).length := by
  simp only [Option.map_eq_some_iff, Prod.mk.injEq] at h
  obtain ⟨found, hf, _, rfl⟩ := h
  exact Nat.lt_succ_of_le (dropWord?_length hf)

theorem length_lt_of_sign {cs rest : List Char} {t u : Token} {c : Char}
    (h : some (t, cs) = some (u, rest)) : rest.length < (c :: cs).length := by
  cases h
  exact Nat.lt_succ_self _

/-- Every token takes one character or more, so reading them comes to an end. -/
theorem first?_length {cs rest : List Char} {t : Token} (h : first? cs = some (t, rest)) :
    rest.length < cs.length := by
  unfold first? at h
  split at h
  · simp at h
  · next c tail =>
    split at h
    · exact length_lt_of_sign h
    split at h
    · exact length_lt_of_sign h
    split at h
    · exact length_lt_of_sign h
    split at h
    · exact length_lt_of_sign h
    split at h
    · exact length_lt_of_sign h
    split at h
    · exact length_lt_of_sign h
    split at h
    · simp only [Option.map_eq_some_iff, Prod.mk.injEq] at h
      obtain ⟨found, hf, _, rfl⟩ := h
      exact Nat.lt_succ_of_lt (quoted?_length hf)
    split at h
    · exact length_lt_of_word h
    split at h
    · exact length_lt_of_word h
    split at h
    · exact length_lt_of_word h
    · exact number?_length h

/-- Reads the tokens of a text. Blanks between them do not count. -/
def ofText? (cs : List Char) : Option (List Token) :=
  match cs with
  | [] => some []
  | c :: rest =>
    if isBlank c then ofText? rest
    else
      match _h : first? (c :: rest) with
      | none => none
      | some (t, rest') => (ofText? rest').map (t :: ·)
termination_by cs.length
decreasing_by
  · simp
  · exact first?_length _h

end Token

end Json

end Understudy
