import Understudy.Yaml.Token

/-!
# Understudy.Yaml.Lexer

Cutting a text into tokens.

What a token means depends on where it stands, so the lexer carries state: how deep it is in flow
collections, the columns of the block collections around it, and whether a key may stand here. A key
without a question mark is known only at the colon after it. Every token that may turn out to be one
is therefore remembered as a `Candidate`, and at the colon `key` is put in front of it; a candidate
is forgotten at the end of its line and after 1024 octets.
-/

namespace Understudy

namespace Yaml

/-- A token that is a key if a colon follows. -/
structure Candidate where
  /-- How many tokens lie before it. -/
  number : Nat
  /-- Whether nothing but a key can stand there. -/
  required : Bool
  place : Cursor

/-- The state between two tokens. -/
structure Lexer where
  place : Cursor
  /-- The tokens so far, last first. -/
  tokens : List Token := []
  count : Nat := 0
  /-- The columns of the block collections around the place, innermost first. -/
  columns : List Nat := []
  /-- Whether a key, or an entry of a block sequence, may stand here. -/
  keyAllowed : Bool := true
  candidate : Option Candidate := none
  /-- The candidates outside each of the flow collections around the place, innermost first. -/
  outer : List (Option Candidate) := []

namespace Lexer

/-- Whether the place is in a flow collection. -/
def inFlow (l : Lexer) : Bool := !l.outer.isEmpty

/-- The first column that lies within the innermost block collection. -/
def indent (l : Lexer) : Nat :=
  match l.columns with
  | [] => 0
  | column :: _ => column + 1

/-- The state after a token and at a place. -/
def emit (l : Lexer) (t : Token) (place : Cursor) : Lexer :=
  { l with tokens := t :: l.tokens, count := l.count + 1, place := place }

/-- The state with a token put in front of all but the first `number`. -/
def insert (l : Lexer) (number : Nat) (t : Token) : Lexer :=
  { l with tokens := l.tokens.insertIdx (l.count - number) t, count := l.count + 1 }

/-- The state with another answer to whether a key may stand here. -/
def allowing (l : Lexer) (keyAllowed : Bool) : Lexer := { l with keyAllowed := keyAllowed }

/-! ### Block collections -/

/-- Opens a block collection at a column, unless one is open there. -/
def openBlock (l : Lexer) (column number : Nat) (t : Token) : Lexer :=
  if l.inFlow || column < l.indent then l
  else { l.insert number t with columns := column :: l.columns }

/-- Begins a block collection at the column of this place. -/
def openHere (l : Lexer) (t : Token) : Lexer := l.openBlock l.place.column l.count t

/-- Closes the block collections that begin at a column or after it. -/
def closeBlocks (l : Lexer) (column : Nat) : Lexer :=
  if l.inFlow then l
  else
    let closed := l.columns.takeWhile (column ≤ ·)
    { l with
      tokens := List.replicate closed.length .blockEnd ++ l.tokens
      count := l.count + closed.length
      columns := l.columns.drop closed.length }

/-! ### Candidates -/

/-- Forgets the candidate, if it may be something else than a key. -/
def forget? (l : Lexer) : Option Lexer :=
  if l.candidate.any (·.required) then none else some { l with candidate := none }

/-- Remembers what begins here, if a key may. -/
def remember? (l : Lexer) : Option Lexer :=
  if l.keyAllowed then do
    let l ← l.forget?
    let required := !l.inFlow && l.columns.head? = some l.place.column
    some { l with candidate := some ⟨l.count, required, l.place⟩ }
  else some l

/-- Whether a candidate is too far away to be a key. -/
def isStale (l : Lexer) (c : Candidate) : Bool :=
  c.place.line < l.place.line || c.place.offset + 1024 < l.place.offset

/-- Forgets the candidates that are too far away. -/
def forgetStale? (l : Lexer) : Option Lexer :=
  if (l.candidate :: l.outer).any fun c => c.any fun c => l.isStale c && c.required then none
  else
    let fresh (c : Option Candidate) : Option Candidate := c.filter fun c => !l.isStale c
    some { l with candidate := fresh l.candidate, outer := l.outer.map fresh }

/-! ### Between tokens -/

/-- Goes past blanks, comments and line ends, and past byte order marks that begin a line. A tab is
no blank where a key may stand in a block collection. -/
def skipGap : Nat → Lexer → Lexer
  | 0, l => l
  | fuel + 1, l =>
    let tabs := l.inFlow || !l.keyAllowed
    let blank (c : Char) : Bool := c = ' ' || (tabs && c = '\t')
    let p := (l.place.pastMark.span blank).2.pastComment
    if p.peek?.any isBreak then
      skipGap fuel { l with place := p.skip 1, keyAllowed := l.keyAllowed || !l.inFlow }
    else { l with place := p }

/-- Goes to the next token. -/
def settle? (l : Lexer) : Option Lexer := do
  let l ← (l.skipGap (l.place.rest.length + 1)).forgetStale?
  some (l.closeBlocks (l.place.column + 1))

/-! ### Tokens -/

/-- Takes a directive or a mark of a document, which end every collection. -/
def document? (l : Lexer) (t : Token) (place : Cursor) : Option Lexer := do
  let l ← (l.closeBlocks 0).forget?
  some ((l.emit t place).allowing false)

/-- Takes the opening bracket of a flow collection. -/
def open? (l : Lexer) (t : Token) : Option Lexer := do
  let l ← l.remember?
  some { l.emit t (l.place.skip 1) with
    outer := l.candidate :: l.outer, candidate := none, keyAllowed := true }

/-- Takes the closing bracket of a flow collection. -/
def close? (l : Lexer) (t : Token) : Option Lexer := do
  let l ← l.forget?
  some { l.emit t (l.place.skip 1) with
    candidate := l.outer.head?.getD none, outer := l.outer.drop 1, keyAllowed := false }

/-- Takes a comma. -/
def comma? (l : Lexer) : Option Lexer := do
  let l ← l.forget?
  some ((l.emit .comma (l.place.skip 1)).allowing true)

/-- Takes the dash of an entry. -/
def entry? (l : Lexer) : Option Lexer :=
  if !l.inFlow && !l.keyAllowed then none
  else do
    let l ← (l.openHere .blockSequence).forget?
    some ((l.emit .entry (l.place.skip 1)).allowing true)

/-- Takes the question mark of a key. -/
def key? (l : Lexer) : Option Lexer :=
  if !l.inFlow && !l.keyAllowed then none
  else do
    let l ← (l.openHere .blockMapping).forget?
    some ((l.emit .key (l.place.skip 1)).allowing !l.inFlow)

/-- Takes the colon of a value. -/
def value? (l : Lexer) : Option Lexer :=
  match l.candidate with
  | some c =>
    let l := (l.insert c.number .key).openBlock c.place.column c.number .blockMapping
    some { l.emit .value (l.place.skip 1) with candidate := none, keyAllowed := false }
  | none =>
    if !l.inFlow && !l.keyAllowed then none
    else some (((l.openHere .blockMapping).emit .value (l.place.skip 1)).allowing !l.inFlow)

/-- Takes a token that can be the beginning of a key. -/
def word? (l : Lexer) (found : Option (Token × Cursor)) : Option Lexer := do
  let l ← l.remember?
  let (t, place) ← found
  some ((l.emit t place).allowing false)

/-- Takes a token that is a mark and a name. -/
def named? (l : Lexer) (t : String → Token) : Option Lexer :=
  l.word? ((Token.name? (l.place.skip 1)).map fun found => (t found.1, found.2))

/-- Takes a plain scalar. A key may follow it if its line has ended. -/
def plain? (l : Lexer) : Option Lexer := do
  let l ← l.remember?
  let (text, ends, place) ← Scalar.plain? l.inFlow l.indent l.place
  some ((l.emit (.scalar .plain (String.ofList text)) place).allowing ends)

/-- Reads a quoted scalar. -/
def quoted? (l : Lexer) (double : Bool) : Option Lexer :=
  l.word? ((Scalar.quoted? double (l.place.skip 1)).map fun found =>
    (.scalar .quoted (String.ofList found.1), found.2))

/-- Takes a block scalar. -/
def block? (l : Lexer) (literal : Bool) : Option Lexer := do
  let l ← l.forget?
  let (text, place) ← Scalar.block? literal l.indent (l.place.skip 1)
  let style := if literal then Style.literal else Style.folded
  some ((l.emit (.scalar style (String.ofList text)) place).allowing true)

/-- Whether a plain scalar begins with a character. A dash begins one in front of a word, and so do
a question mark and a colon outside flow collections. -/
def beginsPlain (flow : Bool) (c : Char) (rest : List Char) : Bool :=
  if c = '-' then !(rest.head?.any isBlank)
  else if c = '?' || c = ':' then !flow && !endsWord rest
  else !(isGap c || Scalar.isFlowIndicator c ||
    ['#', '&', '*', '!', '|', '>', '\'', '"', '%', '@', '\x60'].contains c)

/-- Takes the token that begins with a character. -/
def first? (l : Lexer) (c : Char) (rest : List Char) : Option Lexer :=
  let p := l.place
  let mark := l.inFlow || endsWord rest
  if p.column = 0 && c = '%' then do
    let (t, place) ← Token.directive? (p.skip 1)
    l.document? t place
  else if p.isMarker '-' then l.document? .documentStart (p.skip 3)
  else if p.isMarker '.' then l.document? .documentEnd (p.skip 3)
  else if c = '[' then l.open? .openSequence
  else if c = '\x7b' then l.open? .openMapping
  else if c = ']' then l.close? .closeSequence
  else if c = '\x7d' then l.close? .closeMapping
  else if c = ',' then l.comma?
  else if c = '-' && endsWord rest then l.entry?
  else if c = '?' && mark then l.key?
  else if c = ':' && mark then l.value?
  else if c = '*' then l.named? .alias
  else if c = '&' then l.named? .anchor
  else if c = '!' then l.word? (Token.tag? l.inFlow p)
  else if c = '|' && !l.inFlow then l.block? true
  else if c = '>' && !l.inFlow then l.block? false
  else if c = '\'' then l.quoted? false
  else if c = '"' then l.quoted? true
  else if beginsPlain l.inFlow c rest then l.plain?
  else none

/-- Takes the tokens up to the end of the text, which ends every collection. -/
def run? : Nat → Lexer → Option Lexer
  | 0, _ => none
  | fuel + 1, l => do
    let l ← l.settle?
    match l.place.rest with
    | [] => (l.closeBlocks 0).forget?
    | c :: rest => (l.first? c rest).bind (run? fuel)

end Lexer

/-- Reads the tokens of a text. -/
def Token.ofText? (text : List Char) : Option (List Token) := do
  let text ← prepare? text
  let l ← Lexer.run? (text.length + 1) { place := ⟨text, 0, 0, 0⟩ }
  some l.tokens.reverse

end Yaml

end Understudy
