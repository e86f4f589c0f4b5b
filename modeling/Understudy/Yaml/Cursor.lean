/-!
# Understudy.Yaml.Cursor

The characters of YAML texts, and a place in a text.

Three characters end a line: the line feed and the two separators of Unicode. `prepare?` writes
every other spelling of a line end as a line feed, and refuses control characters. A `Cursor` knows
what is left of a text, and the line and column where that begins. A byte order mark is a character
like any other, and takes a column, but it can stand between tokens at the beginning of a line.
-/

namespace Understudy

namespace Yaml

/-! ### Characters -/

/-- Whether a character ends a line. -/
def isBreak (c : Char) : Bool := c = '\n' || c = '\u2028' || c = '\u2029'

/-- Whether a character is a blank within a line. -/
def isBlank (c : Char) : Bool := c = ' ' || c = '\t'

/-- The mark that can stand at the beginning of a text. -/
def byteOrderMark : Char := '\uFEFF'

/-- Whether a character can stand between words. -/
def isGap (c : Char) : Bool := isBlank c || isBreak c

/-- Whether a text begins with a gap, or is at its end. -/
def endsWord : List Char → Bool
  | [] => true
  | c :: _ => isGap c

/-- Whether a character can stand in the name of an anchor. -/
def isNameChar (c : Char) : Bool :=
  ('0' ≤ c && c ≤ '9') || ('A' ≤ c && c ≤ 'Z') || ('a' ≤ c && c ≤ 'z') || c = '_' || c = '-'

/-- Whether a character may stand in a text. -/
def isAllowed (c : Char) : Bool :=
  c = '\t' || c = '\n' || c = '\r' || (' ' ≤ c && c ≤ '~') || c = '\u0085' ||
    ('\u00A0' ≤ c && c ≤ '\uFFFD') || c.toNat ≥ 0x10000

/-- The text with every line end of one or two control characters written as a line feed. -/
def unifyBreaks : List Char → List Char
  | [] => []
  | c :: rest =>
    if c = '\r' then
      match rest with
      | '\n' :: _ => unifyBreaks rest
      | _ => '\n' :: unifyBreaks rest
    else if c = '\u0085' then '\n' :: unifyBreaks rest
    else c :: unifyBreaks rest

/-- A text as it is read: with unified line ends. -/
def prepare? (text : List Char) : Option (List Char) :=
  if text.all isAllowed then some (unifyBreaks text) else none

/-! ### Places -/

/-- A place in a text. -/
structure Cursor where
  rest : List Char
  line : Nat := 0
  column : Nat := 0
  /-- How many octets lie before. -/
  offset : Nat := 0
deriving Repr, DecidableEq

namespace Cursor

/-- Goes past one character, which the text has here. -/
def step (p : Cursor) (c : Char) : Cursor :=
  if isBreak c then ⟨p.rest.drop 1, p.line + 1, 0, p.offset + c.utf8Size⟩
  else ⟨p.rest.drop 1, p.line, p.column + 1, p.offset + c.utf8Size⟩

/-- Goes past characters, which the text has here. -/
def past (p : Cursor) (read : List Char) : Cursor := read.foldl step p

/-- Goes past a number of characters. -/
def skip (p : Cursor) (n : Nat) : Cursor := p.past (p.rest.take n)

/-- The characters up to the first that fails a test, and the place of that one. -/
def span (p : Cursor) (test : Char → Bool) : List Char × Cursor :=
  let read := p.rest.takeWhile test
  (read, p.past read)

/-- The next character. -/
def peek? (p : Cursor) : Option Char := p.rest.head?

/-- Whether a line begins here with three characters `c` that are a word. -/
def isMarker (p : Cursor) (c : Char) : Bool :=
  p.column = 0 && p.rest.take 3 = [c, c, c] && endsWord (p.rest.drop 3)

/-- Whether a line begins here with the mark of a document's beginning or end. -/
def isAnyMarker (p : Cursor) : Bool := p.isMarker '-' || p.isMarker '.'

/-- Goes past a byte order mark at the beginning of a line. -/
def pastMark (p : Cursor) : Cursor :=
  if p.column = 0 && p.peek? = some byteOrderMark then p.skip 1 else p

/-- The place after a comment, if one begins here. -/
def pastComment (p : Cursor) : Cursor :=
  if p.peek? = some '#' then (p.span fun c => !isBreak c).2 else p

end Cursor

end Yaml

end Understudy
