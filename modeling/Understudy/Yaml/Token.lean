import Understudy.Yaml.Scalar

/-!
# Understudy.Yaml.Token

The tokens of YAML texts.

Indentation is a token as well: a block collection begins with `blockSequence` or `blockMapping` and
ends with `blockEnd`, and a key is announced by `key` whether or not a question mark does so in the
text.
-/

namespace Understudy

namespace Yaml

/-- A token of a YAML text. -/
inductive Token where
  /-- The version that a directive asks for. -/
  | version (major minor : Nat)
  /-- A directive that a handle stands for the beginning of tags. -/
  | handle (name : String) (text : Tag)
  | documentStart
  | documentEnd
  | blockSequence
  | blockMapping
  | blockEnd
  | openSequence
  | closeSequence
  | openMapping
  | closeMapping
  | comma
  | entry
  | key
  | value
  | alias (name : String)
  | anchor (name : String)
  | tag (handle : String) (rest : Tag)
  | scalar (style : Style) (text : String)
deriving Repr, DecidableEq

namespace Token

/-! ### Names and tags -/

/-- Reads a name of an anchor. It ends at a gap or at an indicator. -/
def name? (p : Cursor) : Option (String × Cursor) :=
  let (name, q) := p.span isNameChar
  let ends := endsWord q.rest ||
    q.peek?.any fun c => ['?', ':', ',', ']', '\x7d', '%', '@', '\x60'].contains c
  if name.isEmpty || !ends then none else some (String.ofList name, q)

/-- Whether a character can stand in a tag. Brackets and commas stand only in a whole one. -/
def isTagChar (whole : Bool) (c : Char) : Bool :=
  isNameChar c ||
    [';', '/', '?', ':', '@', '&', '=', '+', '$', '.', '!', '~', '*', '\'', '(', ')'].contains c ||
    (whole && [',', '[', ']'].contains c)

/-- How many octets follow the first one of a character. -/
def owed? (first : Nat) : Option Nat :=
  if first < 0x80 then some 0
  else if first < 0xC0 then none
  else if first < 0xE0 then some 1
  else if first < 0xF0 then some 2
  else if first < 0xF8 then some 3
  else none

/-- Reads an octet that is spelled with a percent sign. -/
def escape? (p : Cursor) : Option (Nat × Cursor) :=
  match p.rest with
  | '%' :: a :: b :: _ => (Ascii.digits? 16 [a, b]).map fun octet => (octet, p.skip 3)
  | _ => none

/-- Reads octets that go on with a character. -/
def trailing? : Nat → Cursor → Option (Bytes × Cursor)
  | 0, p => some ([], p)
  | owed + 1, p => do
    let (octet, p) ← escape? p
    if 0x80 ≤ octet && octet < 0xC0 then
      let (more, p) ← trailing? owed p
      some (.ofNat octet :: more, p)
    else none

/-- Reads a character that is spelled octet by octet. The first octet says how many there are, and
nothing else is checked: a character may be spelled with too many octets, or be a surrogate. -/
def escapes? (p : Cursor) : Option (Bytes × Cursor) := do
  let (first, p) ← escape? p
  let owed ← owed? first
  let (more, p) ← trailing? owed p
  some (.ofNat first :: more, p)

/-- Reads the text of a tag: characters that stand in tags, and others spelled with percent
signs. -/
def tagText? (whole : Bool) : Nat → Cursor → Option (Tag × Cursor)
  | 0, p => some ([], p)
  | fuel + 1, p => do
    let (plain, q) := p.span (isTagChar whole)
    if q.peek? = some '%' then
      let (spelled, q) ← escapes? q
      let (more, q) ← tagText? whole fuel q
      some (Utf8.encodeChars plain ++ spelled ++ more, q)
    else some (Utf8.encodeChars plain, q)

/-- A tag as it is kept: it ends in front of an octet that is zero. -/
def kept (text : Tag) : Tag := text.takeWhile (· ≠ 0)

/-- Reads a handle: an exclamation mark, a name, and if there is one another mark. -/
def handle? (p : Cursor) : Option (List Char × Cursor) :=
  if p.peek? = some '!' then
    let (name, q) := (p.skip 1).span isNameChar
    if q.peek? = some '!' then some ('!' :: name ++ ['!'], q.skip 1) else some ('!' :: name, q)
  else none

/-- Reads a tag: a whole one between angle brackets, or a handle and what follows it. A single mark
at the beginning is a handle too, and alone it is the whole of the tag. -/
def tag? (flow : Bool) (p : Cursor) : Option (Token × Cursor) := do
  let fuel := p.rest.length
  let (found, q) ←
    if p.rest.drop 1 |>.head?.any (· = '<') then do
      let (text, q) ← tagText? true fuel (p.skip 2)
      if text.isEmpty || q.peek? ≠ some '>' then none
      else some (tag "" (kept text), q.skip 1)
    else do
      let (name, q) ← handle? p
      let (text, q) ← tagText? false fuel q
      if name.length > 1 && name.getLast? = some '!' then
        if text.isEmpty then none else some (tag (String.ofList name) (kept text), q)
      else
        let text := kept (Utf8.encodeChars (name.drop 1) ++ text)
        some (if text.isEmpty then tag "" (Utf8.encode "!") else tag "!" text, q)
  if endsWord q.rest || (flow && q.peek? = some ',') then some (found, q) else none

/-! ### Directives -/

/-- Reads a number of at most nine digits. -/
def number? (p : Cursor) : Option (Nat × Cursor) := do
  let (digits, q) := p.span Ascii.isDigit
  let n ← Ascii.digits? 10 digits
  if digits.length ≤ 9 then some (n, q) else none

/-- Reads a version. -/
def version? (p : Cursor) : Option (Token × Cursor) := do
  let (major, p) ← number? p
  if p.peek? = some '.' then
    let (minor, p) ← number? (p.skip 1)
    some (version major minor, p)
  else none

/-- Reads a handle and the text that it stands for. -/
def handleText? (p : Cursor) : Option (Token × Cursor) := do
  let (name, p) ← handle? p
  if name.getLast? = some '!' && p.peek?.any isBlank then
    let (text, p) ← tagText? true p.rest.length (p.span isBlank).2
    if text.isEmpty || !endsWord p.rest then none
    else some (handle (String.ofList name) (kept text), p)
  else none

/-- Reads a directive, after the percent sign, with its line. -/
def directive? (p : Cursor) : Option (Token × Cursor) := do
  let (name, p) := p.span isNameChar
  if !endsWord p.rest then none
  else
    let p := (p.span isBlank).2
    let (found, p) ←
      if name = ['Y', 'A', 'M', 'L'] then version? p
      else if name = ['T', 'A', 'G'] then handleText? p
      else none
    let p := (p.span isBlank).2.pastComment
    if p.peek?.all isBreak then some (found, p.skip 1) else none

end Token

end Yaml

end Understudy
