/-!
# Understudy.Text.Utf8

UTF-8 as a writer and a reader over lists of octets.

`encode` writes a string. `scan` reads octets as a list of items: a character for every well-formed
sequence, and `none` for every *maximal ill-formed part*, that is the longest run of octets that
starts a character and cannot go on, or a single octet that starts nothing. Both decoders are views
of that one list:

* `decode?` accepts the octets when every item is a character;
* `decodeLossy` writes U+FFFD for every ill-formed part.

`takeFitting` cuts a text to a number of octets without cutting a character. `cutOctets?` does the
same with the octets of a text, where it searches backwards for an index that is a boundary.
-/

namespace Understudy

/-- A run of octets. -/
abbrev Bytes := List UInt8

namespace Utf8

/-! ### Writing -/

/-- The octets of one character. -/
def encodeChar (c : Char) : Bytes :=
  let v := c.toNat
  if v < 0x80 then
    [.ofNat v]
  else if v < 0x800 then
    [.ofNat (0xC0 + v / 0x40), .ofNat (0x80 + v % 0x40)]
  else if v < 0x10000 then
    [.ofNat (0xE0 + v / 0x1000), .ofNat (0x80 + v / 0x40 % 0x40), .ofNat (0x80 + v % 0x40)]
  else
    [.ofNat (0xF0 + v / 0x40000), .ofNat (0x80 + v / 0x1000 % 0x40),
      .ofNat (0x80 + v / 0x40 % 0x40), .ofNat (0x80 + v % 0x40)]

/-- The octets of a text. -/
def encodeChars (cs : List Char) : Bytes := cs.flatMap encodeChar

/-- The octets of a string. -/
def encode (s : String) : Bytes := encodeChars s.toList

@[simp] theorem encodeChars_nil : encodeChars [] = [] := rfl

@[simp] theorem encodeChars_cons (c : Char) (cs : List Char) :
    encodeChars (c :: cs) = encodeChar c ++ encodeChars cs := rfl

@[simp] theorem encodeChars_append (cs ds : List Char) :
    encodeChars (cs ++ ds) = encodeChars cs ++ encodeChars ds := by
  simp [encodeChars]

/-! ### Reading -/

/-- A character of which the first octets have been read: its value so far, how many octets it still
needs, and the range that the next one has to lie in. -/
structure Partial where
  value : Nat
  owed : Nat
  low : Nat
  high : Nat
deriving Repr, DecidableEq

/-- What an octet between two characters starts: the items that it completes, and the character that
it leaves open. -/
def start (b : UInt8) : List (Option Char) × Option Partial :=
  let v := b.toNat
  if v < 0x80 then ([some (Char.ofNat v)], none)
  else if v < 0xC2 then ([none], none)
  else if v < 0xE0 then ([], some ⟨v - 0xC0, 1, 0x80, 0xBF⟩)
  else if v = 0xE0 then ([], some ⟨0, 2, 0xA0, 0xBF⟩)
  else if v = 0xED then ([], some ⟨0xD, 2, 0x80, 0x9F⟩)
  else if v < 0xF0 then ([], some ⟨v - 0xE0, 2, 0x80, 0xBF⟩)
  else if v = 0xF0 then ([], some ⟨0, 3, 0x90, 0xBF⟩)
  else if v < 0xF4 then ([], some ⟨v - 0xF0, 3, 0x80, 0xBF⟩)
  else if v = 0xF4 then ([], some ⟨4, 3, 0x80, 0x8F⟩)
  else ([none], none)

/-- Reads one octet. An octet that cannot go on with the open character ends it as an ill-formed
part and is read again between characters. -/
def step : Option Partial → UInt8 → List (Option Char) × Option Partial
  | none, b => start b
  | some p, b =>
    if p.low ≤ b.toNat ∧ b.toNat ≤ p.high then
      let value := p.value * 0x40 + (b.toNat - 0x80)
      if p.owed = 1 then ([some (Char.ofNat value)], none)
      else ([], some ⟨value, p.owed - 1, 0x80, 0xBF⟩)
    else
      (none :: (start b).1, (start b).2)

/-- Reads octets after an open character. -/
def scanFrom : Option Partial → Bytes → List (Option Char)
  | none, [] => []
  | some _, [] => [none]
  | open?, b :: bs => (step open? b).1 ++ scanFrom (step open? b).2 bs

/-- Reads octets as characters and ill-formed parts. -/
def scan (bs : Bytes) : List (Option Char) := scanFrom none bs

/-- All the values of a list of options, if none is missing. -/
def allSome {α : Type} : List (Option α) → Option (List α)
  | [] => some []
  | none :: _ => none
  | some a :: rest => (allSome rest).map (a :: ·)

/-- The text that the octets write, if they are well-formed. -/
def decode? (bs : Bytes) : Option String := (allSome (scan bs)).map String.ofList

/-- The text that the octets write, with U+FFFD for every ill-formed part. -/
def decodeLossy (bs : Bytes) : String :=
  String.ofList ((scan bs).map fun item => item.getD '\uFFFD')

/-! ### Cutting -/

/-- The longest beginning of a text that takes at most `room` octets. -/
def takeFitting : Nat → List Char → List Char
  | _, [] => []
  | room, c :: cs =>
    if c.utf8Size ≤ room then c :: takeFitting (room - c.utf8Size) cs else []

/-- Whether an octet begins a character; all others go on with one. -/
def beginsChar (b : UInt8) : Bool := b.toNat < 0x80 || 0xC0 ≤ b.toNat

/-- Whether octets may be cut at an index. -/
def isBoundary (bs : Bytes) (n : Nat) : Bool := n = 0 || n = bs.length || bs[n]?.any beginsChar

/-- The last boundary at an index or before it, searched for from there backwards one by one. There
is none if the search goes past index 0. -/
def lastBoundary? (bs : Bytes) : Nat → Option Nat
  | 0 => if isBoundary bs 0 then some 0 else none
  | n + 1 => if isBoundary bs (n + 1) then some (n + 1) else lastBoundary? bs n

/-- Octets cut to a size: all of them if they fit, and otherwise those up to the last boundary. -/
def cutOctets? (room : Nat) (bs : Bytes) : Option Bytes :=
  if bs.length ≤ room then some bs else (lastBoundary? bs room).map bs.take

end Utf8

end Understudy
