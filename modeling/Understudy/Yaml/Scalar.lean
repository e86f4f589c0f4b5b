import Understudy.Text.Ascii
import Understudy.Text.Utf8
import Understudy.Yaml.Cursor

/-!
# Understudy.Yaml.Scalar

Reading the text of scalars.

A plain or quoted scalar is a row of runs with gaps between them. `fold` says what a gap stands for:
blanks within a line stand for themselves, a single line feed for a space, and of several line ends
the first is dropped. A block scalar is a row of lines of one indentation; a literal one keeps its
line ends, and a folded one folds those between two lines that do not begin with a blank.

Every reader starts after the indicator of its scalar, and answers with the text and the place after
the scalar. The loops carry as fuel the number of characters that are left.
-/

namespace Understudy

namespace Yaml

/-- How a scalar is written. -/
inductive Style where
  | plain
  | quoted
  | literal
  | folded
deriving Repr, DecidableEq

/-- A tag. It is octets and not text: percent signs can spell octets in it that are no UTF-8. -/
abbrev Tag := Bytes

namespace Scalar

/-! ### Gaps -/

/-- Folds line ends: a line feed followed by others is dropped, and one that is alone is a space. -/
def foldBreaks : List Char → List Char
  | [] => []
  | b :: bs => if b = '\n' then (if bs.isEmpty then [' '] else bs) else b :: bs

/-- What a gap between two runs stands for. -/
def fold (gap : List Char) : List Char :=
  if gap.any isBreak then foldBreaks (gap.filter isBreak) else gap

/-- What a gap stands for whose first line end is escaped: the line ends after that one. -/
def foldEscaped (gap : List Char) : List Char := (gap.filter isBreak).drop 1

/-! ### Plain scalars -/

/-- Whether a character opens, closes or divides a flow collection. -/
def isFlowIndicator (c : Char) : Bool :=
  c = ',' || c = '[' || c = ']' || c = '\x7b' || c = '\x7d'

/-- A run of a plain scalar: the characters up to a gap, to a colon that ends a word, and within a
flow collection to an indicator. There is no run if a colon meets an indicator there. -/
def plainRun? (flow : Bool) : List Char → Option (List Char)
  | [] => some []
  | c :: rest =>
    if isGap c then some []
    else if flow && c = ':' && rest.head?.any (fun d => isFlowIndicator d || d = '?') then none
    else if (c = ':' && endsWord rest) || (flow && isFlowIndicator c) then some []
    else (plainRun? flow rest).map (c :: ·)

/-- Whether a gap has a tab in the indentation of a line, before the column `indent`. `column` is
the place in the line, if a line has ended before. -/
def tabInIndent (indent : Nat) : Option Nat → List Char → Bool
  | _, [] => false
  | column, c :: gap =>
    if isBreak c then tabInIndent indent (some 0) gap
    else column.any (fun k => c = '\t' && k < indent) || tabInIndent indent (column.map (· + 1)) gap

/-- Reads runs of a plain scalar after a gap. The answer says whether a line ends after the last
run. -/
def plainFrom? (flow : Bool) (indent : Nat) :
    Nat → List Char → Cursor → Option (List Char × Bool × Cursor)
  | 0, _, _ => none
  | fuel + 1, gap, p =>
    let stop := some ([], gap.any isBreak, p)
    if p.isAnyMarker || p.peek? = some '#' then stop
    else do
      let run ← plainRun? flow p.rest
      if run.isEmpty then stop
      else
        let p := p.past run
        let (next, q) := p.span isGap
        let text := fold gap ++ run
        if next.isEmpty then some (text, false, p)
        else if tabInIndent indent none next then none
        else if !flow && q.column < indent then some (text, next.any isBreak, q)
        else
          let (more, ends, q) ← plainFrom? flow indent fuel next q
          some (text ++ more, ends, q)

/-- Reads a plain scalar whose lines start at the column `indent` or after it. -/
def plain? (flow : Bool) (indent : Nat) (p : Cursor) : Option (List Char × Bool × Cursor) :=
  plainFrom? flow indent (p.rest.length + 1) [] p

/-! ### Quoted scalars -/

/-- What follows a backslash: a character by name, or hexadecimal digits of one. -/
inductive Escape where
  | char (c : Char)
  | digits (count : Nat)

/-- The escape that a letter names. -/
def escape? (c : Char) : Option Escape :=
  if c = '0' then some (.char '\x00')
  else if c = 'a' then some (.char '\x07')
  else if c = 'b' then some (.char '\x08')
  else if c = 't' || c = '\t' then some (.char '\t')
  else if c = 'n' then some (.char '\n')
  else if c = 'v' then some (.char '\x0b')
  else if c = 'f' then some (.char '\x0c')
  else if c = 'r' then some (.char '\r')
  else if c = 'e' then some (.char '\x1b')
  else if c = ' ' || c = '"' || c = '/' || c = '\\' then some (.char c)
  else if c = 'N' then some (.char '\u0085')
  else if c = '_' then some (.char '\u00A0')
  else if c = 'L' then some (.char '\u2028')
  else if c = 'P' then some (.char '\u2029')
  else if c = 'x' then some (.digits 2)
  else if c = 'u' then some (.digits 4)
  else if c = 'U' then some (.digits 8)
  else none

/-- The character with a number. -/
def ofCode? (n : Nat) : Option Char := if n.isValidChar then some (Char.ofNat n) else none

/-- A run in single quotes, and how many characters spell it. Two quotes stand for one. -/
def singleRun : List Char → List Char × Nat
  | [] => ([], 0)
  | c :: rest =>
    if isGap c then ([], 0)
    else if c = '\'' then
      match rest with
      | '\'' :: rest' => let (run, n) := singleRun rest'; ('\'' :: run, n + 2)
      | _ => ([], 0)
    else let (run, n) := singleRun rest; (c :: run, n + 1)

/-- A run in double quotes, and how many characters spell it. An escaped line end ends it. -/
def doubleRun? (cs : List Char) : Option (List Char × Nat) :=
  match cs with
  | [] => some ([], 0)
  | c :: rest =>
    if isGap c || c = '"' then some ([], 0)
    else if c = '\\' then
      match rest with
      | [] => none
      | e :: rest' =>
        if isBreak e then some ([], 0)
        else
          match escape? e with
          | none => none
          | some (.char x) => (doubleRun? rest').map fun more => (x :: more.1, more.2 + 2)
          | some (.digits k) =>
            if rest'.length < k then none
            else do
              let x ← (Ascii.digits? 16 (rest'.take k)).bind ofCode?
              let (run, n) ← doubleRun? (rest'.drop k)
              some (x :: run, n + k + 2)
    else (doubleRun? rest).map fun more => (c :: more.1, more.2 + 1)
termination_by cs.length
decreasing_by all_goals simp only [List.length_cons, List.length_drop]; omega

/-- Reads a run of a quoted scalar. -/
def quotedRun? (double : Bool) (cs : List Char) : Option (List Char × Nat) :=
  if double then doubleRun? cs else some (singleRun cs)

/-- Reads a quoted scalar to the end. No line of it may be the mark of a document's beginning or
end. -/
def quotedFrom? (double : Bool) : Nat → Cursor → Option (List Char × Cursor)
  | 0, _ => none
  | fuel + 1, p =>
    if p.isAnyMarker then none
    else do
      let (run, n) ← quotedRun? double p.rest
      let p := p.skip n
      let c ← p.peek?
      if c = (if double then '"' else '\'') then some (run, p.skip 1)
      else
        let escaped := double && c = '\\'
        let (gap, q) := (if escaped then p.skip 1 else p).span isGap
        let (more, q) ← quotedFrom? double fuel q
        some (run ++ (if escaped then foldEscaped gap else fold gap) ++ more, q)

/-- Reads a quoted scalar after its opening quote. -/
def quoted? (double : Bool) (p : Cursor) : Option (List Char × Cursor) :=
  quotedFrom? double (p.rest.length + 1) p

/-! ### Block scalars -/

/-- What becomes of the line ends at the end of a block scalar. -/
inductive Chomping where
  | strip
  | clip
  | keep
deriving Repr, DecidableEq

/-- The chomping that an indicator asks for. -/
def chomping? (c : Char) : Option Chomping :=
  if c = '+' then some .keep else if c = '-' then some .strip else none

/-- The indentation that an indicator asks for. -/
def increment? (c : Char) : Option Nat := (Ascii.digit? c).filter (· ≠ 0)

/-- Reads the indicators of a block scalar: one of each kind at most, in either order. A zero is not
an indentation. -/
def indicators? (p : Cursor) : Option (Chomping × Option Nat × Cursor) :=
  let (marks, q) := (p.rest.takeWhile fun c => (chomping? c).isSome || Ascii.isDigit c, p)
  match marks with
  | [] => some (.clip, none, q)
  | [a] =>
    match chomping? a, increment? a with
    | some chomp, _ => some (chomp, none, q.skip 1)
    | _, some n => some (.clip, some n, q.skip 1)
    | _, _ => none
  | [a, b] =>
    match chomping? a, increment? b, increment? a, chomping? b with
    | some chomp, some n, _, _ => some (chomp, some n, q.skip 2)
    | _, _, some n, some chomp => some (chomp, some n, q.skip 2)
    | _, _, _, _ => none
  | _ => none

/-- Skips lines that are empty up to the indentation, or all blank while there is none yet: their
line ends, the widest indentation on the way, and the place of the next line's text. A tab must not
stand in the indentation. -/
def emptyLines? (indent : Option Nat) :
    Nat → Nat → Cursor → Option (List Char × Nat × Cursor)
  | 0, _, _ => none
  | fuel + 1, widest, p =>
    let spaces := p.rest.takeWhile (· = ' ')
    let p := p.past (match indent with
      | none => spaces
      | some k => spaces.take (k - p.column))
    let widest := max widest p.column
    if p.peek? = some '\t' && indent.all (p.column < ·) then none
    else
      match p.peek? with
      | some c =>
        if isBreak c then do
          let (breaks, widest, p) ← emptyLines? indent fuel widest (p.skip 1)
          some (c :: breaks, widest, p)
        else some ([], widest, p)
      | none => some ([], widest, p)

/-- The lines of a block scalar, the line end of the last one, and the line ends after that. -/
structure Block where
  text : List Char
  lastBreak : List Char
  trailing : List Char

/-- Reads the lines of a block scalar after one that ends with `lastBreak`, and after empty ones. -/
def blockLines? (literal : Bool) (indent : Nat) (afterBlank : Bool) :
    Nat → List Char → List Char → Cursor → Option (Block × Cursor)
  | 0, _, _, _ => none
  | fuel + 1, lastBreak, breaks, p =>
    if p.column ≠ indent || p.rest.isEmpty then some (⟨[], lastBreak, breaks⟩, p)
    else do
      let blank := p.peek?.any isBlank
      let joint :=
        if !literal && lastBreak = ['\n'] && !afterBlank && !blank then
          (if breaks.isEmpty then [' '] else [])
        else lastBreak
      let (line, p) := p.span fun c => !isBreak c
      let ending := p.rest.take 1
      let (next, _, p) ← emptyLines? (some indent) (p.rest.length + 1) 0 (p.skip 1)
      let (block, p) ← blockLines? literal indent blank fuel ending next p
      some (⟨joint ++ breaks ++ line ++ block.text, block.lastBreak, block.trailing⟩, p)

/-- Reads a block scalar within lines that are indented by less than `indent`. -/
def block? (literal : Bool) (indent : Nat) (p : Cursor) : Option (List Char × Cursor) := do
  let (chomp, increment, p) ← indicators? p
  let p := (p.span isBlank).2.pastComment
  if p.peek?.any fun c => !isBreak c then none
  else
    let p := p.skip 1
    let fixed := increment.map fun n => if indent = 0 then n else indent - 1 + n
    let (breaks, widest, p) ← emptyLines? fixed (p.rest.length + 1) 0 p
    let width := fixed.getD (max widest (max indent 1))
    let (block, p) ← blockLines? literal width false (p.rest.length + 1) [] breaks p
    let ending :=
      match chomp with
      | .strip => []
      | .clip => block.lastBreak
      | .keep => block.lastBreak ++ block.trailing
    some (block.text ++ ending, p)

end Scalar

end Yaml

end Understudy
