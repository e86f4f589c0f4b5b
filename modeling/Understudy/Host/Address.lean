import Understudy.Text.Ascii
import Understudy.Text.Cut

/-!
# Understudy.Host.Address

Numeric addresses.

An address of 32 bits is written in up to four parts with points between them. Each part is one
octet, but the last one fills all octets that are left, so `127.1` is `127.0.0.1`. A part is
hexadecimal or octal if it begins as such numbers do.
-/

namespace Understudy

namespace Address

/-- The number that a part of an address writes. -/
def part? : List Char → Option Nat
  | '0' :: 'x' :: cs => Ascii.digits? 16 cs
  | '0' :: 'X' :: cs => Ascii.digits? 16 cs
  | '0' :: c :: cs => Ascii.digits? 8 (c :: cs)
  | cs => Ascii.digits? 10 cs

/-- The number that parts fill some octets with. -/
def fill? : Nat → List Nat → Option Nat
  | octets + 1, [last] => if last < Nat.pow 256 (octets + 1) then some last else none
  | octets + 1, part :: rest =>
    if part < 256 then (fill? octets rest).map (part * Nat.pow 256 octets + ·) else none
  | _, _ => none

/-- The address that a text writes. -/
def word? (text : List Char) : Option Nat :=
  ((Text.fields '.' text).mapM part?).bind (fill? 4)

/-- The names of the machine itself, and of all its addresses of 128 bits. -/
def names : List String := ["localhost", "::", "[::]"]

/-- Whether a text is an address as it stands, or a name that needs no network to be known. -/
def isNumeric (text : String) : Bool := names.contains text || (word? text.toList).isSome

/-- The first port that anybody may take. -/
def firstFreePort : UInt16 := 1024

end Address

end Understudy
