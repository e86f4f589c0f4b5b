import Understudy.Text.Utf8
import Understudy.Text.Ascii

/-!
# Understudy.Text.Percent

Percent-encoding of queries, as a writer and a reader.

`encode` writes every octet other than an ASCII letter or digit as `%` and two hexadecimal digits.
Reading is tolerant: a `%` that two hexadecimal digits do not follow stands for itself. A form field
(`decodeField`) writes a space as `+` as well, and is kept as it stands, spaces aside, when what it
encodes is not UTF-8.
-/

namespace Understudy

namespace Percent

/-- The octet `%`. -/
def sign : UInt8 := 0x25

/-- The value of an octet that writes a hexadecimal digit. -/
def hexOctet? (b : UInt8) : Option Nat := Ascii.hex? (Char.ofNat b.toNat)

/-- Reads escapes; all other octets stand for themselves. -/
def decode : Bytes → Bytes
  | [] => []
  | b :: bs =>
    if b = sign then
      match bs with
      | h :: l :: rest =>
        match hexOctet? h, hexOctet? l with
        | some high, some low => .ofNat (high * 16 + low) :: decode rest
        | _, _ => b :: decode (h :: l :: rest)
      | rest => b :: decode rest
    else b :: decode bs

/-- Whether an octet is an ASCII letter or digit and so is written as it stands. -/
def isPlain (b : UInt8) : Bool := b < 0x80 && (Char.ofNat b.toNat).isAlphanum

/-- Writes an octet. -/
def encodeOctet (b : UInt8) : List Char :=
  if isPlain b then [Char.ofNat b.toNat] else '%' :: Ascii.hexOctet b

/-- Writes a text so that `decodeField` reads it back. -/
def encode (cs : List Char) : List Char := (Utf8.encodeChars cs).flatMap encodeOctet

/-- The text of a field: `+` is a space, then escapes are read; what they spell is kept only if it
is well-formed UTF-8. -/
def decodeField (cs : List Char) : String :=
  let spaced := cs.map fun c => if c = '+' then ' ' else c
  (Utf8.decode? (decode (Utf8.encodeChars spaced))).getD (String.ofList spaced)

end Percent

end Understudy
