/-!
# Understudy.Text.Ascii

Letter case and hexadecimal digits, in the ASCII range only: methods, header names and escapes are
ASCII by their grammars, and every other character stands for itself.
-/

namespace Understudy

namespace Ascii

/-- The text with `a` to `z` written as `A` to `Z`. -/
def upper (s : String) : String := String.ofList (s.toList.map Char.toUpper)

/-- The text with `A` to `Z` written as `a` to `z`. -/
def lower (s : String) : String := String.ofList (s.toList.map Char.toLower)

/-- Whether two texts differ at most in the case of their letters. -/
def sameLetters (s t : String) : Bool := lower s == lower t

/-- The value of a decimal digit. -/
def digit? (c : Char) : Option Nat :=
  if '0' ≤ c ∧ c ≤ '9' then some (c.toNat - '0'.toNat) else none

/-- Whether a character is a decimal digit. -/
def isDigit (c : Char) : Bool := (digit? c).isSome

/-- The value of a hexadecimal digit, in either case. -/
def hex? (c : Char) : Option Nat :=
  if '0' ≤ c ∧ c ≤ '9' then some (c.toNat - '0'.toNat)
  else if 'a' ≤ c ∧ c ≤ 'f' then some (c.toNat - 'a'.toNat + 10)
  else if 'A' ≤ c ∧ c ≤ 'F' then some (c.toNat - 'A'.toNat + 10)
  else none

/-- The hexadecimal digit of a value below 16, in lower case. -/
def hexDigit (n : Nat) : Char :=
  if n < 10 then Char.ofNat ('0'.toNat + n) else Char.ofNat ('a'.toNat + (n - 10))

/-- The two hexadecimal digits of an octet. -/
def hexOctet (b : UInt8) : List Char := [hexDigit (b.toNat / 16), hexDigit (b.toNat % 16)]

/-- The value of digits in a base, most significant first, if every character is a digit of the
base and there is one. -/
def digits? (base : Nat) : List Char → Option Nat
  | [] => none
  | c :: cs => (c :: cs).foldl (fun n c => do
      let n ← n
      let d ← hex? c
      if d < base then some (n * base + d) else none) (some 0)

/-- A number in decimal digits. -/
def decimal (n : Nat) : List Char := Nat.toDigits 10 n

end Ascii

end Understudy
