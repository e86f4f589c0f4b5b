import Understudy.Text.Utf8

/-!
# Understudy.Digest.Sha1

The SHA-1 digest of octets.

A message is padded to blocks of 64 octets, of which the last eight hold its length in bits. Each
block is extended from 16 words to 80, and every word turns the state of five words once.
-/

namespace Understudy

namespace Sha1

/-- The word with its bits rotated to the left. -/
def rotate (x n : UInt32) : UInt32 := (x <<< n) ||| (x >>> (32 - n))

/-- The five words that a digest is made of. -/
structure State where
  a : UInt32
  b : UInt32
  c : UInt32
  d : UInt32
  e : UInt32
deriving Repr, DecidableEq

/-- The state before the first block. -/
def State.start : State := ⟨0x67452301, 0xEFCDAB89, 0x98BADCFE, 0x10325476, 0xC3D2E1F0⟩

/-! ### Words -/

/-- The octets of a number, most significant first. -/
def octetsOf : Nat → Nat → Bytes
  | 0, _ => []
  | count + 1, n => .ofNat (n / Nat.pow 256 count) :: octetsOf count n

/-- The words that octets make up, four for each. -/
def words : Bytes → List UInt32
  | a :: b :: c :: d :: rest =>
    (a.toUInt32 <<< 24 ||| b.toUInt32 <<< 16 ||| c.toUInt32 <<< 8 ||| d.toUInt32) :: words rest
  | _ => []

/-- The message with a set bit, as few zeros as possible, and its length in bits. -/
def pad (message : Bytes) : Bytes :=
  let zeros := (119 - message.length % 64) % 64
  message ++ 0x80 :: List.replicate zeros 0 ++ octetsOf 8 (8 * message.length)

/-! ### Blocks -/

/-- Extends a schedule of words, which is kept last first. -/
def extend : Nat → List UInt32 → List UInt32
  | 0, ws => ws
  | n + 1, ws =>
    extend n (rotate (ws.getD 2 0 ^^^ ws.getD 7 0 ^^^ ws.getD 13 0 ^^^ ws.getD 15 0) 1 :: ws)

/-- The mixing of three words, and the constant of a round. -/
def mix (round : Nat) (b c d : UInt32) : UInt32 × UInt32 :=
  if round < 20 then ((b &&& c) ||| (~~~b &&& d), 0x5A827999)
  else if round < 40 then (b ^^^ c ^^^ d, 0x6ED9EBA1)
  else if round < 60 then ((b &&& c) ||| (b &&& d) ||| (c &&& d), 0x8F1BBCDC)
  else (b ^^^ c ^^^ d, 0xCA62C1D6)

/-- Turns the state once, with a word of the block. -/
def turn (round : Nat) (w : UInt32) (s : State) : State :=
  let (f, k) := mix round s.b s.c s.d
  ⟨rotate s.a 5 + f + s.e + k + w, s.a, rotate s.b 30, s.c, s.d⟩

/-- Turns the state by the words of rounds. -/
def turns : Nat → List UInt32 → State → State
  | _, [], s => s
  | round, w :: ws, s => turns (round + 1) ws (turn round w s)

/-- The state after a block of 16 words. -/
def compress (s : State) (block : List UInt32) : State :=
  let t := turns 0 (extend 64 block.reverse).reverse s
  ⟨s.a + t.a, s.b + t.b, s.c + t.c, s.d + t.d, s.e + t.e⟩

/-- The state after words, of which 16 make a block. -/
def compressAll (s : State) (ws : List UInt32) : State :=
  if ws.length < 16 then s else compressAll (compress s (ws.take 16)) (ws.drop 16)
termination_by ws.length
decreasing_by simp only [List.length_drop]; omega

/-- The digest of a message, which takes 20 octets. -/
def digest (message : Bytes) : Bytes :=
  let s := compressAll .start (words (pad message))
  [s.a, s.b, s.c, s.d, s.e].flatMap fun w => octetsOf 4 w.toNat

end Sha1

end Understudy
