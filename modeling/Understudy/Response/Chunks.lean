import Understudy.Text.Utf8

/-!
# Understudy.Response.Chunks

The chunks that a body is sent in.

`spans` says where each chunk starts and ends, and `split` cuts a body there. Every chunk but the
last has the greatest size that is allowed; a size of zero counts as one.

`wordSpans?` is the same computation over 64-bit words, as a loop that checks every sum.
-/

namespace Understudy

namespace Chunks

/-! ### Spans -/

/-- The greatest size of a chunk, unless settings say otherwise. -/
def defaultMaxSize : Nat := 204800

/-- The size of all chunks but the last, which is not zero so that the spans come to an end. -/
def sizeOf (maxSize : Nat) : Nat := max maxSize 1

theorem sizeOf_pos (maxSize : Nat) : 0 < sizeOf maxSize :=
  Nat.lt_of_lt_of_le Nat.zero_lt_one (Nat.le_max_right maxSize 1)

/-- Where the chunks of `length` octets start and end, from a position on. -/
def spansFrom (size length : Nat) (h : 0 < size) (offset : Nat) : List (Nat × Nat) :=
  if offset < length then
    (offset, min (offset + size) length) :: spansFrom size length h (min (offset + size) length)
  else []
termination_by length - offset

/-- Where the chunks of `length` octets start and end. -/
def spans (maxSize length : Nat) : List (Nat × Nat) :=
  spansFrom (sizeOf maxSize) length (sizeOf_pos maxSize) 0

/-- The chunks of a body. -/
def split (maxSize : Nat) (octets : Bytes) : List Bytes :=
  (spans maxSize octets.length).map fun span => (octets.drop span.1).take (span.2 - span.1)

/-! ### Words -/

/-- Lengths of octets are below this, which is half of what a word can be. -/
def lengthBound : Nat := 9223372036854775808

/-- The size of all chunks but the last, as a word. -/
def wordSize (maxSize : UInt64) : UInt64 := if maxSize = 0 then 1 else maxSize

theorem toNat_wordSize (maxSize : UInt64) : (wordSize maxSize).toNat = sizeOf maxSize.toNat := by
  rw [wordSize, sizeOf]
  split
  next hzero => rw [hzero]; rfl
  next hpos =>
    have hne : maxSize.toNat ≠ 0 := fun h => hpos (UInt64.toNat_inj.mp h)
    exact (Nat.max_eq_left (Nat.one_le_iff_ne_zero.mpr hne)).symm

/-- Where the span of words from an offset ends. -/
def wordEnd (size length offset : UInt64) : UInt64 :=
  if offset + size ≤ length then offset + size else length

theorem toNat_wordEnd {size length offset : UInt64}
    (hsum : offset.toNat + size.toNat < UInt64.size) :
    (wordEnd size length offset).toNat = min (offset.toNat + size.toNat) length.toNat := by
  have hadd : (offset + size).toNat = offset.toNat + size.toNat := by
    rw [UInt64.toNat_add, Nat.mod_eq_of_lt hsum]
  rw [wordEnd, ← hadd]
  split
  next hle => exact (Nat.min_eq_left (UInt64.le_iff_toNat_le.mp hle)).symm
  next hgt => exact (Nat.min_eq_right (by rw [UInt64.le_iff_toNat_le] at hgt; omega)).symm

/-- The spans that a loop over words finds from an offset on. There are none if a sum is too large
for a word. -/
def wordSpansFrom? (size length : UInt64) (h : 0 < size.toNat) (offset : UInt64) :
    Option (List (UInt64 × UInt64)) :=
  if offset < length then
    if offset.toNat + size.toNat < UInt64.size then
      (wordSpansFrom? size length h (wordEnd size length offset)).map
        ((offset, wordEnd size length offset) :: ·)
    else none
  else some []
termination_by length.toNat - offset.toNat
decreasing_by
  rename_i hlt hsum
  rw [toNat_wordEnd hsum]
  rw [UInt64.lt_iff_toNat_lt] at hlt
  omega

/-- The spans that a loop over words finds. There are none if their number, rounded up for a list
that holds them, is too large for a word. Memory has a bound below that, which is left out: only
bodies that it cannot hold come to it. -/
def wordSpans? (maxSize length : UInt64) : Option (List (UInt64 × UInt64)) :=
  if (length / wordSize maxSize).toNat + 1 < UInt64.size then
    wordSpansFrom? (wordSize maxSize) length (toNat_wordSize maxSize ▸ sizeOf_pos _) 0
  else none

end Chunks

end Understudy
