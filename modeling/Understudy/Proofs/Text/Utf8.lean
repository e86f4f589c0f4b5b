import Understudy.Text.Utf8

/-!
# Understudy.Proofs.Text.Utf8

Texts are read back from UTF-8 as they were written.

The first octet of a character leaves it open with its leading bits and with the range of the next
octet (`start_two`, `start_three`, `start_four`); every further octet adds six bits
(`scanFrom_more`, `scanFrom_last`). What a character writes is therefore read as that character,
whatever follows it (`scanFrom_encodeChar`). The narrow ranges after some first octets leave out
overlong forms, surrogates and values that are too large: no character writes one of those.
-/

namespace Understudy

namespace Utf8

theorem toNat_octet {v : Nat} (h : v < 0x100) : (UInt8.ofNat v).toNat = v :=
  UInt8.toNat_ofNat_of_lt h

/-! ### First octets -/

theorem start_one {v : Nat} (h : v < 0x80) : start (.ofNat v) = ([some (Char.ofNat v)], none) := by
  rw [start, toNat_octet (by omega)]
  exact if_pos h

theorem start_two : ∀ v < 0x20, 2 ≤ v →
    start (.ofNat (0xC0 + v)) = ([], some ⟨v, 1, 0x80, 0xBF⟩) := by
  decide

theorem start_three : ∀ v < 0x10, start (.ofNat (0xE0 + v)) =
    ([], some ⟨v, 2, if v = 0 then 0xA0 else 0x80, if v = 0xD then 0x9F else 0xBF⟩) := by
  decide

theorem start_four : ∀ v < 5, start (.ofNat (0xF0 + v)) =
    ([], some ⟨v, 3, if v = 0 then 0x90 else 0x80, if v = 4 then 0x8F else 0xBF⟩) := by
  decide

/-! ### Further octets -/

section Further

variable {value low high d : Nat} (hd : d < 0x40) (hlow : low ≤ 0x80 + d) (hhigh : 0x80 + d ≤ high)
include hd hlow hhigh

theorem scanFrom_more (owed : Nat) (bs : Bytes) :
    scanFrom (some ⟨value, owed + 2, low, high⟩) (.ofNat (0x80 + d) :: bs) =
      scanFrom (some ⟨value * 0x40 + d, owed + 1, 0x80, 0xBF⟩) bs := by
  rw [scanFrom, step, toNat_octet (by omega)]
  simp [hlow, hhigh]

theorem scanFrom_last (bs : Bytes) :
    scanFrom (some ⟨value, 1, low, high⟩) (.ofNat (0x80 + d) :: bs) =
      some (Char.ofNat (value * 0x40 + d)) :: scanFrom none bs := by
  rw [scanFrom, step, toNat_octet (by omega)]
  simp [hlow, hhigh]

end Further

/-! ### Characters -/

/-- A character is below the surrogates, or between them and the end of the code points. -/
theorem toNat_range (c : Char) :
    c.toNat < 0xD800 ∨ 0xDFFF < c.toNat ∧ c.toNat < 0x110000 := c.valid

theorem scanFrom_start {b : UInt8} {p : Partial} (h : start b = ([], some p)) (bs : Bytes) :
    scanFrom none (b :: bs) = scanFrom (some p) bs := by
  rw [scanFrom, step, h]
  rfl

/-- A character that is written is read back, whatever follows it. -/
theorem scanFrom_encodeChar (c : Char) (bs : Bytes) :
    scanFrom none (encodeChar c ++ bs) = some c :: scanFrom none bs := by
  have hrange := toNat_range c
  have hc : Char.ofNat c.toNat = c := Char.ofNat_toNat c
  generalize hv : c.toNat = v at hrange hc
  rw [encodeChar, hv]
  -- one case for each number of octets
  split
  · rename_i hone
    rw [List.singleton_append, scanFrom, step, start_one hone, hc]
    rfl
  · rename_i hone
    split
    · rename_i htwo
      rw [List.cons_append, List.singleton_append,
        scanFrom_start (start_two (v / 0x40) (by omega) (by omega)),
        scanFrom_last (by omega) (by omega) (by omega),
        show v / 0x40 * 0x40 + v % 0x40 = v by omega, hc]
    · rename_i htwo
      split
      · rename_i hthree
        rw [List.cons_append, List.cons_append, List.singleton_append,
          scanFrom_start (start_three (v / 0x1000) (by omega)),
          scanFrom_more (by omega) (by split <;> omega) (by split <;> omega),
          scanFrom_last (by omega) (by omega) (by omega),
          show (v / 0x1000 * 0x40 + v / 0x40 % 0x40) * 0x40 + v % 0x40 = v by omega, hc]
      · rename_i hthree
        rw [List.cons_append, List.cons_append, List.cons_append, List.singleton_append,
          scanFrom_start (start_four (v / 0x40000) (by omega)),
          scanFrom_more (by omega) (by split <;> omega) (by split <;> omega),
          scanFrom_more (by omega) (by omega) (by omega),
          scanFrom_last (by omega) (by omega) (by omega),
          show ((v / 0x40000 * 0x40 + v / 0x1000 % 0x40) * 0x40 + v / 0x40 % 0x40) * 0x40 +
            v % 0x40 = v by omega, hc]

/-! ### Texts -/

theorem scan_encodeChars (cs : List Char) : scan (encodeChars cs) = cs.map some := by
  induction cs with
  | nil => rfl
  | cons c cs ih =>
    rw [encodeChars_cons, scan, scanFrom_encodeChar, List.map_cons, ← ih, scan]

theorem allSome_map_some {α : Type} (as : List α) : allSome (as.map some) = some as := by
  induction as with
  | nil => rfl
  | cons a as ih =>
    rw [List.map_cons, allSome, ih]
    rfl

/-- Every text is well-formed as it is written, and is read back. -/
theorem decode?_encodeChars (cs : List Char) :
    decode? (encodeChars cs) = some (String.ofList cs) := by
  rw [decode?, scan_encodeChars, allSome_map_some]
  rfl

end Utf8

end Understudy
