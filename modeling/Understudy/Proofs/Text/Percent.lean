import Understudy.Proofs.Text.Utf8
import Understudy.Text.Percent

/-!
# Understudy.Proofs.Text.Percent

The fields of a form are read back as they were written.

`Writes` says which characters write which octets; there are several ways, since every octet may be
escaped, with digits in either case, and a space has a sign of its own. All of them are read as the
same octets (`Writes.decode`), and so as the same text (`Writes.decodeField`). None of them has a
character that separates fields (`Writes.mem`), and `encode` is one of them (`writes_encode`).
-/

namespace Understudy

namespace Utf8

theorem encodeChar_of_ascii {c : Char} (h : c.toNat < 0x80) :
    encodeChar c = [UInt8.ofNat c.toNat] := by
  rw [encodeChar]
  exact if_pos h

end Utf8

namespace Ascii

theorem toNat_ofNat {n : Nat} (h : n < 0xD800) : (Char.ofNat n).toNat = n := by
  rw [Char.ofNat, dif_pos (Or.inl h)]
  rfl

theorem isAlphanum_iff {c : Char} : c.isAlphanum = true ↔
    0x30 ≤ c.toNat ∧ c.toNat ≤ 0x39 ∨ 0x41 ≤ c.toNat ∧ c.toNat ≤ 0x5A ∨
      0x61 ≤ c.toNat ∧ c.toNat ≤ 0x7A := by
  show ((decide (0x41 ≤ c.val ∧ c.val ≤ 0x5A) ||
    (decide (0x61 ≤ c.val) && decide (c.val ≤ 0x7A))) ||
    (decide (0x30 ≤ c.val) && decide (c.val ≤ 0x39))) = true ↔ _
  simp only [Bool.or_eq_true, Bool.and_eq_true, decide_eq_true_eq, UInt32.le_iff_toNat_le]
  show ((0x41 ≤ c.toNat ∧ c.toNat ≤ 0x5A ∨ 0x61 ≤ c.toNat ∧ c.toNat ≤ 0x7A) ∨
    0x30 ≤ c.toNat ∧ c.toNat ≤ 0x39) ↔ _
  omega

/-- A hexadecimal digit is a letter or a digit. -/
theorem isAlphanum_of_hex? {c : Char} {n : Nat} (h : hex? c = some n) : c.isAlphanum = true := by
  unfold hex? at h
  rw [isAlphanum_iff]
  split at h
  · rename_i hdigit
    exact Or.inl hdigit
  · split at h
    · rename_i hlower
      have hle : c.toNat ≤ 0x66 := hlower.2
      exact Or.inr (Or.inr ⟨hlower.1, by omega⟩)
    · split at h
      · rename_i hupper
        have hle : c.toNat ≤ 0x46 := hupper.2
        exact Or.inr (Or.inl ⟨hupper.1, by omega⟩)
      · cases h

theorem toNat_lt_of_isAlphanum {c : Char} (h : c.isAlphanum = true) : c.toNat < 0x80 := by
  rw [isAlphanum_iff] at h
  omega

theorem hex?_hexDigit : ∀ n < 16, hex? (hexDigit n) = some n := by decide

end Ascii

namespace Percent

/-- Whether characters write octets as a field of a form: a letter or digit may stand for itself,
`+` is a space, and every octet may be written as `%` and two hexadecimal digits of either case. -/
inductive Writes : List Char → Bytes → Prop where
  | nil : Writes [] []
  | plain {b : UInt8} {cs : List Char} {bs : Bytes} : isPlain b = true → Writes cs bs →
      Writes (Char.ofNat b.toNat :: cs) (b :: bs)
  | space {cs : List Char} {bs : Bytes} : Writes cs bs → Writes ('+' :: cs) (0x20 :: bs)
  | escape {b : UInt8} {high low : Char} {cs : List Char} {bs : Bytes} :
      Ascii.hex? high = some (b.toNat / 16) → Ascii.hex? low = some (b.toNat % 16) →
      Writes cs bs → Writes ('%' :: high :: low :: cs) (b :: bs)

theorem isPlain_iff {b : UInt8} :
    isPlain b = true ↔ b.toNat < 0x80 ∧ (Char.ofNat b.toNat).isAlphanum = true := by
  simp [isPlain, UInt8.lt_iff_toNat_lt]

/-- Octets that are escaped one by one write themselves. -/
theorem writes_flatMap_encodeOctet (bs : Bytes) : Writes (bs.flatMap encodeOctet) bs := by
  induction bs with
  | nil => exact .nil
  | cons b bs ih =>
    have hb : b.toNat < 0x100 := b.toNat_lt
    rw [List.flatMap_cons, encodeOctet]
    split
    · rename_i hplain
      exact .plain hplain ih
    · exact .escape (Ascii.hex?_hexDigit _ (by omega)) (Ascii.hex?_hexDigit _ (by omega)) ih

theorem writes_encode (cs : List Char) : Writes (encode cs) (Utf8.encodeChars cs) :=
  writes_flatMap_encodeOctet _

/-- A written field has no separators. -/
theorem Writes.mem {cs : List Char} {bs : Bytes} (h : Writes cs bs) {c : Char} (hc : c ∈ cs) :
    c.isAlphanum = true ∨ c = '%' ∨ c = '+' := by
  induction h with
  | nil => cases hc
  | plain hplain _ ih =>
    rcases List.mem_cons.mp hc with rfl | hc
    · exact Or.inl (isPlain_iff.mp hplain).2
    · exact ih hc
  | space _ ih =>
    rcases List.mem_cons.mp hc with rfl | hc
    · exact Or.inr (Or.inr rfl)
    · exact ih hc
  | escape hhigh hlow _ ih =>
    rcases List.mem_cons.mp hc with rfl | hc
    · exact Or.inr (Or.inl rfl)
    · rcases List.mem_cons.mp hc with rfl | hc
      · exact Or.inl (Ascii.isAlphanum_of_hex? hhigh)
      · rcases List.mem_cons.mp hc with rfl | hc
        · exact Or.inl (Ascii.isAlphanum_of_hex? hlow)
        · exact ih hc

/-! ### Reading -/

/-- The octets from which the escapes of a field are read. -/
def octets (cs : List Char) : Bytes := Utf8.encodeChars (cs.map fun c => if c = '+' then ' ' else c)

theorem octets_cons {c : Char} (hascii : c.toNat < 0x80) (hplus : c ≠ '+') (cs : List Char) :
    octets (c :: cs) = .ofNat c.toNat :: octets cs := by
  rw [octets, List.map_cons, if_neg hplus, Utf8.encodeChars_cons, Utf8.encodeChar_of_ascii hascii,
    List.singleton_append, octets]

theorem octets_cons_alphanum {c : Char} (h : c.isAlphanum = true) (cs : List Char) :
    octets (c :: cs) = .ofNat c.toNat :: octets cs := by
  refine octets_cons (Ascii.toNat_lt_of_isAlphanum h) ?_ cs
  rintro rfl
  exact absurd h (by decide)

theorem decode_cons {b : UInt8} (h : b ≠ sign) (bs : Bytes) :
    decode (b :: bs) = b :: decode bs := by
  conv => lhs; unfold decode
  exact if_neg h

/-- The octet of a hexadecimal digit is read as its value. -/
theorem hexOctet?_ofNat {c : Char} {n : Nat} (h : Ascii.hex? c = some n) :
    hexOctet? (.ofNat c.toNat) = some n := by
  have hc : c.toNat < 0x80 := Ascii.toNat_lt_of_isAlphanum (Ascii.isAlphanum_of_hex? h)
  rw [hexOctet?, Utf8.toNat_octet (by omega), Char.ofNat_toNat, h]

theorem decode_escape {b high low : UInt8} (hhigh : hexOctet? high = some (b.toNat / 16))
    (hlow : hexOctet? low = some (b.toNat % 16)) (bs : Bytes) :
    decode (sign :: high :: low :: bs) = b :: decode bs := by
  have hb : b.toNat / 16 * 16 + b.toNat % 16 = b.toNat := by omega
  rw [decode, if_pos rfl]
  simp only [hhigh, hlow, hb, UInt8.ofNat_toNat]

/-- However octets are written, they are what is read. -/
theorem Writes.decode {cs : List Char} {bs : Bytes} (h : Writes cs bs) :
    decode (octets cs) = bs := by
  induction h with
  | nil => rfl
  | @plain b cs bs hplain _ ih =>
    obtain ⟨hlt, halphanum⟩ := isPlain_iff.mp hplain
    have hsign : b ≠ sign := by
      rintro rfl
      exact absurd hplain (by decide)
    rw [octets_cons_alphanum halphanum, Ascii.toNat_ofNat (by omega), UInt8.ofNat_toNat,
      decode_cons hsign, ih]
  | @space cs bs _ ih =>
    show Percent.decode (0x20 :: octets cs) = 0x20 :: bs
    rw [decode_cons (by decide), ih]
  | @escape b high low cs bs hhigh hlow _ ih =>
    rw [octets_cons (by decide) (by decide), octets_cons_alphanum (Ascii.isAlphanum_of_hex? hhigh),
      octets_cons_alphanum (Ascii.isAlphanum_of_hex? hlow)]
    show Percent.decode (sign :: .ofNat high.toNat :: .ofNat low.toNat :: octets cs) = b :: bs
    rw [decode_escape (hexOctet?_ofNat hhigh) (hexOctet?_ofNat hlow), ih]

/-- A field that writes a text is read as that text. -/
theorem Writes.decodeField {cs : List Char} {s : String} (h : Writes cs (Utf8.encode s)) :
    decodeField cs = s := by
  show (Utf8.decode? (Percent.decode (octets cs))).getD _ = s
  rw [h.decode, Utf8.encode, Utf8.decode?_encodeChars, Option.getD_some, String.ofList_toList]

end Percent

end Understudy
