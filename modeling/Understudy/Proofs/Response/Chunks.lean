import Understudy.Response.Chunks

/-!
# Understudy.Proofs.Response.Chunks

Chunks are a partition of the body.

The spans start at 0, each of them ends where the next one starts, and the last one ends with the
body. All but the last are as long as the greatest size, so the body is covered in as few chunks as
possible (`length_spansFrom`).

A loop over 64-bit words finds the same spans (`wordSpans?_eq`). It adds the greatest size to an
offset, and the sum has to be a word. At offset 0 it is the size, which is one. Any other offset is
at least the size, and it lies within the body, so neither of them is more than half of what a word
can be.
-/

namespace Understudy

namespace Chunks

/-! ### Spans -/

section Spans

variable {size length : Nat} {h : 0 < size} {offset : Nat}

theorem spansFrom_of_lt (hlt : offset < length) :
    spansFrom size length h offset =
      (offset, min (offset + size) length) ::
        spansFrom size length h (min (offset + size) length) := by
  rw [spansFrom, if_pos hlt]

theorem spansFrom_of_le (hle : length ≤ offset) : spansFrom size length h offset = [] := by
  rw [spansFrom, if_neg (Nat.not_lt.mpr hle)]

theorem spansFrom_eq_nil_iff : spansFrom size length h offset = [] ↔ length ≤ offset := by
  refine ⟨fun hnil => ?_, spansFrom_of_le⟩
  by_cases hlt : offset < length
  · rw [spansFrom_of_lt hlt] at hnil
    cases hnil
  · exact Nat.not_lt.mp hlt

/-- A span is neither empty nor too long, and lies within the body. -/
theorem bounds_of_mem_spansFrom {span : Nat × Nat} (hspan : span ∈ spansFrom size length h offset) :
    span.1 < span.2 ∧ span.2 ≤ length ∧ span.2 ≤ span.1 + size := by
  induction offset using spansFrom.induct size length h with
  | case1 offset hlt ih =>
    rw [spansFrom_of_lt hlt] at hspan
    rcases List.mem_cons.mp hspan with rfl | hspan
    · exact ⟨by simp only; omega, Nat.min_le_right _ _, Nat.min_le_left _ _⟩
    · exact ih hspan
  | case2 offset hge =>
    rw [spansFrom_of_le (Nat.not_lt.mp hge)] at hspan
    cases hspan

/-- Every span that another one follows has the greatest size. -/
theorem eq_add_of_mem_dropLast {span : Nat × Nat}
    (hspan : span ∈ (spansFrom size length h offset).dropLast) : span.2 = span.1 + size := by
  induction offset using spansFrom.induct size length h with
  | case1 offset hlt ih =>
    rw [spansFrom_of_lt hlt] at hspan
    by_cases hlast : length ≤ min (offset + size) length
    · rw [spansFrom_of_le hlast, List.dropLast_singleton] at hspan
      cases hspan
    · rw [List.dropLast_cons_of_ne_nil (mt spansFrom_eq_nil_iff.mp hlast)] at hspan
      rcases List.mem_cons.mp hspan with rfl | hspan
      · simp only
        omega
      · exact ih hspan
  | case2 offset hge =>
    rw [spansFrom_of_le (Nat.not_lt.mp hge)] at hspan
    cases hspan

/-- There are as many spans as the size is contained in what is left, rounded up. -/
theorem length_spansFrom :
    (spansFrom size length h offset).length = (length - offset + (size - 1)) / size := by
  induction offset using spansFrom.induct size length h with
  | case1 offset hlt ih =>
    rw [spansFrom_of_lt hlt, List.length_cons, ih]
    by_cases hlast : length ≤ offset + size
    · rw [Nat.min_eq_right hlast, Nat.sub_self, Nat.zero_add, Nat.div_eq_of_lt (by omega)]
      exact (Nat.div_eq_of_lt_le (by omega) (by omega)).symm
    · have hmore : length - offset + (size - 1) = length - (offset + size) + (size - 1) + size := by
        omega
      rw [Nat.min_eq_left (by omega), hmore, Nat.add_div_right _ h]
  | case2 offset hge =>
    have hle : length ≤ offset := Nat.not_lt.mp hge
    rw [spansFrom_of_le hle, Nat.sub_eq_zero_of_le hle, Nat.zero_add,
      Nat.div_eq_of_lt (by omega), List.length_nil]

end Spans

/-! ### Chunks -/

/-- The octets of a span. -/
def slice (octets : Bytes) (span : Nat × Nat) : Bytes :=
  (octets.drop span.1).take (span.2 - span.1)

theorem split_eq (maxSize : Nat) (octets : Bytes) :
    split maxSize octets = (spans maxSize octets.length).map (slice octets) := rfl

theorem length_slice {octets : Bytes} {span : Nat × Nat} (hle : span.2 ≤ octets.length) :
    (slice octets span).length = span.2 - span.1 := by
  rw [slice, List.length_take, List.length_drop]
  omega

/-- No chunk is empty or too long. -/
theorem length_of_mem_split {maxSize : Nat} {octets chunk : Bytes}
    (hchunk : chunk ∈ split maxSize octets) :
    0 < chunk.length ∧ chunk.length ≤ sizeOf maxSize := by
  rw [split_eq] at hchunk
  obtain ⟨span, hspan, rfl⟩ := List.mem_map.mp hchunk
  obtain ⟨hlt, hle, hsize⟩ := bounds_of_mem_spansFrom hspan
  rw [length_slice hle]
  omega

/-- Every chunk that another one follows has the greatest size. -/
theorem length_of_mem_dropLast_split {maxSize : Nat} {octets chunk : Bytes}
    (hchunk : chunk ∈ (split maxSize octets).dropLast) : chunk.length = sizeOf maxSize := by
  rw [split_eq, ← List.map_dropLast] at hchunk
  obtain ⟨span, hspan, rfl⟩ := List.mem_map.mp hchunk
  obtain ⟨-, hle, -⟩ := bounds_of_mem_spansFrom ((List.dropLast_sublist _).mem hspan)
  have hend : span.2 = span.1 + sizeOf maxSize := eq_add_of_mem_dropLast hspan
  rw [length_slice hle, hend, Nat.add_sub_cancel_left]

theorem length_split (maxSize : Nat) (octets : Bytes) :
    (split maxSize octets).length =
      (octets.length + (sizeOf maxSize - 1)) / sizeOf maxSize := by
  rw [split_eq, List.length_map, spans, length_spansFrom, Nat.sub_zero]

theorem split_eq_nil_iff {maxSize : Nat} {octets : Bytes} :
    split maxSize octets = [] ↔ octets = [] := by
  rw [split_eq, List.map_eq_nil_iff, spans, spansFrom_eq_nil_iff, Nat.le_zero,
    List.length_eq_zero_iff]

/-- The slices from an offset on are the rest of the body. -/
theorem flatMap_slice_spansFrom {size : Nat} {h : 0 < size} (octets : Bytes) {offset : Nat} :
    (spansFrom size octets.length h offset).flatMap (slice octets) = octets.drop offset := by
  induction offset using spansFrom.induct size octets.length h with
  | case1 offset hlt ih =>
    have hrest : octets.drop (min (offset + size) octets.length) =
        (octets.drop offset).drop (min (offset + size) octets.length - offset) := by
      rw [List.drop_drop, Nat.add_sub_cancel' (by omega)]
    rw [spansFrom_of_lt hlt, List.flatMap_cons, ih, hrest, slice, List.take_append_drop]
  | case2 offset hge =>
    have hle : octets.length ≤ offset := Nat.not_lt.mp hge
    rw [spansFrom_of_le hle, List.flatMap_nil, List.drop_of_length_le hle]

/-! ### Words -/

/-- A span of words as one of numbers. -/
def toNats (span : UInt64 × UInt64) : Nat × Nat := (span.1.toNat, span.2.toNat)

/-- From an offset that the loop comes to, no sum is too large. -/
theorem wordSpansFrom?_eq {size length : UInt64} {h : 0 < size.toNat} {offset : UInt64}
    (hlength : length.toNat < lengthBound)
    (hoffset : offset.toNat = 0 ∨ size.toNat ≤ offset.toNat ∨ length.toNat ≤ offset.toNat) :
    (wordSpansFrom? size length h offset).map (·.map toNats) =
      some (spansFrom size.toNat length.toNat h offset.toNat) := by
  induction offset using wordSpansFrom?.induct size length h with
  | case1 offset hlt hsum ih =>
    have hend : (wordEnd size length offset).toNat = min (offset.toNat + size.toNat) length.toNat :=
      toNat_wordEnd hsum
    rw [wordSpansFrom?, if_pos hlt, if_pos hsum, spansFrom_of_lt (UInt64.lt_iff_toNat_lt.mp hlt),
      ← hend]
    have hrest := ih (by omega)
    obtain ⟨found, hfound, hspans⟩ := Option.map_eq_some_iff.mp hrest
    rw [hfound, ← hspans]
    rfl
  | case2 offset hlt hsum =>
    -- the sum is the size at offset 0, and elsewhere at most twice an offset within the body
    have hinside : offset.toNat < length.toNat := UInt64.lt_iff_toNat_lt.mp hlt
    have hsize : size.toNat < UInt64.size := size.toNat_lt
    refine absurd ?_ hsum
    simp only [lengthBound, UInt64.size] at hlength hsize ⊢
    omega
  | case3 offset hge =>
    rw [UInt64.lt_iff_toNat_lt, Nat.not_lt] at hge
    rw [wordSpansFrom?, if_neg (by rw [UInt64.lt_iff_toNat_lt]; omega), spansFrom_of_le hge]
    rfl

/-- The loop over words finds the spans, and no sum is too large. -/
theorem wordSpans?_eq (maxSize : UInt64) {length : Nat} (hlength : length < lengthBound) :
    (wordSpans? maxSize (.ofNat length)).map (·.map toNats) =
      some (spans maxSize.toNat length) := by
  have hword : (UInt64.ofNat length).toNat = length :=
    Nat.mod_eq_of_lt (Nat.lt_trans hlength (by decide))
  have hroom : (UInt64.ofNat length / wordSize maxSize).toNat + 1 < UInt64.size := by
    have hle : length / (wordSize maxSize).toNat ≤ length := Nat.div_le_self _ _
    rw [UInt64.toNat_div, hword]
    simp only [lengthBound, UInt64.size] at hlength ⊢
    omega
  rw [wordSpans?, if_pos hroom, wordSpansFrom?_eq (hword.symm ▸ hlength) (Or.inl rfl), spans]
  simp only [toNat_wordSize, hword]
  rfl

/-! ### The partition -/

/-- **Chunks are a partition of the body.** Put together they are the body; none is empty, all but
the last have the greatest size, where zero counts as one, and the last one is not longer. So there
are as many as that size is contained in the length, rounded up, and none for an empty body.

Each chunk is cut within the body. A loop over words comes to an end with the same spans, and no sum
in it is too large for a word, if the body is no longer than octets can be. -/
theorem split_partition (maxSize : UInt64) (octets : Bytes) :
    let size := max maxSize.toNat 1
    let chunks := split maxSize.toNat octets
    chunks.flatten = octets ∧
    (∀ chunk ∈ chunks, chunk ≠ []) ∧
    (∀ chunk ∈ chunks.dropLast, chunk.length = size) ∧
    (∀ chunk ∈ chunks.getLast?, chunk.length ≤ size) ∧
    chunks.length = (octets.length + (size - 1)) / size ∧
    (chunks = [] ↔ octets = []) ∧
    (∀ span ∈ spans maxSize.toNat octets.length, span.1 < span.2 ∧ span.2 ≤ octets.length) ∧
    (octets.length < lengthBound →
      (wordSpans? maxSize (.ofNat octets.length)).map (·.map toNats) =
        some (spans maxSize.toNat octets.length)) := by
  intro size chunks
  refine ⟨flatMap_slice_spansFrom octets, ?_, fun _ => length_of_mem_dropLast_split, ?_,
    length_split _ octets, split_eq_nil_iff, ?_, wordSpans?_eq maxSize⟩
  · intro chunk hchunk
    exact List.ne_nil_of_length_pos (length_of_mem_split hchunk).1
  · intro chunk hlast
    exact (length_of_mem_split (List.mem_of_getLast? hlast)).2
  · intro span hspan
    obtain ⟨hlt, hle, -⟩ := bounds_of_mem_spansFrom hspan
    exact ⟨hlt, hle⟩

/-- Seven octets make three chunks of at most three; and they make one chunk where the size is the
greatest word, to which nothing can be added. -/
theorem split_partition_limits :
    let octets : Bytes := [97, 98, 99, 100, 101, 102, 103]
    let three : UInt64 := 3
    let greatest : UInt64 := 18446744073709551615
    let first : Bytes := [97, 98, 99]
    (first ∈ (split three.toNat octets).dropLast ∧ first.length = max three.toNat 1) ∧
    ((split three.toNat octets).getLast? = some [103] ∧
      (split three.toNat octets).length = (7 + (3 - 1)) / 3) ∧
    octets.length < lengthBound ∧
    (wordSpans? greatest (.ofNat octets.length)).map (·.map toNats) = some [(0, 7)] := by
  intro octets three greatest first
  have hcuts : first ∈ (split three.toNat octets).dropLast ∧
      (split three.toNat octets).getLast? = some [103] ∧
      spans greatest.toNat octets.length = [(0, 7)] := by decide +kernel
  obtain ⟨hfirst, hlast, hwhole⟩ := hcuts
  obtain ⟨-, -, hfull, -, hlength, -, -, -⟩ := split_partition three octets
  obtain ⟨-, -, -, -, -, -, -, hwords⟩ := split_partition greatest octets
  have hbound : octets.length < lengthBound := by decide
  refine ⟨⟨hfirst, hfull first hfirst⟩, ⟨hlast, hlength⟩, hbound, ?_⟩
  rw [hwords hbound, hwhole]

end Chunks

end Understudy
