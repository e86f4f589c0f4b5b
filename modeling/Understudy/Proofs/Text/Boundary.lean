import Understudy.Proofs.Text.Utf8

/-!
# Understudy.Proofs.Text.Boundary

Cutting a text to a number of octets.

Octets that write a text may be cut at an index where they end or where a character begins
(`isBoundary`). These indices are the sizes of the beginnings of the text (`isBoundary_iff`), since
of the octets of a character only the first one looks like a first one. So the last of them up to
some index, which is found by a search backwards (`lastBoundary?`), is where the longest beginning
ends that fits, and that is the one that `takeFitting` takes (`lastBoundary?_eq`). The search always
ends: it comes to index 0 at the latest, and that is a boundary.
-/

namespace Understudy

namespace Utf8

/-! ### Boundaries -/

/-- Whether a text is the longest beginning of another one, up to a boundary, of a size. -/
structure IsCut (room : Nat) (text part : String) : Prop where
  beginning : encode part <+: encode text
  boundary : isBoundary (encode text) (encode part).length = true
  fits : (encode part).length ≤ room
  longest : ∀ n ≤ room, isBoundary (encode text) n = true → n ≤ (encode part).length

/-! ### The octets of a character -/

/-- A character takes as many octets as its size says. -/
theorem length_encodeChar (c : Char) : (encodeChar c).length = c.utf8Size := by
  have hsize : c.utf8Size = if c.toNat ≤ 0x7F then 1 else if c.toNat ≤ 0x7FF then 2 else
      if c.toNat ≤ 0xFFFF then 3 else 4 := rfl
  rw [hsize, encodeChar]
  split
  · rename_i hone
    rw [if_pos (Nat.le_of_lt_succ hone)]
    rfl
  rename_i hone
  rw [if_neg fun h : c.toNat ≤ 0x7F => hone (Nat.lt_succ_of_le h)]
  split
  · rename_i htwo
    rw [if_pos (Nat.le_of_lt_succ htwo)]
    rfl
  rename_i htwo
  rw [if_neg fun h : c.toNat ≤ 0x7FF => htwo (Nat.lt_succ_of_le h)]
  split
  · rename_i hthree
    rw [if_pos (Nat.le_of_lt_succ hthree)]
    rfl
  rename_i hthree
  rw [if_neg fun h : c.toNat ≤ 0xFFFF => hthree (Nat.lt_succ_of_le h)]
  rfl

theorem length_encodeChar_pos (c : Char) : 0 < (encodeChar c).length := by
  rw [length_encodeChar]
  exact c.utf8Size_pos

theorem beginsChar_first {v : Nat} (hv : v < 0x100) (h : v < 0x80 ∨ 0xC0 ≤ v) :
    beginsChar (.ofNat v) = true := by
  simpa [beginsChar, toNat_octet hv] using h

theorem beginsChar_further {d : Nat} (hd : d < 0x40) : beginsChar (.ofNat (0x80 + d)) = false := by
  rw [beginsChar, toNat_octet (by omega), Bool.or_eq_false_iff, decide_eq_false_iff_not,
    decide_eq_false_iff_not]
  omega

/-- Of the octets of a character the first one begins it, and the others do not begin any. -/
theorem exists_encodeChar_eq (c : Char) :
    ∃ b bs, encodeChar c = b :: bs ∧ beginsChar b = true ∧
      ∀ b' ∈ bs, beginsChar b' = false := by
  have hrange : c.toNat < 0x110000 := by
    have := toNat_range c
    omega
  have hfurther (n : Nat) : beginsChar (.ofNat (0x80 + n % 0x40)) = false :=
    beginsChar_further (Nat.mod_lt _ (by decide))
  rw [encodeChar]
  split
  · exact ⟨_, _, rfl, beginsChar_first (by omega) (Or.inl (by omega)), by simp⟩
  split
  · refine ⟨_, _, rfl, beginsChar_first (by omega) (Or.inr (by omega)), ?_⟩
    exact List.forall_mem_singleton.mpr (hfurther _)
  split
  · refine ⟨_, _, rfl, beginsChar_first (by omega) (Or.inr (by omega)), ?_⟩
    exact List.forall_mem_cons.mpr ⟨hfurther _, List.forall_mem_singleton.mpr (hfurther _)⟩
  · refine ⟨_, _, rfl, beginsChar_first (by omega) (Or.inr (by omega)), ?_⟩
    exact List.forall_mem_cons.mpr ⟨hfurther _, List.forall_mem_cons.mpr
      ⟨hfurther _, List.forall_mem_singleton.mpr (hfurther _)⟩⟩

/-! ### Boundaries of a text -/

theorem isBoundary_zero (bs : Bytes) : isBoundary bs 0 = true := rfl

/-- No boundary lies within a character. -/
theorem isBoundary_inside {c : Char} {n : Nat} (hpos : 0 < n) (hlt : n < (encodeChar c).length)
    (bs : Bytes) : isBoundary (encodeChar c ++ bs) n = false := by
  obtain ⟨b, further, heq, -, hfurther⟩ := exists_encodeChar_eq c
  have hlength : n ≠ (encodeChar c ++ bs).length := by
    rw [List.length_append]
    omega
  have hoctet : (encodeChar c ++ bs)[n]?.any beginsChar = false := by
    rw [List.getElem?_append_left hlt, List.getElem?_eq_getElem hlt, Option.any_some]
    obtain ⟨k, rfl⟩ : ∃ k, n = k + 1 := ⟨n - 1, by omega⟩
    refine hfurther _ ?_
    simp only [heq, List.getElem_cons_succ]
    exact List.getElem_mem _
  rw [isBoundary, hoctet, decide_eq_false (by omega), decide_eq_false hlength]
  rfl

/-- Behind a character the boundaries are those of what follows. -/
theorem isBoundary_behind (c : Char) (cs : List Char) (n : Nat) :
    isBoundary (encodeChars (c :: cs)) ((encodeChar c).length + n) =
      isBoundary (encodeChars cs) n := by
  have hpos := length_encodeChar_pos c
  have hlength : (encodeChar c).length + n = (encodeChars (c :: cs)).length ↔
      n = (encodeChars cs).length := by
    rw [encodeChars_cons, List.length_append]
    omega
  have hoctet : (encodeChars (c :: cs))[(encodeChar c).length + n]? = (encodeChars cs)[n]? := by
    rw [encodeChars_cons, List.getElem?_append_right (Nat.le_add_right _ _),
      Nat.add_sub_cancel_left]
  by_cases hn : n = 0
  · subst hn
    rw [isBoundary_zero, isBoundary, hoctet]
    -- what follows is nothing, or begins with a character
    cases cs with
    | nil => simp
    | cons d ds =>
      obtain ⟨b, further, heq, hfirst, -⟩ := exists_encodeChar_eq d
      simp [heq, hfirst]
  · have hzero : (encodeChar c).length + n ≠ 0 := by omega
    simp only [isBoundary, hoctet, hlength, hn, hzero]

/-- **Boundaries.** A text may be cut where one of its beginnings ends, and nowhere else. -/
theorem isBoundary_iff {cs : List Char} {n : Nat} :
    isBoundary (encodeChars cs) n = true ↔ ∃ p, p <+: cs ∧ (encodeChars p).length = n := by
  induction cs generalizing n with
  | nil =>
    constructor
    · intro h
      have hn : n = 0 := by
        rw [isBoundary, encodeChars_nil, List.getElem?_nil, Option.any_none, Bool.or_false,
          Bool.or_eq_true, decide_eq_true_iff, decide_eq_true_iff] at h
        exact h.elim id id
      exact ⟨[], List.nil_prefix, hn.symm⟩
    · rintro ⟨p, hp, rfl⟩
      rw [List.prefix_nil.mp hp]
      rfl
  | cons c cs ih =>
    constructor
    · intro h
      by_cases hzero : n = 0
      · exact ⟨[], List.nil_prefix, hzero.symm⟩
      · -- a boundary is not within the first character, so it is one of the rest
        by_cases hinside : n < (encodeChar c).length
        · rw [encodeChars_cons, isBoundary_inside (by omega) hinside] at h
          cases h
        · obtain ⟨k, rfl⟩ := Nat.exists_eq_add_of_le (Nat.le_of_not_lt hinside)
          rw [isBoundary_behind] at h
          obtain ⟨p, hp, rfl⟩ := ih.mp h
          refine ⟨c :: p, List.cons_prefix_cons.mpr ⟨rfl, hp⟩, ?_⟩
          rw [encodeChars_cons, List.length_append]
    · rintro ⟨p, hp, rfl⟩
      cases p with
      | nil => rfl
      | cons d p =>
        obtain ⟨rfl, hrest⟩ := List.cons_prefix_cons.mp hp
        rw [encodeChars_cons d p, List.length_append, isBoundary_behind]
        exact ih.mpr ⟨p, hrest, rfl⟩

/-! ### What fits -/

theorem encodeChars_beginning {p cs : List Char} (h : p <+: cs) :
    encodeChars p <+: encodeChars cs := by
  obtain ⟨rest, rfl⟩ := h
  rw [encodeChars_append]
  exact List.prefix_append _ _

theorem takeFitting_beginning (room : Nat) (cs : List Char) : takeFitting room cs <+: cs := by
  induction cs generalizing room with
  | nil => exact List.prefix_rfl
  | cons c cs ih =>
    rw [takeFitting]
    split
    · exact List.cons_prefix_cons.mpr ⟨rfl, ih _⟩
    · exact List.nil_prefix

/-- What is taken fits. -/
theorem length_takeFitting_le (room : Nat) (cs : List Char) :
    (encodeChars (takeFitting room cs)).length ≤ room := by
  induction cs generalizing room with
  | nil => exact Nat.zero_le _
  | cons c cs ih =>
    rw [takeFitting]
    split
    · rename_i hfits
      have := ih (room - c.utf8Size)
      rw [encodeChars_cons, List.length_append, length_encodeChar]
      omega
    · exact Nat.zero_le _

/-- Every beginning that fits is a beginning of what is taken. -/
theorem beginning_takeFitting {p cs : List Char} {room : Nat} (hp : p <+: cs)
    (hfits : (encodeChars p).length ≤ room) : p <+: takeFitting room cs := by
  induction cs generalizing p room with
  | nil => exact hp
  | cons c cs ih =>
    cases p with
    | nil => exact List.nil_prefix
    | cons d p =>
      obtain ⟨rfl, hrest⟩ := List.cons_prefix_cons.mp hp
      rw [encodeChars_cons, List.length_append, length_encodeChar] at hfits
      rw [takeFitting, if_pos (by omega)]
      exact List.cons_prefix_cons.mpr ⟨rfl, ih hrest (by omega)⟩

theorem takeFitting_of_fits {cs : List Char} {room : Nat} (h : (encodeChars cs).length ≤ room) :
    takeFitting room cs = cs :=
  (takeFitting_beginning room cs).eq_of_length_le
    (beginning_takeFitting List.prefix_rfl h).length_le

/-- A beginning that fits leaves the rest of the room to what follows it. -/
theorem takeFitting_append {p : List Char} {room : Nat} (h : (encodeChars p).length ≤ room)
    (cs : List Char) :
    takeFitting room (p ++ cs) = p ++ takeFitting (room - (encodeChars p).length) cs := by
  induction p generalizing room with
  | nil => rfl
  | cons c p ih =>
    rw [encodeChars_cons, List.length_append, length_encodeChar] at h ⊢
    rw [List.cons_append, takeFitting, if_pos (by omega), ih (by omega), Nat.sub_sub,
      List.cons_append]

/-- What is taken is no shorter than any beginning up to a boundary that fits. -/
theorem le_length_takeFitting {cs : List Char} {room n : Nat} (hn : n ≤ room)
    (h : isBoundary (encodeChars cs) n = true) :
    n ≤ (encodeChars (takeFitting room cs)).length := by
  obtain ⟨p, hp, rfl⟩ := isBoundary_iff.mp h
  exact (encodeChars_beginning (beginning_takeFitting hp hn)).length_le

/-- The search backwards ends where that ends which fits. -/
theorem lastBoundary?_eq (cs : List Char) (n : Nat) :
    lastBoundary? (encodeChars cs) n = some (encodeChars (takeFitting n cs)).length := by
  have hboundary (n : Nat) :
      isBoundary (encodeChars cs) (encodeChars (takeFitting n cs)).length = true :=
    isBoundary_iff.mpr ⟨_, takeFitting_beginning n cs, rfl⟩
  induction n with
  | zero =>
    have hzero := length_takeFitting_le 0 cs
    rw [lastBoundary?, isBoundary_zero, if_pos rfl, Nat.le_zero.mp hzero]
  | succ n ih =>
    have hle := length_takeFitting_le (n + 1) cs
    rw [lastBoundary?]
    split
    · rename_i h
      rw [Nat.le_antisymm hle (le_length_takeFitting (Nat.le_refl _) h)]
    · rename_i h
      -- nothing ends at `n + 1`, so one octet less is room for the same
      have hne : (encodeChars (takeFitting (n + 1) cs)).length ≠ n + 1 :=
        fun heq => h (heq ▸ hboundary (n + 1))
      have hless : (encodeChars (takeFitting (n + 1) cs)).length ≤
          (encodeChars (takeFitting n cs)).length :=
        le_length_takeFitting (by omega) (hboundary (n + 1))
      have hmore : (encodeChars (takeFitting n cs)).length ≤
          (encodeChars (takeFitting (n + 1) cs)).length :=
        le_length_takeFitting (Nat.le_succ_of_le (length_takeFitting_le n cs)) (hboundary n)
      rw [ih, Nat.le_antisymm hmore hless]

/-- Cutting octets never fails, and leaves those of the characters that fit. -/
theorem cutOctets?_eq (room : Nat) (cs : List Char) :
    cutOctets? room (encodeChars cs) = some (encodeChars (takeFitting room cs)) := by
  rw [cutOctets?]
  split
  · rename_i hfits
    rw [takeFitting_of_fits hfits]
  · have hbeginning := encodeChars_beginning (takeFitting_beginning room cs)
    rw [lastBoundary?_eq, Option.map_some, ← List.prefix_iff_eq_take.mp hbeginning]

/-- What is taken is the longest beginning that fits. -/
theorem isCut_takeFitting (room : Nat) (text : String) :
    IsCut room text (String.ofList (takeFitting room text.toList)) := by
  have hbeginning := takeFitting_beginning room text.toList
  have hencode : encode (String.ofList (takeFitting room text.toList)) =
      encodeChars (takeFitting room text.toList) := by
    rw [encode, String.toList_ofList]
  refine ⟨?_, ?_, ?_, ?_⟩
  · rw [hencode]
    exact encodeChars_beginning hbeginning
  · rw [hencode]
    exact isBoundary_iff.mpr ⟨_, hbeginning, rfl⟩
  · rw [hencode]
    exact length_takeFitting_le room text.toList
  · intro n hn h
    rw [hencode]
    exact le_length_takeFitting hn h

end Utf8

end Understudy
