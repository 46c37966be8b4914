import ConfigShell.Text.Replaced
import ConfigShell.Proofs.Text.Boundary
import ConfigShell.Proofs.Text.Lines
/-!
# Well-formed texts

A text without stray bytes is well-formed (`Text.IsWellFormed`). Character strings are encoded by such
texts (`Text.isWellFormed_ofString`), the lines of such a text are well-formed again, and what writes
or reads stray bytes in another form leaves it as it is.
-/

namespace ConfigShell.Text

variable {b c : UInt8} {t u rest : Text} {lines : List Text}

/-! ## Sequences at the front -/

theorem follow_of_ascii (hb : b < 0x80) (t : Text) : follow b t = some 0 := by
  cases t <;> simp only [follow, if_pos hb]

theorem high_of_follow_eq_none (h : follow b t = none) : 0x80 ≤ b := by
  by_contra hlow
  have hb : b < 0x80 := by simpa using hlow
  cases (follow_of_ascii hb t).symm.trans h

theorem low_of_follow_eq_zero (h : follow b t = some 0) : b < 0x80 := by
  unfold follow at h
  repeat' split at h
  all_goals simp_all

/-- The first character is a stray byte if no sequence begins there. -/
theorem isStray_first (b : UInt8) (t : Text) :
    isStray (b :: t.take (tail b t)) = (follow b t).isNone := by
  unfold tail
  cases hfollow : follow b t with
  | none => simpa [isStray] using high_of_follow_eq_none hfollow
  | some n =>
    have hle := follow_le_length hfollow
    cases n with
    | zero => simpa [isStray] using low_of_follow_eq_zero hfollow
    | succ n =>
      cases t with
      | nil => cases hle
      | cons b' t => rfl

@[simp]
theorem isWellFormed_nil : IsWellFormed [] := nofun

theorem isWellFormed_cons :
    IsWellFormed (b :: t) ↔ (∃ n, follow b t = some n) ∧ IsWellFormed (t.drop (tail b t)) := by
  rw [IsWellFormed, characters_cons, List.forall_mem_cons, isStray_first, Option.isNone_eq_false_iff,
    Option.isSome_iff_exists]
  rfl

theorem isWellFormed_append_ascii (hc : c < 0x80) :
    IsWellFormed (t ++ c :: u) ↔ IsWellFormed t ∧ IsWellFormed u := by
  have hself : isStray [c] = false := by simpa [isStray] using hc
  rw [IsWellFormed, characters_append_ascii hc, List.forall_mem_append, List.forall_mem_cons]
  exact and_congr_right fun _ => and_iff_right hself

/-- The lines of a well-formed text are well-formed. -/
theorem CutsInto.isWellFormed (h : CutsInto t lines rest) (ht : IsWellFormed t) :
    (∀ line ∈ lines, IsWellFormed line) ∧ IsWellFormed rest := by
  induction lines generalizing t with
  | nil =>
    rw [h.eq] at ht
    exact ⟨nofun, ht⟩
  | cons line others ih =>
    obtain ⟨hline, hothers⟩ := List.forall_mem_cons.mp h.single
    rw [h.eq, List.flatMap_cons, List.append_assoc, List.append_assoc, List.singleton_append,
      isWellFormed_append_ascii (by decide)] at ht
    obtain ⟨hfirst, hmore⟩ := ht
    obtain ⟨hlater, hrest⟩ := ih ⟨rfl, hothers, h.unended⟩ hmore
    exact ⟨List.forall_mem_cons.mpr ⟨hfirst, hlater⟩, hrest⟩

/-! ## Character strings -/

section Sequence

variable {a d : UInt8}

theorem follow_two (first : 0xC2 ≤ a.toNat ∧ a.toNat ≤ 0xDF)
    (second : 0x80 ≤ b.toNat ∧ b.toNat ≤ 0xBF) (t : Text) : follow a (b :: t) = some 1 := by
  simp only [follow, isContinuation, Bool.and_eq_true, decide_eq_true_eq, UInt8.le_iff_toNat_le,
    UInt8.lt_iff_toNat_lt, UInt8.reduceToNat]
  rw [if_neg (by omega), if_pos first, if_pos second]

theorem follow_three (first : 0xE0 ≤ a.toNat ∧ a.toNat ≤ 0xEF)
    (second : 0x80 ≤ b.toNat ∧ b.toNat ≤ 0xBF) (third : 0x80 ≤ c.toNat ∧ c.toNat ≤ 0xBF)
    (notShort : a.toNat = 0xE0 → 0xA0 ≤ b.toNat) (notSurrogate : a.toNat = 0xED → b.toNat ≤ 0x9F)
    (t : Text) : follow a (b :: c :: t) = some 2 := by
  simp only [follow, isContinuation, Bool.and_eq_true, decide_eq_true_eq, beq_iff_eq,
    UInt8.le_iff_toNat_le, UInt8.lt_iff_toNat_lt, ← UInt8.toNat_inj, UInt8.reduceToNat]
  rw [if_neg (by omega), if_neg (by omega), if_pos first,
    if_pos (by split_ifs <;> simp <;> omega), if_pos third]

theorem follow_four (first : 0xF0 ≤ a.toNat ∧ a.toNat ≤ 0xF4)
    (second : 0x80 ≤ b.toNat ∧ b.toNat ≤ 0xBF) (third : 0x80 ≤ c.toNat ∧ c.toNat ≤ 0xBF)
    (fourth : 0x80 ≤ d.toNat ∧ d.toNat ≤ 0xBF)
    (notShort : a.toNat = 0xF0 → 0x90 ≤ b.toNat) (notBeyond : a.toNat = 0xF4 → b.toNat ≤ 0x8F)
    (t : Text) : follow a (b :: c :: d :: t) = some 3 := by
  simp only [follow, isContinuation, Bool.and_eq_true, decide_eq_true_eq, beq_iff_eq,
    UInt8.le_iff_toNat_le, UInt8.lt_iff_toNat_lt, ← UInt8.toNat_inj, UInt8.reduceToNat]
  rw [if_neg (by omega), if_neg (by omega), if_neg (by omega), if_pos first,
    if_pos (by split_ifs <;> simp <;> omega), if_pos ⟨third, fourth⟩]

end Sequence

/-- The encoding of a character is a well-formed sequence, whatever stands behind it. -/
theorem exists_follow_utf8EncodeChar (character : Char) (t : Text) :
    ∃ b more, String.utf8EncodeChar character = b :: more ∧
      follow b (more ++ t) = some more.length := by
  have hvalid : character.val.toNat < 0xD800 ∨
      0xDFFF < character.val.toNat ∧ character.val.toNat < 0x110000 := character.valid
  unfold String.utf8EncodeChar
  generalize character.val.toNat = n at hvalid
  dsimp only
  have htoNat {m : Nat} (h : m < 256) : (UInt8.ofNat m).toNat = m := by
    rw [UInt8.toNat_ofNat', Nat.mod_eq_of_lt h]
  -- one case for each number of bytes
  split
  · refine ⟨_, _, rfl, follow_of_ascii (UInt8.lt_iff_toNat_lt.mpr ?_) t⟩
    have hsize : n < 256 := by omega
    rw [htoNat hsize]
    exact Nat.lt_succ_of_le ‹n ≤ 0x7f›
  split
  · refine ⟨_, _, rfl, follow_two ?_ ?_ t⟩ <;> rw [htoNat] <;> omega
  split
  · refine ⟨_, _, rfl, follow_three ?_ ?_ ?_ ?_ ?_ t⟩ <;> (repeat rw [htoNat]) <;> omega
  · refine ⟨_, _, rfl, follow_four ?_ ?_ ?_ ?_ ?_ ?_ t⟩ <;> (repeat rw [htoNat]) <;> omega

/-- The encoding of a character string is well-formed. -/
theorem isWellFormed_ofString (s : String) : IsWellFormed (ofString s) := by
  unfold ofString
  induction s.toList with
  | nil => exact isWellFormed_nil
  | cons character others ih =>
    obtain ⟨b, more, hencoded, hfollow⟩ :=
      exists_follow_utf8EncodeChar character (others.flatMap String.utf8EncodeChar)
    rw [List.flatMap_cons, hencoded, List.cons_append, isWellFormed_cons, tail, hfollow,
      Option.getD_some, List.drop_left]
    exact ⟨⟨_, rfl⟩, ih⟩

/-! ## Other forms of stray bytes -/

/-- Behind a byte of ASCII the same is replaced as without it. -/
theorem replaceStrays_cons_ascii (hb : b < 0x80) (t : Text) :
    replaceStrays (b :: t) = b :: replaceStrays t := by
  rw [replaceStrays, List.length_cons, replaceUpTo, follow_of_ascii hb]
  rfl

theorem flatten_replaceUpTo {limit : Nat} (hlimit : t.length ≤ limit) (h : IsWellFormed t) :
    (replaceUpTo limit t).flatten = t := by
  induction limit generalizing t with
  | zero =>
    rw [List.length_eq_zero_iff.mp (Nat.le_zero.mp hlimit)]
    rfl
  | succ limit ih =>
    cases t with
    | nil => rfl
    | cons b t =>
      obtain ⟨⟨n, hfollow⟩, hrest⟩ := isWellFormed_cons.mp h
      rw [tail, hfollow, Option.getD_some] at hrest
      have hshorter : (t.drop n).length ≤ limit := by
        rw [List.length_cons] at hlimit
        rw [List.length_drop]
        omega
      rw [replaceUpTo, hfollow]
      simp [ih hshorter hrest]

/-- **Nothing is replaced in a well-formed text.** -/
theorem replaceStrays_of_isWellFormed (h : IsWellFormed t) : replaceStrays t = t :=
  flatten_replaceUpTo Nat.le.refl h

/-- **Nothing is marked in a well-formed text.** -/
theorem markStrays_of_isWellFormed (h : IsWellFormed t) : markStrays t = t := by
  have hsame : ∀ character ∈ characters t,
      (if isStray character then [0x3F] else character) = id character :=
    fun character hmem => if_neg (Bool.eq_false_iff.mp (h character hmem))
  rw [markStrays, List.flatMap_congr hsame, List.flatMap_id, characters_flatten]

end ConfigShell.Text
