import Mathlib.Data.List.Basic
import ConfigShell.Text.Characters
import ConfigShell.Proofs.Text.Beginning
/-!
# The order of texts by their codes

Texts are ordered like the sequences of the codes of their characters. A character is of one to four
bytes (`Text.IsCharacter`), and the codes of each length have a range of their own, those of stray
bytes lying where UTF-8 encodes nothing. So a text has its codes to itself (`Text.codes_inj`), the
order is a linear one, and sorting by it forgets the order in which the texts were given
(`Text.sortByCode_eq_of_perm`).
-/

namespace ConfigShell.Text

/-! ## The bytes of a character -/

/-- A byte, or the bytes of a well-formed sequence that is longer. -/
inductive IsCharacter : Text → Prop
  | one (a : UInt8) : IsCharacter [a]
  | two (a b : UInt8) (first : 0xC2 ≤ a.toNat ∧ a.toNat ≤ 0xDF)
      (second : 0x80 ≤ b.toNat ∧ b.toNat ≤ 0xBF) : IsCharacter [a, b]
  | three (a b c : UInt8) (first : 0xE0 ≤ a.toNat ∧ a.toNat ≤ 0xEF)
      (second : 0x80 ≤ b.toNat ∧ b.toNat ≤ 0xBF) (third : 0x80 ≤ c.toNat ∧ c.toNat ≤ 0xBF)
      (notShort : a.toNat = 0xE0 → 0xA0 ≤ b.toNat)
      (notSurrogate : a.toNat = 0xED → b.toNat ≤ 0x9F) : IsCharacter [a, b, c]
  | four (a b c d : UInt8) (first : 0xF0 ≤ a.toNat ∧ a.toNat ≤ 0xF4)
      (second : 0x80 ≤ b.toNat ∧ b.toNat ≤ 0xBF) (third : 0x80 ≤ c.toNat ∧ c.toNat ≤ 0xBF)
      (fourth : 0x80 ≤ d.toNat ∧ d.toNat ≤ 0xBF)
      (notShort : a.toNat = 0xF0 → 0x90 ≤ b.toNat) : IsCharacter [a, b, c, d]

theorem isContinuation_iff {b : UInt8} :
    isContinuation b = true ↔ 0x80 ≤ b.toNat ∧ b.toNat ≤ 0xBF := by
  simp [isContinuation, UInt8.le_iff_toNat_le]

/-- The first character of a text. -/
theorem isCharacter_first (b : UInt8) (t : Text) : IsCharacter (b :: t.take (tail b t)) := by
  unfold tail
  cases hfollow : follow b t with
  | none => exact .one b
  | some n =>
    unfold follow at hfollow
    repeat' split at hfollow
    all_goals cases hfollow
    all_goals try simp only [Bool.and_eq_true, decide_eq_true_eq, beq_iff_eq, isContinuation_iff,
      UInt8.le_iff_toNat_le, ← UInt8.toNat_inj, UInt8.reduceToNat] at *
    all_goals first
      | exact .one b
      | exact .two _ _ (by omega) (by omega)
      | exact .three _ _ _ (by omega) (by omega) (by omega) (by omega) (by omega)
      | exact .four _ _ _ _ (by omega) (by omega) (by omega) (by omega) (by omega)

theorem isCharacter_of_mem {t c : Text} (h : c ∈ characters t) : IsCharacter c := by
  induction hlength : t.length using Nat.strongRecOn generalizing t with
  | ind n ih =>
    cases t with
    | nil => cases h
    | cons b t =>
      rw [characters_cons] at h
      rcases List.mem_cons.mp h with rfl | h
      · exact isCharacter_first b t
      · refine ih _ ?_ h rfl
        rw [List.length_drop, ← hlength, List.length_cons]
        omega

section Code

variable (a b c d : UInt8)

theorem code_one : code [a] = if a.toNat < 0x80 then a.toNat else 0xDC00 + a.toNat := by
  unfold code
  rfl

theorem code_two : code [a, b] = (a.toNat - 0xC0) * 64 + (b.toNat - 0x80) := by
  unfold code
  rfl

theorem code_three :
    code [a, b, c] = ((a.toNat - 0xE0) * 64 + (b.toNat - 0x80)) * 64 + (c.toNat - 0x80) := by
  unfold code
  rfl

theorem code_four : code [a, b, c, d] =
    (((a.toNat - 0xF0) * 64 + (b.toNat - 0x80)) * 64 + (c.toNat - 0x80)) * 64 +
      (d.toNat - 0x80) := by
  unfold code
  rfl

end Code

/-- **The codes of characters of one length have a range of their own.** -/
theorem length_of_code {c : Text} (h : IsCharacter c) :
    c.length = if code c < 0x80 ∨ (0xD800 ≤ code c ∧ code c ≤ 0xDFFF) then 1
      else if code c < 0x800 then 2 else if code c < 0x10000 then 3 else 4 := by
  cases h with
  | one a =>
    have ha := a.toNat_lt
    rw [code_one, if_pos]
    · rfl
    · split <;> omega
  | two a b first second =>
    rw [code_two, if_neg (by omega), if_pos (by omega)]
    rfl
  | three a b c first second third notShort notSurrogate =>
    rw [code_three, if_neg (by omega), if_neg (by omega), if_pos (by omega)]
    rfl
  | four a b c d first second third fourth notShort =>
    rw [code_four, if_neg (by omega), if_neg (by omega), if_neg (by omega)]
    rfl

/-- **A character has its code to itself.** -/
theorem code_inj {c d : Text} (hc : IsCharacter c) (hd : IsCharacter d) (h : code c = code d) :
    c = d := by
  have hlength : c.length = d.length := by rw [length_of_code hc, length_of_code hd, h]
  cases hc <;> cases hd
  -- characters of different lengths
  all_goals try cases hlength
  case one.one a a' =>
    have ha := a.toNat_lt
    have ha' := a'.toNat_lt
    rw [code_one, code_one] at h
    rw [List.singleton_inj, ← UInt8.toNat_inj]
    split at h <;> split at h <;> omega
  case two.two =>
    rw [code_two, code_two] at h
    simp only [List.cons.injEq, and_true, ← UInt8.toNat_inj]
    omega
  case three.three =>
    rw [code_three, code_three] at h
    simp only [List.cons.injEq, and_true, ← UInt8.toNat_inj]
    omega
  case four.four =>
    rw [code_four, code_four] at h
    simp only [List.cons.injEq, and_true, ← UInt8.toNat_inj]
    omega

/-- **A text has its codes to itself.** -/
theorem codes_inj {s t : Text} (h : codes s = codes t) : s = t := by
  have hsame (cs ds : List Text) (hcs : ∀ c ∈ cs, IsCharacter c) (hds : ∀ d ∈ ds, IsCharacter d)
      (hcodes : cs.map code = ds.map code) : cs = ds := by
    induction cs generalizing ds with
    | nil => exact (List.map_eq_nil_iff.mp hcodes.symm).symm
    | cons c cs ih =>
      cases ds with
      | nil => cases hcodes
      | cons d ds =>
        obtain ⟨hc, hcs⟩ := List.forall_mem_cons.mp hcs
        obtain ⟨hd, hds⟩ := List.forall_mem_cons.mp hds
        obtain ⟨hfirst, hrest⟩ := List.cons.inj hcodes
        rw [code_inj hc hd hfirst, ih ds hcs hds hrest]
  rw [← characters_flatten s, ← characters_flatten t]
  exact congrArg List.flatten
    (hsame _ _ (fun _ => isCharacter_of_mem) (fun _ => isCharacter_of_mem) h)

/-! ## The order -/

section Sequences

variable {s t u : List Nat}

theorem sequenceLE_cons_iff {a b : Nat} :
    sequenceLE (a :: s) (b :: t) = true ↔ a < b ∨ (a = b ∧ sequenceLE s t = true) := by
  simp [sequenceLE]

theorem sequenceLE_trans (hst : sequenceLE s t = true) (htu : sequenceLE t u = true) :
    sequenceLE s u = true := by
  induction s generalizing t u with
  | nil => rfl
  | cons a s ih =>
    cases t with
    | nil => cases hst
    | cons b t =>
      cases u with
      | nil => cases htu
      | cons c u =>
        rw [sequenceLE_cons_iff] at hst htu ⊢
        rcases hst with hab | ⟨rfl, hst⟩
        · exact .inl (by omega)
        · rcases htu with hac | ⟨rfl, htu⟩
          · exact .inl hac
          · exact .inr ⟨rfl, ih hst htu⟩

theorem sequenceLE_total (s t : List Nat) : sequenceLE s t = true ∨ sequenceLE t s = true := by
  induction s generalizing t with
  | nil => exact .inl rfl
  | cons a s ih =>
    cases t with
    | nil => exact .inr rfl
    | cons b t =>
      rw [sequenceLE_cons_iff, sequenceLE_cons_iff]
      rcases Nat.lt_trichotomy a b with hlt | rfl | hgt
      · exact .inl (.inl hlt)
      · rcases ih t with hst | hts
        · exact .inl (.inr ⟨rfl, hst⟩)
        · exact .inr (.inr ⟨rfl, hts⟩)
      · exact .inr (.inl hgt)

theorem sequenceLE_antisymm (hst : sequenceLE s t = true) (hts : sequenceLE t s = true) :
    s = t := by
  induction s generalizing t with
  | nil =>
    cases t with
    | nil => rfl
    | cons b t => cases hts
  | cons a s ih =>
    cases t with
    | nil => cases hst
    | cons b t =>
      rw [sequenceLE_cons_iff] at hst hts
      rcases hst with hab | ⟨rfl, hst⟩
      · omega
      · rcases hts with haa | ⟨-, hts⟩
        · omega
        · rw [ih hst hts]

/-- Of sequences that differ the lesser one is strictly less: the other goes on behind it, or has
a greater number where they first differ. -/
theorem lex_of_sequenceLE (h : sequenceLE s t = true) (hne : s ≠ t) : List.Lex (· < ·) s t := by
  induction s generalizing t with
  | nil =>
    cases t with
    | nil => exact absurd rfl hne
    | cons b t => exact .nil
  | cons a s ih =>
    cases t with
    | nil => cases h
    | cons b t =>
      rcases sequenceLE_cons_iff.mp h with hab | ⟨rfl, hst⟩
      · exact .rel hab
      · exact .cons (ih hst fun hsame => hne (by rw [hsame]))

end Sequences

/-- The text `s` is in front of `t` by the codes of their characters. -/
def Precedes (s t : Text) : Prop := List.Lex (· < ·) (codes s) (codes t)

theorem pairwise_sortByCode (texts : List Text) :
    (sortByCode texts).Pairwise fun s t => codeLE s t = true := by
  have htrans (s t u : Text) (hst : codeLE s t = true) (htu : codeLE t u = true) :
      codeLE s u = true := sequenceLE_trans hst htu
  have htotal (s t : Text) : (codeLE s t || codeLE t s) = true :=
    Bool.or_eq_true_iff.mpr (sequenceLE_total _ _)
  exact List.pairwise_mergeSort htrans htotal texts

/-- **Sorting forgets the order in which the texts are given.** -/
theorem sortByCode_eq_of_perm {texts others : List Text} (h : texts.Perm others) :
    sortByCode texts = sortByCode others := by
  have hperm : (sortByCode texts).Perm (sortByCode others) :=
    (List.mergeSort_perm texts codeLE).trans (h.trans (List.mergeSort_perm others codeLE).symm)
  refine hperm.eq_of_pairwise ?_ (pairwise_sortByCode texts) (pairwise_sortByCode others)
  exact fun s t _ _ hst hts => codes_inj (sequenceLE_antisymm hst hts)

/-- **Texts that differ are sorted strictly.** -/
theorem pairwise_precedes_sortByCode {texts : List Text} (h : texts.Nodup) :
    (sortByCode texts).Pairwise Precedes := by
  have hdistinct : (sortByCode texts).Nodup := (List.mergeSort_perm texts codeLE).nodup_iff.mpr h
  refine ((pairwise_sortByCode texts).and hdistinct).imp fun {s t} hst => ?_
  exact lex_of_sequenceLE hst.1 fun hsame => hst.2 (codes_inj hsame)

end ConfigShell.Text
