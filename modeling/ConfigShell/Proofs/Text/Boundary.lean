import Mathlib.Algebra.BigOperators.Group.List.Basic
import ConfigShell.Proofs.Line.ReadBack
import ConfigShell.Proofs.Text.Beginning
/-!
# A byte of ASCII divides a text

No character is empty, and a byte of ASCII is a character of its own. So a text has the characters in
front of such a byte, the byte, and the characters behind it (`Text.characters_append_ascii`), and
what begins the text and does not have the byte ends in front of it.
-/

namespace ConfigShell.Text

variable {b c : UInt8} {s t u : Text}

theorem ne_nil_of_mem_characters {character : Text} (h : character ∈ characters t) :
    character ≠ [] := by
  by_cases hone : ∃ b, character = [b]
  · obtain ⟨b, rfl⟩ := hone
    exact List.cons_ne_nil b []
  · exact (high_of_mem_characters h fun b hb => hone ⟨b, hb⟩).1

theorem tail_of_ascii (hb : b < 0x80) (t : Text) : tail b t = 0 := by
  cases t <;> simp [tail, follow, hb]

/-- A byte of ASCII belongs to no character that begins in front of it. -/
theorem tail_append_ascii (hc : c < 0x80) : tail b (t ++ c :: u) = tail b t := by
  refine tail_append (Nat.le_of_not_lt fun hlong => ?_)
  obtain ⟨n, hn⟩ : ∃ n, follow b (t ++ c :: u) = some n := by
    refine Option.ne_none_iff_exists'.mp fun hnone => ?_
    simp [tail, hnone] at hlong
  rw [tail, hn, Option.getD_some] at hlong
  have hmem : c ∈ (t ++ c :: u).take n :=
    List.mem_take_iff_getElem.mpr ⟨t.length, by simp; omega, by simp⟩
  rcases follow_eq_some hn with rfl | hhigh
  · exact Nat.not_lt_zero _ hlong
  · exact absurd (hhigh c (List.mem_cons_of_mem _ hmem)) (by simpa using hc)

/-- **A text divides at a byte of ASCII** into the characters in front of it, itself and the
characters behind it. -/
theorem characters_append_ascii (hc : c < 0x80) (t u : Text) :
    characters (t ++ c :: u) = characters t ++ [c] :: characters u := by
  induction hlength : t.length using Nat.strongRecOn generalizing t with
  | ind n ih =>
    cases t with
    | nil => simp [characters_cons, tail_of_ascii hc]
    | cons b t =>
      have hle := tail_le_length b t
      have hshorter : (t.drop (tail b t)).length < n := by
        rw [List.length_drop, ← hlength, List.length_cons]
        omega
      rw [List.cons_append, characters_cons, tail_append_ascii hc,
        List.take_append_of_le_length hle, List.drop_append_of_le_length hle, ih _ hshorter _ rfl,
        characters_cons]
      rfl

/-- What ends in a byte of ASCII keeps its characters, whatever stands behind it. -/
theorem characters_append_of_getLast? (h : ∀ c, t.getLast? = some c → c < 0x80) (u : Text) :
    characters (t ++ u) = characters t ++ characters u := by
  cases hlast : t.getLast? with
  | none =>
    rw [List.getLast?_eq_none_iff.mp hlast]
    rfl
  | some c =>
    obtain ⟨front, rfl⟩ := List.getLast?_eq_some_iff.mp hlast
    have hc := h c hlast
    rw [List.append_assoc, characters_append_ascii hc, List.singleton_append,
      characters_append_ascii hc, characters_nil, List.append_assoc]
    rfl

/-- What begins with a byte of ASCII keeps its characters, whatever stands in front of it. -/
theorem characters_append_of_head? (h : ∀ c, u.head? = some c → c < 0x80) (t : Text) :
    characters (t ++ u) = characters t ++ characters u := by
  cases u with
  | nil => simp
  | cons c u =>
    have hc := h c rfl
    rw [characters_append_ascii hc, characters_cons, tail_of_ascii hc]
    rfl

/-- A text has no more characters than bytes. -/
theorem width_le_length (t : Text) : width t ≤ t.length := by
  have hcounted : ((characters t).map List.length).length ≤ ((characters t).map List.length).sum := by
    refine List.length_le_sum_of_one_le _ fun n hn => ?_
    obtain ⟨character, hmem, rfl⟩ := List.mem_map.mp hn
    exact List.length_pos_iff.mpr (ne_nil_of_mem_characters hmem)
  rwa [List.length_map, ← List.length_flatten, characters_flatten] at hcounted

theorem width_eq_zero_iff : width t = 0 ↔ t = [] := by
  constructor
  · intro h
    rw [← characters_flatten t, List.length_eq_zero_iff.mp h]
    rfl
  · rintro rfl
    rfl

theorem beginsWith_append_ascii (hc : c < 0x80) (t u : Text) :
    beginsWith (t ++ c :: u) t = true := by
  rw [beginsWith_iff, characters_append_ascii hc]
  exact List.prefix_append _ _

/-- A beginning that does not have this byte ends in front of it. -/
theorem beginsWith_of_not_mem (hc : c < 0x80) (h : beginsWith (t ++ c :: u) s = true)
    (hs : c ∉ s) : beginsWith t s = true := by
  rw [beginsWith_iff] at h ⊢
  rw [characters_append_ascii hc] at h
  rcases List.prefix_or_prefix_of_prefix h (List.prefix_append _ _) with hshorter | ⟨more, hmore⟩
  · exact hshorter
  · rw [← hmore, List.prefix_append_right_inj, List.prefix_cons_iff] at h
    rcases h with rfl | ⟨more, rfl, -⟩
    · have hsame : characters t = characters s := (List.append_nil _).symm.trans hmore
      exact hsame ▸ List.prefix_rfl
    · refine absurd ?_ hs
      rw [← characters_flatten s, ← hmore]
      simp

end ConfigShell.Text
