import Mathlib.Data.List.Induction
import ConfigShell.Line.Position
/-!
# Physical lines

A text ends within one physical line (`LastLine`): what stands behind the last line end, or all of it
if there is none. The place behind a beginning of a text is in the physical line that the beginning
ends within, and its column counts the characters that this line has in front of the place.
-/

namespace ConfigShell.Line

/-- The text `t` is `front`, which is nothing or ends in a line end, and behind it `begun`, which
holds none. -/
structure LastLine (t front begun : Text) : Prop where
  cut : t = front ++ begun
  ended : front = [] ∨ front.getLast? = some Text.newline
  single : Text.newline ∉ begun

/-- Every text ends within a physical line. -/
theorem exists_lastLine (t : Text) : ∃ front begun, LastLine t front begun := by
  induction t using List.reverseRecOn with
  | nil => exact ⟨[], [], rfl, .inl rfl, List.not_mem_nil⟩
  | append_singleton t b ih =>
    by_cases hb : b = Text.newline
    · subst hb
      exact ⟨t ++ [Text.newline], [], by simp, .inr (by simp), List.not_mem_nil⟩
    · obtain ⟨front, begun, hcut, hended, hsingle⟩ := ih
      have hmore : Text.newline ∉ begun ++ [b] := by
        intro hmem
        rcases List.mem_append.mp hmem with hmem | hmem
        · exact hsingle hmem
        · exact hb (List.mem_singleton.mp hmem).symm
      exact ⟨front, begun ++ [b], by rw [hcut, List.append_assoc], hended, hmore⟩

/-- What holds no line end is within the physical line altogether. -/
theorem takeWhile_append_of_single {t : Text} (h : Text.newline ∉ t) (u : Text) :
    (t ++ u).takeWhile (· != Text.newline) = t ++ u.takeWhile (· != Text.newline) := by
  refine List.takeWhile_append_of_pos fun b hb => ?_
  have hne : b ≠ Text.newline := by
    rintro rfl
    exact h hb
  simpa using hne

/-- A physical line goes up to the next line end. -/
theorem takeWhile_before_newline (t more : Text) :
    (t ++ Text.newline :: more).takeWhile (· != Text.newline) =
      t.takeWhile (· != Text.newline) := by
  have hstop : (Text.newline :: more).takeWhile (· != Text.newline) = [] := rfl
  rw [List.takeWhile_append]
  split
  · rename_i h
    have hall : t.takeWhile (· != Text.newline) = t := (List.takeWhile_prefix _).eq_of_length h
    rw [hstop, List.append_nil, hall]
  · rfl

/-- Behind a line end the same physical line has begun, whatever stands in front. -/
theorem LastLine.behind_newline {t front begun : Text} (h : LastLine t front begun) (more : Text) :
    LastLine (more ++ Text.newline :: t) (more ++ Text.newline :: front) begun where
  cut := by rw [h.cut, List.append_assoc, List.cons_append]
  ended := by
    rcases h.ended with rfl | hlast
    · exact .inr (by simp)
    · obtain ⟨rest, rfl⟩ := List.getLast?_eq_some_iff.mp hlast
      rw [← List.cons_append, ← List.append_assoc]
      exact .inr List.getLast?_concat
  single := h.single

namespace LastLine

variable {source front begun : Text} {n : Nat}

/-- Going back from the end of a text, one meets the last line end in front of its last physical
line. -/
theorem takeWhile_reverse {t : Text} (h : LastLine t front begun) :
    t.reverse.takeWhile (· != Text.newline) = begun.reverse := by
  have hsingle : Text.newline ∉ begun.reverse := by simpa using h.single
  have hstops : front.reverse.takeWhile (· != Text.newline) = [] := by
    rcases h.ended with rfl | hlast
    · rfl
    · obtain ⟨more, hmore⟩ := List.getLast?_eq_some_iff.mp hlast
      simp [hmore]
  rw [h.cut, List.reverse_append, takeWhile_append_of_single hsingle, hstops, List.append_nil]

theorem physicalStart_eq (h : LastLine (source.take n) front begun) :
    physicalStart source n = front.length := by
  simp only [physicalStart, Signed.take_natCast]
  rw [h.takeWhile_reverse, h.cut, List.length_append, List.length_reverse, Nat.add_sub_cancel]

/-- The physical line around a place has in front of it what the text up to there ends with. -/
theorem physicalLine_eq (h : LastLine (source.take n) front begun) :
    physicalLine source n = begun ++ (source.drop n).takeWhile (· != Text.newline) := by
  have hsource : source = front ++ (begun ++ source.drop n) := by
    rw [← List.append_assoc, ← h.cut, List.take_append_drop]
  have hdrop : source.drop front.length = begun ++ source.drop n := by
    rw [hsource, List.drop_left, ← hsource]
  rw [physicalLine, h.physicalStart_eq, hdrop, takeWhile_append_of_single h.single]

/-- **The column of a place** is one more than the number of characters in front of it in its
physical line. -/
theorem columnAt_eq (h : LastLine (source.take n) front begun) :
    columnAt source n = Text.width begun + 1 := by
  have hlength := congrArg List.length h.cut
  rw [List.length_take, List.length_append] at hlength
  have hoffset : (n : Int) - (front.length : Nat) = (n - front.length : Nat) := by omega
  have hbegun : (begun ++ (source.drop n).takeWhile (· != Text.newline)).take (n - front.length) =
      begun := by
    by_cases hn : n ≤ source.length
    · exact List.take_left' (by omega)
    · rw [List.drop_eq_nil_of_le (by omega), List.takeWhile_nil, List.append_nil]
      exact List.take_of_length_le (by omega)
  rw [columnAt, h.physicalLine_eq, h.physicalStart_eq, hoffset, Text.column, Signed.take_natCast,
    hbegun]

end LastLine

end ConfigShell.Line
