import ConfigShell.Text.Lines
/-!
# Ended lines

A text is a row of lines, each with the line feed that ends it, and a rest without one, and it is so
in one way only (`Text.CutsInto`). Cutting it at line feeds gives these lines and the rest.
-/

namespace ConfigShell.Text

/-- The text is these lines, each with the line feed that ends it, and a rest without one. -/
structure CutsInto (t : Text) (lines : List Text) (rest : Text) : Prop where
  eq : t = lines.flatMap (· ++ [newline]) ++ rest
  single : ∀ line ∈ lines, newline ∉ line
  unended : newline ∉ rest

namespace CutsInto

variable {t rest piece : Text} {lines : List Text}

theorem of_not_mem (h : newline ∉ t) : CutsInto t [] t := ⟨rfl, nofun, h⟩

/-- Lines with nothing behind them. -/
theorem of_lines (h : ∀ line ∈ lines, newline ∉ line) :
    CutsInto (lines.flatMap (· ++ [newline])) lines [] :=
  ⟨(List.append_nil _).symm, h, nofun⟩

/-- A line in front. -/
theorem cons {line : Text} (hline : newline ∉ line) (h : CutsInto t lines rest) :
    CutsInto (line ++ newline :: t) (line :: lines) rest := by
  refine ⟨?_, List.forall_mem_cons.mpr ⟨hline, h.single⟩, h.unended⟩
  rw [h.eq]
  simp

/-- A text without a line end in front belongs to the rest, if there is no ended line. -/
theorem append_rest {start : Text} (hstart : newline ∉ start) (h : CutsInto piece [] rest) :
    CutsInto (start ++ piece) [] (start ++ rest) := by
  refine ⟨?_, nofun, ?_⟩
  · rw [h.eq]
    rfl
  · intro hmem
    rcases List.mem_append.mp hmem with hmem | hmem
    · exact hstart hmem
    · exact h.unended hmem

/-- Otherwise it belongs to the first line. -/
theorem append_line {start first : Text} (hstart : newline ∉ start)
    (h : CutsInto piece (first :: lines) rest) :
    CutsInto (start ++ piece) ((start ++ first) :: lines) rest := by
  obtain ⟨hfirst, hlines⟩ := List.forall_mem_cons.mp h.single
  refine ⟨?_, List.forall_mem_cons.mpr ⟨?_, hlines⟩, h.unended⟩
  · rw [h.eq]
    simp
  · intro hmem
    rcases List.mem_append.mp hmem with hmem | hmem
    · exact hstart hmem
    · exact hfirst hmem

/-- What comes after the ended lines of a text goes on from its rest. -/
theorem append (h : CutsInto t lines rest) {more : List Text} {rest' : Text}
    (hmore : CutsInto (rest ++ piece) more rest') :
    CutsInto (t ++ piece) (lines ++ more) rest' := by
  refine ⟨?_, ?_, hmore.unended⟩
  · rw [h.eq, List.append_assoc, hmore.eq, List.flatMap_append, List.append_assoc]
  · intro line hline
    rcases List.mem_append.mp hline with hline | hline
    · exact h.single line hline
    · exact hmore.single line hline

end CutsInto

/-- Every text is a row of ended lines and a rest. -/
theorem exists_cutsInto (t : Text) : ∃ lines rest, CutsInto t lines rest := by
  induction t with
  | nil => exact ⟨[], [], .of_not_mem nofun⟩
  | cons b t ih =>
    obtain ⟨lines, rest, hcut⟩ := ih
    by_cases hb : b = newline
    · subst hb
      have hempty : newline ∉ ([] : Text) := nofun
      exact ⟨[] :: lines, rest, .cons hempty hcut⟩
    · have hstart : newline ∉ [b] := by simpa using Ne.symm hb
      cases lines with
      | nil => exact ⟨[], _, .append_rest hstart hcut⟩
      | cons first others => exact ⟨_, rest, .append_line hstart hcut⟩

/-! ## Cutting at separators -/

theorem splitOn_of_not_mem {separator : UInt8} {t : Text} (h : separator ∉ t) :
    splitOn separator t = [t] := by
  induction t with
  | nil => rfl
  | cons b t ih =>
    obtain ⟨hb, ht⟩ := not_or.mp (fun hmem => h (List.mem_cons.mpr hmem))
    rw [splitOn_cons, ih ht]
    simp [extendFirst, Ne.symm hb]

/-- A separator ends the piece in front of it. -/
theorem splitOn_append_cons {separator : UInt8} {start : Text} (h : separator ∉ start)
    (t : Text) : splitOn separator (start ++ separator :: t) = start :: splitOn separator t := by
  induction start with
  | nil => simp [splitOn_cons]
  | cons b start ih =>
    obtain ⟨hb, hstart⟩ := not_or.mp (fun hmem => h (List.mem_cons.mpr hmem))
    rw [List.cons_append, splitOn_cons, ih hstart]
    simp [extendFirst, Ne.symm hb]

theorem CutsInto.splitOn_eq {t rest : Text} {lines : List Text} (h : t.CutsInto lines rest) :
    splitOn newline t = lines ++ [rest] := by
  induction lines generalizing t with
  | nil =>
    rw [h.eq]
    exact splitOn_of_not_mem h.unended
  | cons line others ih =>
    obtain ⟨hline, hothers⟩ := List.forall_mem_cons.mp h.single
    have hrest := ih ⟨rfl, hothers, h.unended⟩
    rw [h.eq, List.flatMap_cons, List.append_assoc, List.append_assoc, List.singleton_append,
      splitOn_append_cons hline, hrest]
    rfl

/-! ## Cutting behind line feeds -/

/-- A line feed ends the line in front of it. -/
theorem linesKeepingEnds_append_cons {line : Text} (h : newline ∉ line) (t : Text) :
    linesKeepingEnds (line ++ newline :: t) = (line ++ [newline]) :: linesKeepingEnds t := by
  induction line with
  | nil => simp [linesKeepingEnds_cons]
  | cons b line ih =>
    obtain ⟨hb, hline⟩ := not_or.mp (fun hmem => h (List.mem_cons.mpr hmem))
    rw [List.cons_append, linesKeepingEnds_cons, ih hline]
    simp [extendFirst, Ne.symm hb]

/-- If nothing is behind the last line feed, the lines are the ended ones. -/
theorem CutsInto.linesKeepingEnds_eq {t : Text} {lines : List Text} (h : t.CutsInto lines []) :
    linesKeepingEnds t = lines.map (· ++ [newline]) := by
  induction lines generalizing t with
  | nil =>
    rw [h.eq]
    rfl
  | cons line others ih =>
    obtain ⟨hline, hothers⟩ := List.forall_mem_cons.mp h.single
    have hrest := ih (.of_lines hothers)
    rw [h.eq, List.flatMap_cons, List.append_nil, List.append_assoc, List.singleton_append,
      linesKeepingEnds_append_cons hline, hrest]
    rfl

end ConfigShell.Text
