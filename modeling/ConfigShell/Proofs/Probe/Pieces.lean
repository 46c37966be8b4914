import ConfigShell.Probe.Run
import ConfigShell.Proofs.Text.Lines
/-!
# The pieces of an answer do not matter

A command's answer comes in pieces that may be cut anywhere. Between two pieces an intake keeps the
beginning of the line under way, or only knows that this line has become too long, and either is
enough: whatever the pieces are, the parameter in the end is the one that the ended lines of the
whole answer give, those that are not too long, taken one after another (`collected_of_pieces`).
`Intake.HasRead` ties what an intake keeps to what it has read.
-/

namespace ConfigShell

namespace Probe.Intake

theorem cutLines_eq {t rest : Text} {lines : List Text} (h : t.CutsInto lines rest) :
    cutLines t = (lines, rest) := by
  unfold cutLines
  rw [h.splitOn_eq]
  simp

/-- **Cutting at line feeds gives the ended lines.** -/
theorem cutsInto_cutLines (t : Text) : t.CutsInto (cutLines t).1 (cutLines t).2 := by
  obtain ⟨lines, rest, hcut⟩ := Text.exists_cutsInto t
  rw [cutLines_eq hcut]
  exact hcut

/-! ## What an intake has read -/

/-- What has been collected, apart from the line under way. -/
def collected (i : Intake) : Intake := { parameter := i.parameter, count := i.count }

/-- Takes those lines that are not too long. -/
def takeLines (i : Intake) (lines : List Text) : Intake :=
  (lines.filter (·.length < maxLine)).foldl takeLine i

/-- Taking a line is up to what has been collected. -/
theorem collected_takeLine (i : Intake) (line : Text) :
    (i.takeLine line).collected = i.collected.takeLine line := by
  unfold takeLine collected
  repeat' split
  all_goals simp_all

theorem isSkipping_takeLine (i : Intake) (line : Text) :
    (i.takeLine line).isSkipping = i.isSkipping := by
  unfold takeLine
  repeat' split
  all_goals rfl

theorem takeLines_append (i : Intake) (lines more : List Text) :
    i.takeLines (lines ++ more) = (i.takeLines lines).takeLines more := by
  simp [takeLines]

/-- An ended line that is not in the middle of one that is too long is taken if it is short. -/
theorem takeEnded_of_not_skipping {i : Intake} (h : i.isSkipping = false) (line : Text) :
    (i.takeEnded line).isSkipping = false ∧
      (i.takeEnded line).collected = i.collected.takeLines [line] := by
  unfold takeEnded takeLines
  rw [h]
  by_cases hshort : line.length < maxLine
  · simp only [Bool.false_eq_true, if_false, hshort, if_true, decide_true, List.filter_cons,
      List.filter_nil, List.foldl_cons, List.foldl_nil]
    exact ⟨(isSkipping_takeLine i line).trans h, collected_takeLine i line⟩
  · simp [hshort, h]

theorem foldl_takeEnded {i : Intake} (h : i.isSkipping = false) (lines : List Text) :
    (lines.foldl takeEnded i).isSkipping = false ∧
      (lines.foldl takeEnded i).collected = i.collected.takeLines lines := by
  induction lines generalizing i with
  | nil => exact ⟨h, rfl⟩
  | cons line rest ih =>
    obtain ⟨hskipping, hcollected⟩ := takeEnded_of_not_skipping h line
    obtain ⟨hlast, hrest⟩ := ih hskipping
    refine ⟨hlast, ?_⟩
    rw [List.foldl_cons, hrest, hcollected, ← takeLines_append]
    rfl

/-- The intake has read these ended lines, for the parameter `p`, and then `rest`. It has collected
what the lines give. Of the rest it keeps all, or else it knows that it is too long for a line and
keeps some text that goes on in the same line. -/
structure HasRead (p : Parameter) (lines : List Text) (rest : Text) (i : Intake) : Prop where
  collected : i.collected = takeLines { parameter := p } lines
  kept : if i.isSkipping then maxLine ≤ rest.length ∧ Text.newline ∉ i.pending
    else i.pending = rest

variable {p : Parameter} {i : Intake} {lines : List Text} {rest piece : Text}

theorem hasRead_start (p : Parameter) : HasRead p [] [] { parameter := p } := ⟨rfl, rfl⟩

theorem HasRead.unended (h : HasRead p lines rest i) (hrest : Text.newline ∉ rest) :
    Text.newline ∉ i.pending := by
  have hkept := h.kept
  split at hkept
  · exact hkept.2
  · rw [hkept]
    exact hrest

/-- A piece without a line end makes the rest longer, and maybe too long. -/
theorem HasRead.feed_unended (h : HasRead p lines rest i) (hrest : Text.newline ∉ rest)
    (hpiece : Text.newline ∉ piece) : HasRead p lines (rest ++ piece) (i.feed piece) := by
  have hpending : Text.newline ∉ i.pending ++ piece := by simp [h.unended hrest, hpiece]
  have hkept := h.kept
  unfold feed
  rw [cutLines_eq (.of_not_mem hpending)]
  dsimp only [List.foldl_nil]
  unfold keepRest
  split
  · rename_i hlong
    refine ⟨h.collected, ?_⟩
    rw [if_pos rfl]
    refine ⟨?_, nofun⟩
    simp only [List.length_append] at hlong ⊢
    split at hkept
    · omega
    · rw [hkept] at hlong
      omega
  · refine ⟨h.collected, ?_⟩
    dsimp only
    split at hkept
    · rename_i hskipping
      rw [if_pos hskipping]
      refine ⟨?_, hpending⟩
      rw [List.length_append]
      omega
    · rename_i hskipping
      rw [if_neg hskipping, hkept]

/-- When the line under way is over, it has been taken or passed over as the whole line would be. -/
theorem HasRead.takeEnded (h : HasRead p lines rest i) (first : Text) :
    (i.takeEnded (i.pending ++ first)).isSkipping = false ∧
      (i.takeEnded (i.pending ++ first)).collected =
        takeLines { parameter := p } (lines ++ [rest ++ first]) := by
  have hkept := h.kept
  rw [takeLines_append, ← h.collected]
  cases hskipping : i.isSkipping with
  | false =>
    rw [hskipping] at hkept
    obtain rfl : i.pending = rest := hkept
    exact takeEnded_of_not_skipping hskipping _
  | true =>
    rw [hskipping] at hkept
    obtain ⟨hlong, -⟩ : maxLine ≤ rest.length ∧ Text.newline ∉ i.pending := hkept
    have hdropped : i.collected.takeLines [rest ++ first] = i.collected := by
      have hfilter : [rest ++ first].filter (·.length < maxLine) = [] := by
        simp only [List.filter_cons, List.length_append, List.filter_nil]
        exact if_neg (by simp; omega)
      rw [takeLines, hfilter]
      rfl
    rw [hdropped]
    simp [Intake.takeEnded, hskipping, Intake.collected]

/-- A piece with line ends ends the line under way, which is taken unless it is too long. -/
theorem HasRead.feed_ended (h : HasRead p lines rest i) (hrest : Text.newline ∉ rest)
    {first rest' : Text} {more : List Text} (hpiece : piece.CutsInto (first :: more) rest') :
    HasRead p (lines ++ (rest ++ first) :: more) rest' (i.feed piece) := by
  have hcut := Text.CutsInto.append_line (h.unended hrest) hpiece
  obtain ⟨hskipping, hcollected⟩ := h.takeEnded first
  obtain ⟨hlast, htaken⟩ := foldl_takeEnded hskipping more
  rw [hcollected, ← takeLines_append, List.append_assoc, List.singleton_append] at htaken
  unfold feed
  rw [cutLines_eq hcut]
  dsimp only [List.foldl_cons]
  unfold keepRest
  split
  · rename_i hlong
    refine ⟨htaken, ?_⟩
    rw [if_pos rfl]
    exact ⟨Nat.le_of_lt hlong, nofun⟩
  · refine ⟨htaken, ?_⟩
    dsimp only
    rw [hlast]
    rfl

/-- **One piece more**, wherever it is cut off. -/
theorem HasRead.feed {t : Text} (h : HasRead p lines rest i) (ht : t.CutsInto lines rest)
    (piece : Text) :
    ∃ lines' rest', (t ++ piece).CutsInto lines' rest' ∧ HasRead p lines' rest' (i.feed piece) := by
  have hpiece := cutsInto_cutLines piece
  cases hlines : (cutLines piece).1 with
  | nil =>
    rw [hlines] at hpiece
    have hunended : Text.newline ∉ piece := by
      rw [hpiece.eq]
      exact hpiece.unended
    have hcut := ht.append (.of_not_mem (t := rest ++ piece) (by simp [ht.unended, hunended]))
    rw [List.append_nil] at hcut
    exact ⟨_, _, hcut, h.feed_unended ht.unended hunended⟩
  | cons first more =>
    rw [hlines] at hpiece
    have hcut := ht.append (.append_line ht.unended hpiece)
    exact ⟨_, _, hcut, h.feed_ended ht.unended hpiece⟩

/-- **All pieces.** What an intake has read in the end is the whole output. -/
theorem HasRead.feedAll {t : Text} (h : HasRead p lines rest i) (ht : t.CutsInto lines rest)
    (pieces : List Text) :
    ∃ lines' rest', (t ++ pieces.flatten).CutsInto lines' rest' ∧
      HasRead p lines' rest' (pieces.foldl Intake.feed i) := by
  induction pieces generalizing t i lines rest with
  | nil => exact ⟨lines, rest, by simpa using ht, h⟩
  | cons piece pieces ih =>
    obtain ⟨lines₁, rest₁, ht₁, h₁⟩ := h.feed ht piece
    obtain ⟨lines₂, rest₂, ht₂, h₂⟩ := ih h₁ ht₁
    exact ⟨lines₂, rest₂, by simpa using ht₂, h₂⟩

theorem exists_hasRead (p : Parameter) (pieces : List Text) :
    ∃ (lines : List Text) (rest : Text), Text.CutsInto pieces.flatten lines rest ∧
      HasRead p lines rest (pieces.foldl Intake.feed { parameter := p }) := by
  simpa using (hasRead_start p).feedAll (.of_not_mem (t := []) nofun) pieces

end Probe.Intake

/-- **An answer is read independently of how it is cut into pieces.** The answer is a row of ended
lines and a rest without a line end, in one way only. Whatever pieces it comes in, the parameter is
in the end what one fresh intake makes of it that takes the lines of fewer than `maxLine` bytes, in
order; longer lines and the rest have no effect. In particular it is what the answer gives when it
comes as a whole. -/
theorem Probe.collected_of_pieces (p : Parameter) (pieces : List Text) :
    (∃ (lines : List Text) (rest : Text), Text.CutsInto pieces.flatten lines rest ∧
      (pieces.foldl Intake.feed { parameter := p }).parameter =
        ((lines.filter (·.length < maxLine)).foldl Intake.takeLine { parameter := p }).parameter) ∧
    (pieces.foldl Intake.feed { parameter := p }).parameter = collect p pieces.flatten := by
  obtain ⟨lines, rest, hcut, hread⟩ := Intake.exists_hasRead p pieces
  have hparameter {i j : Intake} (h : i.collected = j) : i.parameter = j.parameter := by
    rw [← h]
    rfl
  refine ⟨⟨lines, rest, hcut, hparameter hread.collected⟩, ?_⟩
  obtain ⟨lines', rest', hcut', hread'⟩ := Intake.exists_hasRead p [pieces.flatten]
  rw [List.flatten_singleton] at hcut'
  -- the one piece is cut into the same lines as the many
  obtain ⟨rfl, rfl⟩ := Prod.mk.inj ((Intake.cutLines_eq hcut).symm.trans (Intake.cutLines_eq hcut'))
  exact (hparameter hread.collected).trans (hparameter hread'.collected).symm

end ConfigShell
