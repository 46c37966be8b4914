import ConfigShell.Landing.Resolve
import ConfigShell.Proofs.Line.Ended
import ConfigShell.Proofs.Line.Offsets
import ConfigShell.Proofs.Line.Physical
/-!
# What is reported of a line that has been ended

A typed line comes without the break that ends it, a line of a script with it. What is said about
the line is the same: a fault is found before the break is reached (`lexFinal_of_lex_error`), the
words stand in front of it (`standsIn_of_lex`), and a place in front of the break has the same
column, and the same physical line around it, with the break and without.
-/

namespace ConfigShell

namespace Line

variable {source : Text}

/-! ## Places in front of the break -/

/-- A place in a text, its end included. -/
def IsPlace (source : Text) (i : Int) : Prop := 0 ≤ i ∧ i ≤ source.length

theorem IsPlace.exists_nat {i : Int} (h : IsPlace source i) :
    ∃ n : Nat, i = n ∧ n ≤ source.length := by
  obtain ⟨hnonneg, hle⟩ := h
  obtain ⟨n, rfl⟩ := Int.eq_ofNat_of_zero_le hnonneg
  exact ⟨n, rfl, by omega⟩

theorem LastLine.append {n : Nat} {front begun : Text} (h : LastLine (source.take n) front begun)
    (hn : n ≤ source.length) (more : Text) : LastLine ((source ++ more).take n) front begun := by
  rwa [List.take_append_of_le_length hn]

theorem physicalLine_append_newline {i : Int} (h : IsPlace source i) :
    physicalLine (source ++ [Text.newline]) i = physicalLine source i := by
  obtain ⟨n, rfl, hn⟩ := h.exists_nat
  obtain ⟨front, begun, hlast⟩ := exists_lastLine (source.take n)
  rw [hlast.physicalLine_eq, (hlast.append hn [Text.newline]).physicalLine_eq,
    List.drop_append_of_le_length hn, takeWhile_before_newline]

theorem columnAt_append_newline {i : Int} (h : IsPlace source i) :
    columnAt (source ++ [Text.newline]) i = columnAt source i := by
  obtain ⟨n, rfl, hn⟩ := h.exists_nat
  obtain ⟨front, begun, hlast⟩ := exists_lastLine (source.take n)
  rw [hlast.columnAt_eq, (hlast.append hn [Text.newline]).columnAt_eq]

/-- **The line is shown the same** around a place in front of the break. -/
theorem context_append_newline {i : Int} (h : IsPlace source i) (breadth : Nat) :
    context (source ++ [Text.newline]) i breadth = context source i breadth := by
  rw [context, physicalLine_append_newline h, columnAt_append_newline h, context]

/-! ## Faults -/

namespace LexError

variable {e : LexError}

theorem subject_append {n : Nat} (hoffset : e.offset = n) (hn : n < e.source.length)
    (more : Text) : subject { e with source := e.source ++ more } = e.subject := by
  have hcast : ((n : Int) + 1) = ((n + 1 : Nat) : Int) := rfl
  have hlt : ((n : Int) < e.source.length) := by omega
  have hlt' : ((n : Int) < (e.source ++ more).length) := by
    rw [List.length_append]
    omega
  simp only [subject, hoffset, hlt, hlt', if_true]
  rw [hcast, Signed.take_natCast, Signed.take_natCast, Signed.index_natCast, Signed.index_natCast,
    List.take_append_of_le_length hn]

/-- **A fault within a line is reported the same** with the break at its end. -/
theorem report_append_newline {n : Nat} (hoffset : e.offset = n) (hn : n < e.source.length)
    (line : Option Int) :
    report { e with source := e.source ++ [Text.newline] } line = e.report line := by
  have hplace : IsPlace e.source e.offset := ⟨by omega, by omega⟩
  unfold report
  rw [subject_append hoffset hn]
  simp only [column, columnAt_append_newline hplace, context_append_newline hplace]

end LexError

namespace Reading

variable {r r' : Reading}

theorem position_of_feedWord {s : State} {w : Word} {b : UInt8}
    (h : r.feedWord s w b = .ok r') : r'.position = r.position + 1 := by
  unfold feedWord at h
  split at h
  · cases h
  · dsimp only at h
    split at h <;> cases h <;> rfl

theorem position_of_feed {b : UInt8} (h : r.feed b = .ok r') :
    r'.position = r.position + 1 := by
  unfold feed at h
  split at h
  · exact position_of_feedWord h
  · split at h
    · cases h
      rfl
    · exact position_of_feedWord h

theorem offset_of_feed {b : UInt8} {fault : Fault} {offset : Nat}
    (h : r.feed b = .error (fault, offset)) : offset = r.position := by
  have hword {s : State} {w : Word} (h : r.feedWord s w b = .error (fault, offset)) :
      offset = r.position := by
    unfold feedWord at h
    split at h
    · cases h
      rfl
    · dsimp only at h
      split at h <;> cases h
  unfold feed at h
  split at h
  · exact hword h
  · split at h
    · cases h
    · exact hword h

/-- A fault is found at a byte of the text read. -/
theorem offset_of_feedAll {t : Text} {fault : Fault} {offset : Nat}
    (h : r.feedAll t = .error (fault, offset)) : offset < r.position + t.length := by
  induction t generalizing r with
  | nil => cases h
  | cons b t ih =>
    rw [feedAll_cons] at h
    rw [List.length_cons]
    cases hfeed : r.feed b with
    | error e =>
      rw [hfeed] at h
      cases h
      have hoffset := offset_of_feed hfeed
      omega
    | ok r' =>
      rw [hfeed] at h
      have hlt := ih h
      have hposition := position_of_feed hfeed
      omega

end Reading

/-- **A fault of a typed line** is one of the line ended, and is reported the same. -/
theorem lexFinal_of_lex_error {line : Text} {e : LexError} (h : lex line = .error e) :
    ∃ e', lexFinal (line ++ [Text.newline]) = .error e' ∧ ∀ number, e'.report number =
      e.report number := by
  cases hplain : startsComment {} line with
  | true =>
    rw [lex, hplain] at h
    cases h
  | false =>
    rw [lex_eq_feedAll hplain, Reading.start_default] at h
    cases hfeed : Reading.feedAll { state := {} } line with
    | ok r =>
      rw [hfeed] at h
      cases h
    | error found =>
      obtain ⟨fault, offset⟩ := found
      rw [hfeed] at h
      cases h
      have hlt : offset < line.length := by simpa using Reading.offset_of_feedAll hfeed
      -- the break is not reached
      have hended : Reading.feedAll { state := {} } (line ++ [Text.newline]) =
          .error (fault, offset) := by
        rw [Reading.feedAll_append, hfeed]
        rfl
      have hplain' : startsComment {} (line ++ [Text.newline]) = false :=
        (startsComment_append_newline line).trans hplain
      refine ⟨⟨fault, offset, line ++ [Text.newline]⟩, ?_, fun number => ?_⟩
      · rw [lexFinal, lex_eq_feedAll hplain', Reading.start_default, hended]
        rfl
      · exact LexError.report_append_newline (e := ⟨fault, offset, line⟩) rfl hlt number

/-! ## Words -/

/-- The word is a part of the text: it begins and ends there, and its bytes come from there. -/
structure Token.StandsIn (source : Text) (t : Token) : Prop where
  located : t.located = true
  start : IsPlace source t.start
  stop : IsPlace source t.stop
  offsets : ∀ i ∈ t.offsets, IsPlace source i

theorem Token.StandsIn.dropFirst {t : Token} (h : t.StandsIn source) (n : Int) :
    (t.dropFirst n).StandsIn source where
  located := h.located
  start := by
    show IsPlace source ((Signed.get? n t.offsets).getD t.stop)
    cases hget : Signed.get? n t.offsets with
    | none => exact h.stop
    | some i =>
      unfold Signed.get? at hget
      split at hget
      · exact h.offsets i (List.mem_of_getElem? hget)
      · cases hget
  stop := h.stop
  offsets i hi := h.offsets i (List.mem_of_mem_drop hi)

theorem Token.ComesFrom.standsIn {t : Token} {states : List State}
    (h : t.ComesFrom source states) (located : t.located = true) : t.StandsIn source := by
  obtain ⟨hstart, hlt, hstop⟩ := h.range
  refine ⟨located, ⟨hstart, by omega⟩, ⟨by omega, hstop⟩, fun i hi => ?_⟩
  obtain ⟨hle, hbefore⟩ := h.within i hi
  exact ⟨by omega, by omega⟩

variable {line : Text} {lexed : Lexed}

theorem source_of_lex {state : State} (h : lex line state = .ok lexed) : lexed.source = line := by
  unfold lex at h
  split at h
  · cases h
    rfl
  · split at h <;> cases h
    rfl

theorem source_of_lexFinal (h : lexFinal line = .ok lexed) : lexed.source = line := by
  unfold lexFinal at h
  cases hlex : lex line with
  | error e =>
    rw [hlex] at h
    cases h
  | ok found =>
    simp only [hlex, Bind.bind, Except.bind] at h
    split at h <;> cases h
    exact source_of_lex hlex

/-- **The words of a line stand in it.** -/
theorem standsIn_of_lex (h : lex line = .ok lexed) (hcomment : lexed.isComment = false) :
    ∀ t ∈ lexed.tokens, t.StandsIn line := by
  obtain ⟨r, -, hrecords, rfl⟩ := exists_records_of_lex h hcomment
  exact fun t ht => (hrecords.comesFrom_finish t ht).standsIn (hrecords.located_finish t ht)

/-- **A typed line that does not end open** is read when it has been ended, and has the same
words. -/
theorem lexFinal_of_lex (h : lex line = .ok lexed) (hclosed : lexed.state.isOpen = false) :
    ∃ given, lexFinal (line ++ [Text.newline]) = .ok given ∧ given.tokens = lexed.tokens ∧
      given.isComment = lexed.isComment ∧ given.source = line ++ [Text.newline] := by
  have hfinal : lexFinal line = .ok lexed := by
    rw [lexFinal, h]
    simp [Bind.bind, Except.bind, hclosed]
  have halike : ReadAlike (lexFinal line) (lexFinal (line ++ [Text.newline])) :=
    readAlike_newline line
  rw [hfinal] at halike
  cases hgiven : lexFinal (line ++ [Text.newline]) with
  | error e =>
    rw [hgiven] at halike
    cases halike
  | ok given =>
    rw [hgiven] at halike
    exact ⟨given, rfl, halike.1.symm, halike.2.symm, source_of_lexFinal hgiven⟩

end Line

/-- **A complaint about a word of a line is worded the same** with the break at its end. -/
theorem WordError.report_append_newline {e : WordError} {source : Text} (hsource : source ≠ [])
    (h : ∀ t ∈ e.token, t.StandsIn source) (number : Option Int) :
    e.report number (some (source ++ [Text.newline])) = e.report number (some source) := by
  obtain ⟨b, rest, rfl⟩ := List.exists_cons_of_ne_nil hsource
  cases hlocated : e.locatedToken? with
  | none => simp [report, column, hlocated]
  | some t =>
    obtain ⟨ht, -⟩ := Option.filter_eq_some_iff.mp hlocated
    have hstart : Line.IsPlace (b :: rest) t.start := (h t ht).start
    have hcolumn := Line.columnAt_append_newline hstart
    have hcontext := Line.context_append_newline hstart (max 1 (t.stop - t.start).toNat)
    rw [List.cons_append] at hcolumn hcontext
    simp only [report, column, hlocated, Option.map_some, List.cons_append, hcolumn, hcontext]

end ConfigShell
