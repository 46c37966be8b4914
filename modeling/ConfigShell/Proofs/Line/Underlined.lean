import ConfigShell.Landing.Resolve
import ConfigShell.Proofs.Line.Around
import ConfigShell.Proofs.Line.Physical
import ConfigShell.Proofs.Text.Boundary
/-!
# What is underlined in a report

A report about a word shows the physical line on which the word begins, and carets below the word.
What stands around a word is ASCII (`Line.Token.Cuts`), so the word divides the characters of that
line: those in front of it, those of its part of the line, and those behind (`Line.Token.Shows`). The
carets begin below the first of its characters. There are as many of them as the word has bytes, as
far as the line goes (`WordError.report_underlines`); so they reach beyond a word that has a character
of several bytes, unless the line ends there.
-/

namespace ConfigShell

/-! ## Bytes dropped at the end -/

namespace Text

variable {b : UInt8} {t u : Text}

theorem trimRight_append (b : UInt8) (t u : Text) :
    trimRight b (t ++ u) = if trimRight b u = [] then trimRight b t else t ++ trimRight b u := by
  simp only [trimRight, List.reverse_append, List.dropWhile_append, List.isEmpty_iff,
    List.reverse_eq_nil_iff]
  split
  · rfl
  · rw [List.reverse_append, List.reverse_reverse]

theorem trimRight_prefix (b : UInt8) (t : Text) : trimRight b t <+: t := by
  have hsuffix := List.dropWhile_suffix (· == b) (l := t.reverse)
  rwa [← List.reverse_prefix, List.reverse_reverse] at hsuffix

theorem trimRight_of_getLast? (h : t.getLast? ≠ some b) : trimRight b t = t := by
  cases hlast : t.getLast? with
  | none =>
    rw [List.getLast?_eq_none_iff.mp hlast]
    rfl
  | some c =>
    obtain ⟨front, rfl⟩ := List.getLast?_eq_some_iff.mp hlast
    have hne : c ≠ b := fun hsame => h (hsame ▸ hlast)
    simp [trimRight, hne]

/-- What begins with another byte keeps it. -/
theorem trimRight_ne_nil {c : UInt8} (h : c ≠ b) (t : Text) : trimRight b (c :: t) ≠ [] := by
  have hone : trimRight b [c] = [c] := trimRight_of_getLast? (by simpa using h)
  rw [← List.singleton_append, trimRight_append, hone]
  split
  · exact List.cons_ne_nil c []
  · exact List.cons_ne_nil c _

end Text

/-! ## The part of a word on its first physical line -/

namespace Line

/-- The bytes of a token on the physical line on which it begins, without the carriage returns that
line ends in. -/
def Token.firstPart (line : Text) (t : Token) : Text :=
  Text.trimRight 0x0D
    ((Signed.drop t.start (Signed.take t.stop line)).takeWhile (· != Text.newline))

/-- A report shows the physical line on which a token begins: `begun` stands in front of the token,
then its part of that line, and `after` stands behind it. Each has its characters to itself. -/
structure Token.Shows (line : Text) (t : Token) (begun after : Text) : Prop where
  lastLine : ∃ front, LastLine (Signed.take t.start line) front begun
  shown : Text.trimRight 0x0D (physicalLine line t.start) = begun ++ (t.firstPart line ++ after)
  characters : Text.characters (begun ++ (t.firstPart line ++ after)) =
    Text.characters begun ++ (Text.characters (t.firstPart line) ++ Text.characters after)

namespace Token.Cuts

variable {line before word behind : Text} {t : Token}

theorem ne_of_head (h : t.Cuts line before word behind) {b : UInt8} (hb : word.head? = some b) :
    b ≠ Text.newline ∧ b ≠ 0x0D := by
  have hblank := h.starts b hb
  constructor
  all_goals
    rintro rfl
    cases hblank

theorem firstPart_eq (h : t.Cuts line before word behind) :
    t.firstPart line = Text.trimRight 0x0D (word.takeWhile (· != Text.newline)) := by
  have htake : Signed.take t.stop line = before ++ word := by
    rw [h.stop, Signed.take_natCast, h.line, ← List.append_assoc, ← List.length_append,
      List.take_left]
  rw [firstPart, htake, h.start, Signed.drop_natCast, List.drop_left]

/-- **Behind the part of a word on its first physical line** there is nothing more on that line, or
it goes on with the break that ends the word. -/
theorem exists_after (h : t.Cuts line before word behind) :
    ∃ after, Text.trimRight 0x0D ((word ++ behind).takeWhile (· != Text.newline)) =
        t.firstPart line ++ after ∧ ∀ b, after.head? = some b → isBreak b = true := by
  rw [h.firstPart_eq]
  by_cases hsingle : Text.newline ∈ word
  · obtain ⟨first, more, rfl⟩ := List.append_of_mem hsingle
    refine ⟨[], ?_, nofun⟩
    rw [List.append_assoc, List.cons_append, takeWhile_before_newline, takeWhile_before_newline,
      List.append_nil]
  · have hall : word.takeWhile (· != Text.newline) = word := by
      have hword := takeWhile_append_of_single hsingle []
      rwa [List.append_nil, List.takeWhile_nil, List.append_nil] at hword
    have hprefix : Text.trimRight 0x0D (behind.takeWhile (· != Text.newline)) <+: behind :=
      (Text.trimRight_prefix _ _).trans (List.takeWhile_prefix _)
    rw [takeWhile_append_of_single hsingle, hall, Text.trimRight_append]
    split
    · exact ⟨[], (List.append_nil _).symm, nofun⟩
    · rename_i hmore
      have hbehind : behind ≠ [] := by
        rintro rfl
        exact hmore rfl
      refine ⟨_, by rw [Text.trimRight_of_getLast? (h.noReturn hbehind)], fun b hb => ?_⟩
      obtain ⟨rest, hrest⟩ := List.head?_eq_some_iff.mp hb
      obtain ⟨more, hmore⟩ := hprefix
      exact h.behind_break b (by rw [← hmore, hrest]; rfl)

theorem firstPart_ne_nil (h : t.Cuts line before word behind) : t.firstPart line ≠ [] := by
  rw [h.firstPart_eq]
  cases hword : word with
  | nil => exact absurd hword h.ne_nil
  | cons b rest =>
    obtain ⟨hnewline, hreturn⟩ := h.ne_of_head (b := b) (by rw [hword]; rfl)
    rw [List.takeWhile_cons_of_pos (by simpa using hnewline)]
    exact Text.trimRight_ne_nil hreturn _

theorem firstPart_length_le (h : t.Cuts line before word behind) :
    (t.firstPart line).length ≤ word.length := by
  rw [h.firstPart_eq]
  exact ((Text.trimRight_prefix _ _).trans (List.takeWhile_prefix _)).length_le

/-- **What a report shows of a word.** -/
theorem exists_shows (h : t.Cuts line before word behind) :
    ∃ begun after, t.Shows line begun after := by
  obtain ⟨front, begun, hlast⟩ := exists_lastLine before
  obtain ⟨after, hafter, hbreak⟩ := h.exists_after
  have htake : line.take before.length = before := by rw [h.line, List.take_left]
  have hdrop : line.drop before.length = word ++ behind := by rw [h.line, List.drop_left]
  have hplace : LastLine (line.take before.length) front begun := htake.symm ▸ hlast
  refine ⟨begun, after, ⟨front, ?_⟩, ?_, ?_⟩
  · rw [h.start, Signed.take_natCast]
    exact hplace
  · rw [h.start, hplace.physicalLine_eq, hdrop, Text.trimRight_append, hafter]
    exact if_neg (by simp [h.firstPart_ne_nil])
  · have hbegun : ∀ b, begun.getLast? = some b → b < 0x80 := by
      intro b hb
      refine ascii_of_isBlank (h.before_blank b ?_)
      rw [hlast.cut, List.getLast?_append, hb]
      rfl
    rw [Text.characters_append_of_getLast? hbegun, Text.characters_append_of_head?]
    exact fun b hb => ascii_of_isBlank (isBlank_of_isBreak (hbreak b hb))

end Token.Cuts

/-- **The context of a token** is the line it begins on, and below it blanks up to its column and
carets, at most as many as the line has characters from there on. -/
theorem Token.Shows.context_eq {line begun after : Text} {t : Token}
    (h : t.Shows line begun after) {n : Nat} (hstart : t.start = n) (breadth : Nat) :
    columnAt line t.start = Text.width begun + 1 ∧
    context line t.start breadth = "  | " ++ (begun ++ (t.firstPart line ++ after)) ++ "\n  | " ++
      run 0x20 (Text.width begun) ++
      run 0x5E (max 1 (min breadth (Text.width (t.firstPart line) + Text.width after))) := by
  obtain ⟨front, hlast⟩ := h.lastLine
  have hcolumn : columnAt line t.start = Text.width begun + 1 := by
    rw [hstart, Signed.take_natCast] at hlast
    rw [hstart]
    exact hlast.columnAt_eq
  have hroom : Text.width (begun ++ (t.firstPart line ++ after)) + 1 - (Text.width begun + 1) =
      Text.width (t.firstPart line) + Text.width after := by
    have hwidth := congrArg List.length h.characters
    simp only [List.length_append] at hwidth
    simp only [Text.width]
    omega
  refine ⟨hcolumn, ?_⟩
  rw [context, hcolumn, h.shown, hroom, Nat.add_sub_cancel]

end Line

namespace WordError

theorem report_of_located {e : WordError} {t : Line.Token} (h : e.locatedToken? = some t)
    {line : Text} (hline : line ≠ []) (number : Option Int) :
    e.report number (some line) =
      e.complaint ++ Line.place (some (Line.columnAt line t.start : Nat)) number ++ "\n" ++
        Line.context line t.start (max 1 (t.stop - t.start).toNat) := by
  have hcolumn : e.column (some line) = some (Line.columnAt line t.start : Int) := by
    simp [column, h]
  cases line with
  | nil => exact absurd rfl hline
  | cons b rest => simp [report, hcolumn, h]

/-- **What is underlined of a word.** A report about a word of a line ends in the physical line on
which the word begins, without carriage returns at its end, and in carets that begin below the first
character of the word. There are as many as the word has bytes, but none behind the end of that line;
so at least as many as the part of the word on that line has characters. There are just that many
where each byte of the word is a character of its own, or where nothing stands behind the word on
that line. -/
theorem report_underlines {line : Text} {lexed : Line.Lexed} (h : Line.lex line = .ok lexed)
    {t : Line.Token} (ht : t ∈ lexed.tokens) (word : Text) (refusal : Refusal)
    (number : Option Int) :
    ∃ (begun after : Text) (bytes carets : Nat), t.Shows line begun after ∧
      report ⟨word, some t, refusal⟩ number (some line) =
        complaint ⟨word, some t, refusal⟩ ++
          Line.place (some (Text.width begun + 1 : Nat)) number ++ "\n" ++
          ("  | " ++ (begun ++ (t.firstPart line ++ after)) ++ "\n  | " ++
            Line.run 0x20 (Text.width begun) ++ Line.run 0x5E carets) ∧
      t.stop = t.start + bytes ∧
      carets = min bytes (Text.width (t.firstPart line) + Text.width after) ∧
      1 ≤ Text.width (t.firstPart line) ∧ Text.width (t.firstPart line) ≤ carets ∧
      (carets = Text.width (t.firstPart line) ↔
        bytes = Text.width (t.firstPart line) ∨ after = []) := by
  obtain ⟨before, own, behind, hcuts⟩ := Line.exists_cuts_of_lex h ht
  obtain ⟨begun, after, hshows⟩ := hcuts.exists_shows
  have hbytes : t.stop = t.start + own.length := by
    rw [hcuts.stop, hcuts.start, Int.natCast_add]
  have hsome : 1 ≤ Text.width (t.firstPart line) :=
    Nat.pos_of_ne_zero fun hnone => hcuts.firstPart_ne_nil (Text.width_eq_zero_iff.mp hnone)
  have hwidth : Text.width (t.firstPart line) ≤ own.length :=
    (Text.width_le_length _).trans hcuts.firstPart_length_le
  obtain ⟨hcolumn, hcontext⟩ := hshows.context_eq hcuts.start own.length
  have hclamped : max 1 (min own.length (Text.width (t.firstPart line) + Text.width after)) =
      min own.length (Text.width (t.firstPart line) + Text.width after) := by omega
  rw [hclamped] at hcontext
  refine ⟨begun, after, own.length, _, hshows, ?_, hbytes, rfl, hsome, by omega, ?_⟩
  · have hbreadth : max 1 (t.stop - t.start).toNat = own.length := by omega
    have hlocated : locatedToken? ⟨word, some t, refusal⟩ = some t := by
      simp [locatedToken?, hcuts.located]
    have hline : line ≠ [] := by
      rw [hcuts.line]
      simp [hcuts.ne_nil]
    rw [report_of_located hlocated hline, hcolumn, hbreadth, hcontext]
  · rw [← Text.width_eq_zero_iff]
    omega

/-- In the line `é go` the second word begins below the third character and has two carets. -/
theorem report_underlines_behind :
    ∃ (lexed : Line.Lexed) (t : Line.Token) (begun after : Text),
      Line.lex [0xC3, 0xA9, 0x20, 0x67, 0x6F] = .ok lexed ∧ t ∈ lexed.tokens ∧
      t.Shows [0xC3, 0xA9, 0x20, 0x67, 0x6F] begun after ∧
      t.firstPart [0xC3, 0xA9, 0x20, 0x67, 0x6F] = [0x67, 0x6F] ∧
      report ⟨t.data, some t, .notFound⟩ (some 1) (some [0xC3, 0xA9, 0x20, 0x67, 0x6F]) =
        complaint ⟨t.data, some t, .notFound⟩ ++
          Line.place (some (Text.width begun + 1 : Nat)) (some 1) ++ "\n" ++
          ("  | " ++ (begun ++ (t.firstPart [0xC3, 0xA9, 0x20, 0x67, 0x6F] ++ after)) ++ "\n  | " ++
            Line.run 0x20 (Text.width begun) ++ Line.run 0x5E 2) := by
  have hlex : Line.lex [0xC3, 0xA9, 0x20, 0x67, 0x6F] = .ok _ := rfl
  have ht := List.mem_cons_of_mem (⟨[0xC3, 0xA9], 0, 2, none, [0, 1], true⟩ : Line.Token)
    (List.mem_singleton_self (⟨[0x67, 0x6F], 3, 5, none, [3, 4], true⟩ : Line.Token))
  obtain ⟨begun, after, bytes, carets, hshows, hreport, hbytes, -, -, -, hiff⟩ :=
    report_underlines hlex ht [0x67, 0x6F] .notFound (some 1)
  obtain rfl : bytes = 2 := by
    have hsum : (5 : Int) = 3 + bytes := hbytes
    omega
  have hpart : Line.Token.firstPart [0xC3, 0xA9, 0x20, 0x67, 0x6F]
      ⟨[0x67, 0x6F], 3, 5, none, [3, 4], true⟩ = [0x67, 0x6F] := by decide
  rw [hpart] at hiff
  obtain rfl : carets = 2 := hiff.mpr (.inl rfl)
  exact ⟨_, _, begun, after, rfl, ht, hshows, hpart, hreport⟩

/-- In the line `é x` two carets stand below the first word, which is one character. -/
theorem report_underlines_two_bytes :
    ∃ (lexed : Line.Lexed) (t : Line.Token),
      Line.lex [0xC3, 0xA9, 0x20, 0x78] = .ok lexed ∧ t ∈ lexed.tokens ∧
      t.Shows [0xC3, 0xA9, 0x20, 0x78] [] [0x20, 0x78] ∧
      t.firstPart [0xC3, 0xA9, 0x20, 0x78] = [0xC3, 0xA9] ∧ Text.width [0xC3, 0xA9] = 1 ∧
      report ⟨t.data, some t, .notFound⟩ (some 1) (some [0xC3, 0xA9, 0x20, 0x78]) =
        "bad command 'é': not found (line 1 column 1)\n  | é x\n  | ^^" := by
  refine ⟨_, ⟨[0xC3, 0xA9], 0, 2, none, [0, 1], true⟩, rfl, List.mem_cons_self, ⟨⟨[], ?_⟩, ?_, ?_⟩,
    ?_, ?_, ?_⟩
  · exact ⟨rfl, .inl rfl, List.not_mem_nil⟩
  all_goals decide +kernel

end WordError

end ConfigShell
