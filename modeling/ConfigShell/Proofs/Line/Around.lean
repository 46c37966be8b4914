import Mathlib.Data.List.Induction
import ConfigShell.Proofs.Line.Extended
/-!
# What stands around a word

A word of a line stands between blanks, breaks and the ends of the line, and begins with a byte that
is no blank (`Token.Cuts`). A carriage return within a word is quoted, so that a word with something
behind it does not end in one. The words that have ended were under way when a break was read
(`Reading.exists_break_of_mem`), and a word under way begins behind a blank, so both come down to what
a reading has read when a word is under way (`Reading.cuts_close`).
-/

namespace ConfigShell.Line

/-- A token stands for the bytes `word` of a line, `before` and `behind` being the others. In front
of the word is a blank and behind it a break, if anything. -/
structure Token.Cuts (line : Text) (t : Token) (before word behind : Text) : Prop where
  line : line = before ++ (word ++ behind)
  start : t.start = before.length
  stop : t.stop = (before.length + word.length : Nat)
  located : t.located = true
  starts : ∀ b, word.head? = some b → isBlank b = false
  ne_nil : word ≠ []
  before_blank : ∀ b, before.getLast? = some b → isBlank b = true
  behind_break : ∀ b, behind.head? = some b → isBreak b = true
  /-- A carriage return would have ended the word before. -/
  noReturn : behind ≠ [] → word.getLast? ≠ some 0x0D

theorem ascii_of_isBlank {b : UInt8} (h : isBlank b = true) : b < 0x80 := by
  simp only [isBlank, Bool.or_eq_true, beq_iff_eq] at h
  rcases h with ((((rfl | rfl) | rfl) | rfl) | rfl) | rfl
  all_goals decide

/-- A carriage return within a word is quoted. -/
theorem State.isOpen_of_step_return {s : State} {step : Step} (h : s.step 0x0D = .ok step)
    (goesOn : step.isBoundary = false) : step.state.isOpen = true := by
  cases hopen : s.isOpen with
  | false =>
    rw [step_break hopen (by decide)] at h
    cases h
    cases goesOn
  | true =>
    cases hescape : s.escape.isOpen with
    | true =>
      obtain ⟨escape, quote, inWord, equalsSeen, code⟩ := s
      cases escape with
      | none | ended => cases hescape
      | backslash | octal | hex | control => cases h
    | false =>
      rw [step_of_escape_closed hescape] at h
      cases h
      cases hquote : s.quote with
      | none => simp [isOpen, hescape, hquote] at hopen
      | ended => simp [isOpen, hescape, hquote] at hopen
      | single => simp [stepPlain, isOpen]
      | double => simp [stepPlain, isOpen]

theorem Reads.getLast?_ne_return {s s' : State} {t : Text} {steps : List Step}
    (h : Reads s t steps s') (hclosed : s'.isOpen = false) : t.getLast? ≠ some 0x0D := by
  intro hlast
  obtain ⟨front, rfl⟩ := List.getLast?_eq_some_iff.mp hlast
  obtain ⟨first, second, m, -, -, hreturn⟩ := h.of_append
  cases hreturn with
  | cons hstep goesOn rest =>
    cases rest
    rw [State.isOpen_of_step_return hstep goesOn] at hclosed
    cases hclosed

namespace Reading

variable {line : Text} {m r : Reading} {b : UInt8}

/-- A byte is read within a word, or it is a blank. Then it ends no word, or it is a break and ends
the word under way. -/
theorem feed_cases (hfeed : m.feed b = .ok r) :
    (r.word ≠ none ∧ r.tokens = m.tokens) ∨
      (isBlank b = true ∧ (r.tokens = m.tokens ∨ ∃ w, m.word = some w ∧ m.state.isOpen = false ∧
        isBreak b = true ∧ r.tokens = m.tokens.push (w.close m.position))) := by
  have hword {s : State} {w : Word} (hfeed : m.feedWord s w b = .ok r) :
      (r.word ≠ none ∧ r.tokens = m.tokens) ∨ s.isOpen = false ∧ isBreak b = true ∧
        r.tokens = m.tokens.push (w.close m.position) := by
    cases hstep : s.step b with
    | error fault =>
      rw [feedWord_of_error hstep] at hfeed
      cases hfeed
    | ok step =>
      cases hboundary : step.isBoundary with
      | true =>
        rw [feedWord_of_boundary hstep hboundary] at hfeed
        cases hfeed
        obtain ⟨hclosed, hbreak⟩ := (State.keeps_step hstep).boundary hboundary
        exact .inr ⟨hclosed, hbreak, rfl⟩
      | false =>
        rw [feedWord_of_goesOn hstep hboundary] at hfeed
        cases hfeed
        exact .inl ⟨Option.some_ne_none _, rfl⟩
  cases hw : m.word with
  | some w =>
    simp only [Reading.feed, hw] at hfeed
    rcases hword hfeed with hwithin | ⟨hclosed, hbreak, hpushed⟩
    · exact .inl hwithin
    · exact .inr ⟨isBlank_of_isBreak hbreak, .inr ⟨w, rfl, hclosed, hbreak, hpushed⟩⟩
  | none =>
    by_cases hblank : isBlank b
    · rw [feed_blank hw hblank] at hfeed
      cases hfeed
      exact .inr ⟨hblank, .inl rfl⟩
    · simp only [Reading.feed, hw, hblank, Bool.false_eq_true, if_false] at hfeed
      rcases hword hfeed with hwithin | ⟨-, hbreak, -⟩
      · exact .inl hwithin
      · -- a break begins no word
        exact absurd (isBlank_of_isBreak hbreak) hblank

/-- Where no word is under way a blank has been read last, if anything. -/
theorem isBlank_of_word_none (hread : Reading.feedAll { state := {} } line = .ok r)
    (hword : r.word = none) : ∀ b, line.getLast? = some b → isBlank b = true := by
  intro b hlast
  obtain ⟨front, rfl⟩ := List.getLast?_eq_some_iff.mp hlast
  obtain ⟨m, -, hfeed⟩ := exists_feed_of_feedAll_concat hread
  rcases feed_cases hfeed with ⟨hsome, -⟩ | ⟨hblank, -⟩
  · exact absurd hword hsome
  · exact hblank

/-- A word that has ended was under way, with nothing open, when a break was read. -/
theorem exists_break_of_mem (hread : Reading.feedAll { state := {} } line = .ok r) {t : Token}
    (ht : t ∈ r.tokens.toList) :
    ∃ front b rest m w, line = front ++ b :: rest ∧
      Reading.feedAll { state := {} } front = .ok m ∧ m.word = some w ∧ m.state.isOpen = false ∧
      isBreak b = true ∧ t = w.close front.length := by
  induction line using List.reverseRecOn generalizing r with
  | nil =>
    cases hread
    cases ht
  | append_singleton front b ih =>
    obtain ⟨m, hm, hfeed⟩ := exists_feed_of_feedAll_concat hread
    have hearlier (hmem : t ∈ m.tokens.toList) :
        ∃ front' c rest m w, front ++ [b] = front' ++ c :: rest ∧
          Reading.feedAll { state := {} } front' = .ok m ∧ m.word = some w ∧
          m.state.isOpen = false ∧ isBreak c = true ∧ t = w.close front'.length := by
      obtain ⟨front', c, rest, m', w, hcut, hfound⟩ := ih hm hmem
      exact ⟨front', c, rest ++ [b], m', w, by rw [hcut, List.append_assoc]; rfl, hfound⟩
    rcases feed_cases hfeed with ⟨-, hsame⟩ | ⟨-, hsame | ⟨w, hw, hclosed, hbreak, hpushed⟩⟩
    · rw [hsame] at ht
      exact hearlier ht
    · rw [hsame] at ht
      exact hearlier ht
    · rw [hpushed, Array.toList_push] at ht
      rcases List.mem_append.mp ht with ht | ht
      · exact hearlier ht
      · have hposition := (tracks_start.feedAll hm).2
        simp only [Nat.zero_add] at hposition
        rw [List.mem_singleton.mp ht, hposition]
        exact ⟨front, b, [], m, w, rfl, hm, hw, hclosed, hbreak, rfl⟩

/-- The word that a text ends in, with what may stand behind it. -/
theorem cuts_close {front : Text} {w : Word} (behind : Text)
    (hread : Reading.feedAll { state := {} } front = .ok m) (hword : m.word = some w)
    (hbehind : behind ≠ [] → m.state.isOpen = false)
    (hbreak : ∀ b, behind.head? = some b → isBreak b = true) :
    ∃ before word, (w.close front.length).Cuts (front ++ behind) before word behind := by
  rcases rests_or_inWord hread with ⟨hrests, -⟩ | ⟨before, word, base, steps, rfl, hinWord⟩
  · rw [hrests.word] at hword
    cases hword
  · have hstart : w.start = before.length := by rw [hinWord.word_eq hword, Word.start_after]
    have hstarts := hinWord.starts
    refine ⟨before, word, List.append_assoc .., by simp [Word.close, hstart], by simp [Word.close],
      rfl, ?_, ?_, isBlank_of_word_none hinWord.read hinWord.rests.word, hbreak, ?_⟩
    · intro b hb
      simpa [hb] using hstarts
    · rintro rfl
      cases hstarts
    · exact fun hne => hinWord.reads.getLast?_ne_return (hbehind hne)

end Reading

/-- **What stands around a word of a line.** -/
theorem exists_cuts_of_lex {line : Text} {lexed : Lexed} (h : lex line = .ok lexed) {t : Token}
    (ht : t ∈ lexed.tokens) : ∃ before word behind, t.Cuts line before word behind := by
  have hcomment : lexed.isComment = false := by
    cases hcomment : lexed.isComment with
    | false => rfl
    | true =>
      rw [(comment_of_lex h hcomment).2.1] at ht
      cases ht
  obtain ⟨-, r, hread, rfl⟩ := exists_feedAll_of_lex h hcomment
  rw [Reading.start_default] at hread
  have hended (hmem : t ∈ r.tokens.toList) :
      ∃ before word behind, t.Cuts line before word behind := by
    obtain ⟨front, b, rest, m, w, rfl, hm, hw, hclosed, hbreak, rfl⟩ :=
      Reading.exists_break_of_mem hread hmem
    obtain ⟨before, word, hcuts⟩ :=
      Reading.cuts_close (b :: rest) hm hw (fun _ => hclosed) (by simpa using hbreak)
    exact ⟨before, word, b :: rest, hcuts⟩
  cases hw : r.word with
  | none =>
    rw [Reading.tokens_finish_of_none hw] at ht
    exact hended ht
  | some w =>
    rw [Reading.tokens_finish hw] at ht
    rcases List.mem_append.mp ht with ht | ht
    · exact hended ht
    · obtain ⟨before, word, hcuts⟩ :=
        Reading.cuts_close [] hread hw (fun hne => absurd rfl hne) (by simp)
      have hposition := (Reading.tracks_start.feedAll hread).2
      simp only [Nat.zero_add] at hposition
      rw [List.append_nil] at hcuts
      rw [List.mem_singleton.mp ht, hposition]
      exact ⟨before, word, [], hcuts⟩

end ConfigShell.Line
