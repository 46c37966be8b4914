import ConfigShell.Prompt.Loop
import ConfigShell.Proofs.Line.Extended
/-!
# Which lines can go on in the next one

A line that ends within a quote or an escape is held back, and the next line is put behind it: right
behind it if it ends in a backslash, which is then dropped, and otherwise behind a line end. Within
quotes and after a backslash the next line goes on where the line has stopped
(`Prompt.joinContinuation_goesOn`). Within an escape that wants digits or the name of a control
character the line end stands where one of these is due, so that nothing that is typed next can make a
line of the two.
-/

namespace ConfigShell

open Line (Lexed lex)

/-! ## Backslashes at the end -/

namespace Line

namespace State

variable {s : State} {b : UInt8} {step : Step}

/-- An escape under way ends or goes on; it does not begin again. -/
theorem not_backslash_of_step (h : s.step b = .ok step) (hopen : s.escape.isOpen = true) :
    step.state.escape ≠ .backslash := by
  obtain ⟨escape, code, hstate, ⟨-, hlater, -⟩ | ⟨rfl, -⟩⟩ := escape_step_cases h hopen
  · rw [hstate]
    exact hlater
  · simp [hstate]

/-- The quotes of two states are open or closed alike: what has just been closed is closed. -/
def SameQuotes (s s' : State) : Prop :=
  s.quote = s'.quote ∨ s.quote = .ended ∧ s'.quote = .none

/-- **A backslash begins an escape and nothing else does.** It leaves the quotes as they are. -/
theorem backslash_of_step (h : s.step b = .ok step) (hescape : step.state.escape = .backslash) :
    b = 0x5C ∧ s.escape.isOpen = false ∧ s.SameQuotes step.state := by
  cases hopen : s.escape.isOpen with
  | true => exact absurd hescape (not_backslash_of_step h hopen)
  | false =>
    rw [step_of_escape_closed hopen] at h
    cases h
    have hb : b = 0x5C := by
      by_contra hb
      cases hquote : s.quote <;> simp only [stepPlain, hquote] at hescape
      all_goals repeat' split at hescape
      all_goals simp_all
    subst hb
    refine ⟨rfl, rfl, ?_⟩
    cases hquote : s.quote with
    | single => simp [stepPlain, hquote] at hescape
    | double => exact .inl (by simp [stepPlain, hquote])
    | none => exact .inl hquote
    | ended => exact .inr ⟨hquote, rfl⟩

/-- Within an escape a line end cannot stand. -/
theorem step_newline_of_escape (h : s.escape.isOpen = true) :
    ∃ fault, s.step 0x0A = .error fault := by
  obtain ⟨escape, quote, inWord, equalsSeen, code⟩ := s
  cases escape with
  | none | ended => cases h
  | backslash | octal | hex | control => exact ⟨_, rfl⟩

/-- Within quotes a line end stands for itself. -/
theorem step_newline_of_quote (hescape : s.escape.isOpen = false) (hopen : s.isOpen = true) :
    s.step 0x0A = .ok { state := { s with escape := .none }, output := [0x0A] } := by
  rw [step_of_escape_closed hescape]
  cases hquote : s.quote with
  | none => simp [isOpen, hescape, hquote] at hopen
  | ended => simp [isOpen, hescape, hquote] at hopen
  | single => simp [stepPlain]
  | double => simp [stepPlain]

end State

namespace Reading

variable {r r' : Reading} {t : Text}

theorem exists_step_of_feedWord {s : State} {w : Word} {b : UInt8}
    (hfeed : r.feedWord s w b = .ok r') : ∃ step, s.step b = .ok step ∧ step.state = r'.state := by
  cases hstep : s.step b with
  | error fault =>
    rw [feedWord_of_error hstep] at hfeed
    cases hfeed
  | ok step =>
    refine ⟨step, rfl, ?_⟩
    cases hboundary : step.isBoundary with
    | true =>
      rw [feedWord_of_boundary hstep hboundary] at hfeed
      cases hfeed
      rfl
    | false =>
      rw [feedWord_of_goesOn hstep hboundary] at hfeed
      cases hfeed
      rfl

/-- A byte is passed over between words or takes a step. -/
theorem exists_step_of_feed {b : UInt8} (hfeed : r.feed b = .ok r') :
    (r.word = none ∧ r'.state = r.state) ∨ ∃ (s : State) (step : Step), s.step b = .ok step ∧
      step.state = r'.state ∧ s.escape = r.state.escape ∧ s.quote = r.state.quote := by
  cases hw : r.word with
  | none =>
    by_cases hblank : isBlank b
    · rw [feed_blank hw hblank] at hfeed
      cases hfeed
      exact .inl ⟨rfl, rfl⟩
    · simp only [Reading.feed, hw, hblank, Bool.false_eq_true, if_false] at hfeed
      obtain ⟨step, hstep, hstate⟩ := exists_step_of_feedWord hfeed
      exact .inr ⟨_, step, hstep, hstate, rfl, rfl⟩
  | some w =>
    simp only [Reading.feed, hw] at hfeed
    obtain ⟨step, hstep, hstate⟩ := exists_step_of_feedWord hfeed
    exact .inr ⟨_, step, hstep, hstate, rfl, rfl⟩

/-- Where a text ends in a backslash that begins an escape, what stands before it leaves the same
quotes open and no escape. -/
theorem exists_before_backslash (hread : Reading.feedAll { state := {} } t = .ok r)
    (hescape : r.state.escape = .backslash) :
    ∃ front m, t = front ++ [0x5C] ∧ Reading.feedAll { state := {} } front = .ok m ∧
      m.state.escape.isOpen = false ∧ m.state.SameQuotes r.state := by
  induction t using List.reverseRecOn with
  | nil =>
    cases hread
    cases hescape
  | append_singleton front b _ =>
    obtain ⟨m, hm, hfeed⟩ := exists_feed_of_feedAll_concat hread
    rcases exists_step_of_feed hfeed with
      ⟨hword, hsame⟩ | ⟨s, step, hstep, hstate, hsEscape, hsQuote⟩
    · -- between words no escape is under way
      have hclosed := (tracks_start.feedAll hm).1.closed hword
      rw [← hsame, State.isOpen_eq_false_iff, hescape] at hclosed
      cases hclosed.1
    · rw [← hstate] at hescape ⊢
      obtain ⟨rfl, hopen, hquotes⟩ := State.backslash_of_step hstep hescape
      refine ⟨front, m, rfl, hm, by rw [← hsEscape, hopen], ?_⟩
      rw [State.SameQuotes, ← hsQuote]
      exact hquotes

end Reading

/-! ## Lines that end open -/

variable {line : Text} {lexed : Lexed}

/-- A line that ends open is read on in its last word, whatever is put behind it. -/
theorem lex_append_of_open (h : lex line = .ok lexed) (hopen : lexed.state.isOpen = true) :
    ∃ (r : Reading) (w : Word), lexed.state = r.state ∧ r.word = some w ∧
      ∀ more, lex (line ++ more) = match r.feedAll more with
        | .error (fault, offset) => .error ⟨fault, offset, line ++ more⟩
        | .ok r' => .ok (r'.finish (line ++ more)) := by
  obtain ⟨hplain, r, hread, rfl⟩ := exists_feedAll_of_lex h (isComment_of_isOpen h hopen)
  rw [Reading.start_default] at hread
  obtain ⟨w, hw, -⟩ := Reading.exists_word_of_open hread hopen
  refine ⟨r, w, rfl, hw, ?_⟩
  intro more
  have hmore := lex_eq_feedAll ((startsComment_append hread hopen more).trans hplain)
  rw [Reading.start_default, Reading.feedAll_append_of_feedAll hread] at hmore
  exact hmore

/-- **Within quotes a line end leaves the quotes open.** -/
theorem lex_newline_of_quote (h : lex line = .ok lexed) (hopen : lexed.state.isOpen = true)
    (hescape : lexed.state.escape.isOpen = false) :
    ∃ next, lex (line ++ [Text.newline]) = .ok next ∧
      next.state = { lexed.state with escape := .none } := by
  obtain ⟨r, w, hstate, hw, hmore⟩ := lex_append_of_open h hopen
  rw [hstate] at hopen hescape ⊢
  have hfeed : r.feed Text.newline = r.feedWord r.state w 0x0A := by
    rw [Reading.feed, hw, Text.newline]
  rw [Reading.feedWord_of_goesOn (State.step_newline_of_quote hescape hopen) rfl] at hfeed
  rw [hmore, Reading.feedAll_cons_of_feed hfeed]
  exact ⟨_, rfl, rfl⟩

/-- **Within an escape a line end cannot stand**, and nothing behind it makes up for that. -/
theorem lex_newline_of_escape (h : lex line = .ok lexed)
    (hescape : lexed.state.escape.isOpen = true) (more : Text) :
    ∃ e, lex (line ++ Text.newline :: more) = .error e := by
  have hopen : lexed.state.isOpen = true := by simp [State.isOpen, hescape]
  obtain ⟨r, w, hstate, hw, hmore⟩ := lex_append_of_open h hopen
  rw [hstate] at hescape
  obtain ⟨fault, hfault⟩ := State.step_newline_of_escape hescape
  have hfeed : r.feed Text.newline = r.feedWord r.state w 0x0A := by
    rw [Reading.feed, hw, Text.newline]
  rw [Reading.feedWord_of_error hfault] at hfeed
  rw [hmore, Reading.feedAll_cons, hfeed]
  exact ⟨_, rfl⟩

/-- **A line that ends in a backslash can do without it.** -/
theorem lex_before_backslash (h : lex line = .ok lexed)
    (hescape : lexed.state.escape = .backslash) :
    ∃ front held, line = front ++ [0x5C] ∧ lex front = .ok held ∧
      held.state.escape.isOpen = false ∧ held.state.SameQuotes lexed.state := by
  have hopen : lexed.state.isOpen = true := by simp [State.isOpen, hescape, Escape.isOpen]
  obtain ⟨hplain, r, hread, rfl⟩ := exists_feedAll_of_lex h (isComment_of_isOpen h hopen)
  rw [Reading.start_default] at hread
  obtain ⟨front, m, rfl, hm, hclosed, hquotes⟩ := Reading.exists_before_backslash hread hescape
  refine ⟨front, m.finish front, rfl, ?_, hclosed, hquotes⟩
  rw [lex_eq_feedAll (startsComment_front hplain), Reading.start_default, hm]

end Line

/-! ## The joint -/

namespace Prompt

/-- Behind this line another can go on: it ends within quotes, or its last byte begins an escape. -/
def CanGoOn (text : Text) (lexed : Lexed) : Prop :=
  lexed.state.escape.isOpen = false ∨ (lexed.state.escape = .backslash ∧ text ≠ [])

variable {pending text : Text} {lexed : Lexed}

/-- What is held back of a line that ends in a backslash is the line without it. -/
theorem joinContinuation_of_backslash {front : Text} (hescape : lexed.state.escape = .backslash)
    (htext : text ≠ []) (hends : pending ++ text = front ++ [0x5C]) :
    joinContinuation pending text lexed = front := by
  obtain ⟨typed, b, rfl⟩ : ∃ typed b, text = typed ++ [b] :=
    ⟨_, _, (List.dropLast_concat_getLast htext).symm⟩
  rw [← List.append_assoc] at hends
  obtain ⟨hfront, hb⟩ := List.append_inj' hends rfl
  obtain rfl : b = 0x5C := List.singleton_inj.mp hb
  simp [joinContinuation, hescape, hfront]

/-- Otherwise it is the line with its end. -/
theorem joinContinuation_of_newline (h : ¬ (lexed.state.escape = .backslash ∧ text ≠ [])) :
    joinContinuation pending text lexed = pending ++ text ++ [Text.newline] := by
  have hnot : (lexed.state.escape = .backslash && text.getLast? == some 0x5C) = false := by
    cases text with
    | nil => simp
    | cons b more => simp_all
  rw [joinContinuation, hnot]
  rfl

/-- **Where the next line can go on.** What is held back of a line that ends within quotes or in a
backslash can be read, has no escape under way and the same quotes open. Where the line ends within
any other escape, neither what is held back nor anything that goes on with it can be read. -/
theorem joinContinuation_goesOn (h : lex (pending ++ text) = .ok lexed)
    (hopen : lexed.state.isOpen = true) :
    (CanGoOn text lexed → ∃ next, lex (joinContinuation pending text lexed) = .ok next ∧
      next.state.escape.isOpen = false ∧ next.state.SameQuotes lexed.state) ∧
    (¬ CanGoOn text lexed → ∀ more, ∃ e,
      lex (joinContinuation pending text lexed ++ more) = .error e) := by
  refine ⟨?_, ?_⟩
  · rintro (hescape | ⟨hescape, htext⟩)
    · have hnot : ¬ (lexed.state.escape = .backslash ∧ text ≠ []) := by
        rintro ⟨hback, -⟩
        rw [hback] at hescape
        cases hescape
      obtain ⟨next, hnext, hstate⟩ := Line.lex_newline_of_quote h hopen hescape
      rw [joinContinuation_of_newline hnot]
      exact ⟨next, hnext, by rw [hstate]; rfl, .inl (by rw [hstate])⟩
    · obtain ⟨front, held, hcut, hheld, hclosed, hquotes⟩ := Line.lex_before_backslash h hescape
      rw [joinContinuation_of_backslash hescape htext hcut]
      exact ⟨held, hheld, hclosed, hquotes⟩
  · intro hcannot more
    have hescape : lexed.state.escape.isOpen = true := by
      by_contra hclosed
      exact hcannot (.inl (by simpa using hclosed))
    rw [joinContinuation_of_newline fun hback => hcannot (.inr hback), List.append_assoc]
    exact Line.lex_newline_of_escape h hescape more

/-- The second line of `"a` and `b\` can go on within the quotes. -/
theorem joinContinuation_goesOn_quoted :
    ∃ lexed next, lex ([0x22, 0x61, 0x0A] ++ [0x62, 0x5C]) = .ok lexed ∧
      lexed.state.isOpen = true ∧
      lex (joinContinuation [0x22, 0x61, 0x0A] [0x62, 0x5C] lexed) = .ok next ∧
      next.state.escape.isOpen = false ∧ next.state.SameQuotes lexed.state := by
  have hlex : lex ([0x22, 0x61, 0x0A] ++ [0x62, 0x5C]) = .ok _ := rfl
  obtain ⟨hgoesOn, -⟩ := joinContinuation_goesOn hlex rfl
  obtain ⟨next, hnext, hescape, hquotes⟩ := hgoesOn (.inr ⟨rfl, by decide⟩)
  exact ⟨_, next, rfl, rfl, hnext, hescape, hquotes⟩

/-- The line `\x4` ends open, and with its line end it cannot be read. -/
theorem joinContinuation_unfinished :
    ∃ lexed e, lex ([] ++ [0x5C, 0x78, 0x34]) = .ok lexed ∧ lexed.state.isOpen = true ∧
      lex (joinContinuation [] [0x5C, 0x78, 0x34] lexed) = .error e :=
  ⟨_, _, rfl, rfl, rfl⟩

end Prompt

end ConfigShell
