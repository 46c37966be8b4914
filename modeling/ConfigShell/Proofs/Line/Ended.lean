import ConfigShell.Proofs.Line.Carried
/-!
# The break at the end of a line

A line of a script may come with the break that ends it or without. It is read alike in both cases
(`readAlike_ended`): what is open at its end is still open, or has become a fault, after the break,
and a word that is under way there ends at the break just where the line would end it.
-/

namespace ConfigShell.Line

/-- Neither of two lines can be read, or both can and have the same words at the same places. -/
def ReadAlike : Except LexError Lexed → Except LexError Lexed → Prop
  | .ok a, .ok b => a.tokens = b.tokens ∧ a.isComment = b.isComment
  | .error _, .error _ => True
  | _, _ => False

theorem readAlike_refl (r : Except LexError Lexed) : ReadAlike r r := by
  cases r with
  | error e => trivial
  | ok lexed => exact ⟨rfl, rfl⟩

/-- The line, with the break that ends it or without. -/
def ended (newline : Bool) (line : Text) : Text := if newline then line ++ [0x0A] else line

/-! ## The break -/

/-- Nothing that is open is closed by a break. -/
theorem State.step_newline_of_open {s : State} (h : s.isOpen = true) :
    (∃ fault, s.step 0x0A = .error fault) ∨
      ∃ step, s.step 0x0A = .ok step ∧ step.isBoundary = false ∧ step.state.isOpen = true := by
  obtain ⟨escape, quote, inWord, equalsSeen, code⟩ := s
  cases escape with
  | none | ended =>
    cases quote with
    | none | ended => cases h
    | single | double => exact .inr ⟨_, rfl, rfl, rfl⟩
  | backslash | octal | hex | control => exact .inl ⟨_, rfl⟩

theorem startsComment_append_newline (line : Text) :
    startsComment {} (line ++ [0x0A]) = startsComment {} line := by
  rw [startsComment, startsComment, List.dropWhile_append]
  cases line.dropWhile isBlank <;> rfl

namespace Reading

variable {r : Reading} {line : Text}

/-- A reading that stands outside quotes and escapes takes a break without adding to its words. -/
theorem feed_newline_of_closed (h : r.state.isOpen = false) :
    ∃ r', r.feed 0x0A = .ok r' ∧ r'.state.isOpen = false ∧
      ∀ source source', (r'.finish source').tokens = (r.finish source).tokens := by
  cases hw : r.word with
  | none =>
    refine ⟨_, feed_blank hw rfl, h, fun _ _ => ?_⟩
    simp [finish, hw]
  | some w =>
    have hfeed : r.feed 0x0A = r.feedWord r.state w 0x0A := by rw [feed, hw]
    rw [feedWord_of_boundary (State.step_break h rfl) rfl] at hfeed
    refine ⟨_, hfeed, rfl, fun _ _ => ?_⟩
    simp [finish, ended, hw]

/-- One that stands inside them does not get out by a break. -/
theorem feed_newline_of_open {w : Word} (hw : r.word = some w) (h : r.state.isOpen = true) :
    (∃ e, r.feed 0x0A = .error e) ∨ ∃ r', r.feed 0x0A = .ok r' ∧ r'.state.isOpen = true := by
  have hfeed : r.feed 0x0A = r.feedWord r.state w 0x0A := by rw [feed, hw]
  rw [hfeed]
  rcases State.step_newline_of_open h with ⟨fault, hstep⟩ | ⟨step, hstep, goesOn, hopen⟩
  · exact .inl ⟨_, feedWord_of_error hstep r w⟩
  · exact .inr ⟨_, feedWord_of_goesOn hstep goesOn r w, hopen⟩

end Reading

/-! ## Reading to the end -/

theorem lexFinal_of_feedAll_error {line : Text} (hplain : startsComment {} line = false)
    {e : Fault × Nat} (h : Reading.feedAll { state := {} } line = .error e) :
    ∃ e', lexFinal line = .error e' := by
  rw [lexFinal, lex_eq_feedAll hplain, Reading.start_default, h]
  exact ⟨_, rfl⟩

theorem lexFinal_of_feedAll {line : Text} (hplain : startsComment {} line = false) {r : Reading}
    (h : Reading.feedAll { state := {} } line = .ok r) :
    lexFinal line = if r.state.isOpen then .error ⟨openFault r.state, line.length, line⟩
      else .ok (r.finish line) := by
  rw [lexFinal, lex_eq_feedAll hplain, Reading.start_default, h]
  rfl

/-- A line that has been read as far as the break is read to its end alike with it. -/
theorem readAlike_of_feedAll {line : Text} (hplain : startsComment {} line = false) {r : Reading}
    (hr : Reading.feedAll { state := {} } line = .ok r) :
    ReadAlike (lexFinal line) (lexFinal (line ++ [0x0A])) := by
  have hplain' := (startsComment_append_newline line).trans hplain
  have hwhole := Reading.feedAll_append_of_feedAll hr [0x0A]
  rw [lexFinal_of_feedAll hplain hr]
  cases hopen : r.state.isOpen with
  | true =>
    obtain ⟨w, hw, -⟩ := Reading.exists_word_of_open hr hopen
    rcases Reading.feed_newline_of_open hw hopen with ⟨e, he⟩ | ⟨r', hr', hopen'⟩
    · rw [Reading.feedAll_cons, he] at hwhole
      obtain ⟨e', he'⟩ := lexFinal_of_feedAll_error hplain' hwhole
      rw [he']
      trivial
    · rw [Reading.feedAll_cons_of_feed hr'] at hwhole
      rw [lexFinal_of_feedAll hplain' hwhole, hopen']
      trivial
  | false =>
    obtain ⟨r', hr', hclosed', htokens⟩ := Reading.feed_newline_of_closed hopen
    rw [Reading.feedAll_cons_of_feed hr'] at hwhole
    rw [lexFinal_of_feedAll hplain' hwhole, hclosed']
    exact ⟨(htokens _ _).symm, rfl⟩

theorem readAlike_newline (line : Text) :
    ReadAlike (lexFinal line) (lexFinal (line ++ [0x0A])) := by
  have hsame := startsComment_append_newline line
  cases hplain : startsComment {} line with
  | true =>
    rw [hplain] at hsame
    simp [lexFinal, lex, hplain, hsame, ReadAlike, Bind.bind, Except.bind]
  | false =>
    cases hr : Reading.feedAll { state := {} } line with
    | ok r => exact readAlike_of_feedAll hplain hr
    | error e =>
      -- the fault is found before the break is reached
      have hr' : Reading.feedAll { state := {} } (line ++ [0x0A]) = .error e := by
        rw [Reading.feedAll_append, hr]
        rfl
      obtain ⟨e₁, h₁⟩ := lexFinal_of_feedAll_error hplain hr
      obtain ⟨e₂, h₂⟩ := lexFinal_of_feedAll_error (hsame.trans hplain) hr'
      rw [h₁, h₂]
      trivial

/-- **The break at the end of a line makes no difference** to whether it can be read and to its
words. -/
theorem readAlike_ended (newline : Bool) (line : Text) :
    ReadAlike (lexFinal line) (lexFinal (ended newline line)) := by
  cases newline with
  | false => exact readAlike_refl _
  | true => exact readAlike_newline line

end ConfigShell.Line
