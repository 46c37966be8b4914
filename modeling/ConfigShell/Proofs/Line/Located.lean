import ConfigShell.Proofs.Line.Physical
import ConfigShell.Proofs.Line.Reported
import ConfigShell.Proofs.Prompt.Continued
import ConfigShell.Proofs.Text.Boundary
/-!
# Where a fault is

A line that cannot be read has its fault at a byte, and only there: what stands in front of the byte
can be read, and with it no line can, whatever follows (`lex_located`). The byte is found within an
escape sequence, and the bytes of an escape sequence that still wants more are all ASCII. So the place
is between two characters, and its column counts those in front of it. A line that nothing may follow
has a fault besides if it ends open, at its end.
-/

namespace ConfigShell.Line

/-! ## Faults are found within escape sequences -/

namespace State

variable {s : State} {b : UInt8}

/-- Outside escape sequences every byte can stand. -/
theorem isOpen_of_step_error {fault : Fault} (h : s.step b = .error fault) :
    s.escape.isOpen = true := by
  cases hopen : s.escape.isOpen with
  | true => rfl
  | false =>
    rw [step_of_escape_closed hopen] at h
    cases h

/-- Outside escape sequences only a backslash begins one. -/
theorem eq_backslash_of_stepPlain (hescape : s.escape = .none)
    (hopen : (s.stepPlain b).state.escape.isOpen = true) : b = 0x5C := by
  by_contra hb
  cases hquote : s.quote <;> simp only [stepPlain, hquote] at hopen
  all_goals repeat' split at hopen
  all_goals simp_all [Escape.isOpen]

theorem ascii_of_hexForm {form : HexForm} (h : hexForm? b = some form) : b < 0x80 := by
  unfold hexForm? at h
  split at h
  all_goals first
    | decide
    | cases h

theorem ascii_of_hexDigit (h : isHexDigit b = true) : b < 0x80 := by
  unfold isHexDigit hexValue? at h
  repeat' split at h
  all_goals simp_all
  all_goals exact UInt8.lt_of_le_of_lt (And.right ‹_ ∧ _›) (by decide)

/-- **An escape sequence that wants more has ended in a byte of ASCII so far.** -/
theorem ascii_of_step {step : Step} (h : s.step b = .ok step)
    (hopen : step.state.escape.isOpen = true) : b < 0x80 := by
  unfold State.step at h
  split at h
  · cases h
    rw [eq_backslash_of_stepPlain ‹_› hopen]
    decide
  · cases h
    rw [eq_backslash_of_stepPlain rfl hopen]
    decide
  · unfold stepBackslash at h
    repeat' split at h
    · -- a single byte ends the sequence
      cases h
      cases hopen
    · rename_i hoctal
      simp only [Bool.and_eq_true, decide_eq_true_eq] at hoctal
      exact UInt8.lt_of_le_of_lt hoctal.2 (by decide)
    · rename_i hcontrol
      rw [eq_of_beq hcontrol]
      decide
    · exact ascii_of_hexForm ‹_›
    · cases h
  · unfold stepOctal at h
    split at h
    · rename_i hdigit
      simp only [isOctalDigit, Bool.and_eq_true, decide_eq_true_eq] at hdigit
      exact UInt8.lt_of_le_of_lt hdigit.2 (by decide)
    · cases h
  · unfold stepHex at h
    split at h
    · cases h
    · rename_i hvalue
      exact ascii_of_hexDigit (by rw [isHexDigit, hvalue]; rfl)
  · unfold stepControl at h
    split at h
    · -- the name of a control character ends the sequence
      cases h
      cases hopen
    · cases h

end State

namespace Reading

variable {r r' m : Reading} {t : Text} {b : UInt8} {fault : Fault} {offset : Nat}

theorem isOpen_of_feedWord_error {s : State} {w : Word}
    (h : r.feedWord s w b = .error (fault, offset)) : s.escape.isOpen = true := by
  cases hstep : s.step b with
  | error found => exact State.isOpen_of_step_error hstep
  | ok step =>
    cases hboundary : step.isBoundary with
    | true =>
      rw [feedWord_of_boundary hstep hboundary] at h
      cases h
    | false =>
      rw [feedWord_of_goesOn hstep hboundary] at h
      cases h

/-- **A fault is found within an escape sequence.** -/
theorem isOpen_of_feed_error (h : r.feed b = .error (fault, offset)) :
    r.state.escape.isOpen = true := by
  cases hw : r.word with
  | some w =>
    simp only [Reading.feed, hw] at h
    exact isOpen_of_feedWord_error h
  | none =>
    by_cases hblank : isBlank b
    · rw [feed_blank hw hblank] at h
      cases h
    · simp only [Reading.feed, hw, hblank, Bool.false_eq_true, if_false] at h
      exact isOpen_of_feedWord_error (s := { r.state with inWord := true, equalsSeen := false }) h

/-- A fault is found at a byte, and all in front of it can be read. -/
theorem exists_feed_of_feedAll_error (h : r.feedAll t = .error (fault, offset)) :
    ∃ front b rest m, t = front ++ b :: rest ∧ r.feedAll front = .ok m ∧
      m.feed b = .error (fault, offset) := by
  induction t generalizing r with
  | nil => cases h
  | cons b t ih =>
    cases hfeed : r.feed b with
    | error found =>
      rw [feedAll_cons, hfeed] at h
      cases h
      exact ⟨[], b, t, r, rfl, rfl, hfeed⟩
    | ok r' =>
      rw [feedAll_cons_of_feed hfeed] at h
      obtain ⟨front, c, rest, m, rfl, hfront, hfault⟩ := ih h
      exact ⟨b :: front, c, rest, m, rfl, by rw [feedAll_cons_of_feed hfeed, hfront], hfault⟩

/-- What ends within an escape sequence ends in a byte of ASCII. -/
theorem ascii_of_escape (hread : Reading.feedAll { state := {} } t = .ok r)
    (hopen : r.state.escape.isOpen = true) : ∀ b, t.getLast? = some b → b < 0x80 := by
  intro b hlast
  obtain ⟨front, rfl⟩ := List.getLast?_eq_some_iff.mp hlast
  obtain ⟨m, hm, hfeed⟩ := exists_feed_of_feedAll_concat hread
  rcases exists_step_of_feed hfeed with ⟨hword, hsame⟩ | ⟨s, step, hstep, hstate, -⟩
  · -- between words no escape is under way
    have hclosed := (tracks_start.feedAll hm).1.closed hword
    rw [← hsame, State.isOpen_eq_false_iff, hopen] at hclosed
    cases hclosed.1
  · rw [← hstate] at hopen
    exact State.ascii_of_step hstep hopen

end Reading

/-! ## One place, whatever follows -/

variable {line : Text}

/-- What the fault of a line says of it: up to the byte at `k` the line can be read, with that byte
no line can, the byte begins a character, and the column counts the characters in front of it. -/
structure LexError.IsAt (e : LexError) (line : Text) (k : Nat) : Prop where
  offset : e.offset = k
  inside : k < line.length
  before : ∀ j ≤ k, ∃ read, lex (line.take j) = .ok read
  after : ∀ longer, line.take (k + 1) <+: longer → lex longer = .error ⟨e.fault, k, longer⟩
  divides : Text.characters line = Text.characters (line.take k) ++ Text.characters (line.drop k)
  column : ∃ front begun, LastLine (line.take k) front begun ∧ e.column = Text.width begun + 1

/-- A line with a fault is read up to it, within an escape sequence, and the next byte cannot stand
there. -/
theorem exists_cut_of_lex_error {e : LexError} (h : lex line = .error e) :
    ∃ front b rest m, line = front ++ b :: rest ∧ startsComment {} line = false ∧
      Reading.feedAll { state := {} } front = .ok m ∧ m.state.escape.isOpen = true ∧
      m.feed b = .error (e.fault, front.length) ∧ e = ⟨e.fault, front.length, line⟩ := by
  cases hplain : startsComment {} line with
  | true =>
    rw [lex, hplain] at h
    cases h
  | false =>
    rw [lex_eq_feedAll hplain, Reading.start_default] at h
    cases hread : Reading.feedAll { state := {} } line with
    | ok r =>
      rw [hread] at h
      cases h
    | error found =>
      obtain ⟨fault, offset⟩ := found
      rw [hread] at h
      cases h
      obtain ⟨front, b, rest, m, hcut, hfront, hfault⟩ :=
        Reading.exists_feed_of_feedAll_error hread
      have hposition := (Reading.tracks_start.feedAll hfront).2
      obtain rfl : offset = front.length := by
        rw [Reading.offset_of_feed hfault, hposition]
        exact Nat.zero_add _
      exact ⟨front, b, rest, m, hcut, rfl, hfront, Reading.isOpen_of_feed_error hfault, hfault, rfl⟩

/-- A line without a fault in front of it can be read up to any of its bytes. -/
theorem exists_lex_of_feedAll {front more : Text} {m : Reading}
    (hplain : startsComment {} (front ++ more) = false)
    (hread : Reading.feedAll { state := {} } (front ++ more) = .ok m) :
    ∃ read, lex front = .ok read := by
  rw [lex_eq_feedAll (startsComment_front hplain), Reading.start_default]
  cases hfront : Reading.feedAll { state := {} } front with
  | ok r => exact ⟨_, rfl⟩
  | error e =>
    rw [Reading.feedAll_append, hfront] at hread
    cases hread

/-- **A fault is at one place.** -/
theorem LexError.exists_isAt {e : LexError} (h : lex line = .error e) : ∃ k, e.IsAt line k := by
  obtain ⟨front, b, rest, m, hcut, hplain, hread, hopen, hfault, he⟩ := exists_cut_of_lex_error h
  have hstate : m.state.isOpen = true := by rw [State.isOpen, hopen]; rfl
  have htake : line.take front.length = front := by rw [hcut, List.take_left]
  have hdrop : line.drop front.length = b :: rest := by rw [hcut, List.drop_left]
  have hlt : front.length < line.length := by
    rw [hcut, List.length_append, List.length_cons]
    omega
  have hplainFront : startsComment {} front = false := by
    rw [hcut] at hplain
    exact startsComment_front hplain
  have hoffset : e.offset = front.length := congrArg LexError.offset he
  have hsource : e.source = line := congrArg LexError.source he
  refine ⟨front.length, hoffset, hlt, ?_, ?_, ?_, ?_⟩
  · intro j hj
    have hparts : front = line.take j ++ front.drop j := by
      rw [hcut, List.take_append_of_le_length hj, List.take_append_drop]
    rw [hparts] at hplainFront hread
    exact exists_lex_of_feedAll hplainFront hread
  · rintro longer ⟨more, rfl⟩
    have htakeNext : line.take (front.length + 1) = front ++ [b] := by
      rw [hcut, List.take_length_add_append]
      rfl
    have hlonger : line.take (front.length + 1) ++ more = front ++ b :: more := by
      rw [htakeNext, List.append_assoc]
      rfl
    rw [hlonger, lex_eq_feedAll ((startsComment_append hread hstate _).trans hplainFront),
      Reading.start_default, Reading.feedAll_append_of_feedAll hread, Reading.feedAll_cons, hfault]
    rfl
  · rw [htake, hdrop, hcut]
    exact Text.characters_append_of_getLast? (Reading.ascii_of_escape hread hopen) _
  · obtain ⟨begun, single, hlast⟩ := exists_lastLine (line.take front.length)
    refine ⟨begun, single, hlast, ?_⟩
    rw [LexError.column, hoffset, hsource]
    exact hlast.columnAt_eq

/-- A line that nothing may follow cannot be read if it has a fault or ends open. -/
theorem lexFinal_eq_error_iff {e : LexError} :
    lexFinal line = .error e ↔ lex line = .error e ∨ ∃ read, lex line = .ok read ∧
      read.state.isOpen = true ∧ e = ⟨openFault read.state, line.length, line⟩ := by
  rw [lexFinal]
  cases hlex : lex line with
  | error found => simp [Bind.bind, Except.bind]
  | ok read =>
    cases hopen : read.state.isOpen with
    | false => simp [Bind.bind, Except.bind, hopen]
    | true =>
      have hcomment := isComment_of_isOpen hlex hopen
      simp only [Bind.bind, Except.bind, hopen, hcomment, Bool.not_false, Bool.and_self, if_true,
        reduceCtorEq, false_or, Except.ok.injEq, Except.error.injEq]
      constructor
      · rintro rfl
        exact ⟨read, rfl, hopen, rfl⟩
      · rintro ⟨found, rfl, -, rfl⟩
        rfl

/-- **Where a line that cannot be read has its fault.** It is at the first byte with which no line
can be read: up to there the line can, and every line that begins like this one up to and with that
byte has the same fault at the same place. The place is between two characters, and its column is one
more than the number of characters in front of it in its physical line. A line that nothing may
follow has the same faults, and one at its end if it ends open. -/
theorem lex_located (line : Text) :
    (∀ e, lex line = .error e → ∃ k, e.IsAt line k) ∧
    ∀ e, lexFinal line = .error e ↔ lex line = .error e ∨ ∃ read, lex line = .ok read ∧
      read.state.isOpen = true ∧ e = ⟨openFault read.state, line.length, line⟩ :=
  ⟨fun _ => LexError.exists_isAt, fun _ => lexFinal_eq_error_iff⟩

/-- In the two physical lines `"é` and `\q ` the byte behind the backslash cannot stand, and no other
end of the line makes up for that. Without that byte the line ends open. -/
theorem lex_located_quoted :
    ∃ e, lex [0x22, 0xC3, 0xA9, 0x0A, 0x5C, 0x71, 0x20] = .error e ∧
      e.IsAt [0x22, 0xC3, 0xA9, 0x0A, 0x5C, 0x71, 0x20] 5 ∧ e.column = 2 ∧
      lex [0x22, 0xC3, 0xA9, 0x0A, 0x5C, 0x71, 0x22] =
        .error ⟨.unknownEscape 0x71, 5, [0x22, 0xC3, 0xA9, 0x0A, 0x5C, 0x71, 0x22]⟩ ∧
      lexFinal [0x22, 0xC3, 0xA9, 0x0A, 0x5C] =
        .error ⟨.openDoubleQuote, 5, [0x22, 0xC3, 0xA9, 0x0A, 0x5C]⟩ := by
  have hlex : lex [0x22, 0xC3, 0xA9, 0x0A, 0x5C, 0x71, 0x20] = .error _ := rfl
  obtain ⟨k, hk⟩ := (lex_located _).1 _ hlex
  obtain rfl : 5 = k := Int.ofNat.inj hk.offset
  have hafter := hk.after [0x22, 0xC3, 0xA9, 0x0A, 0x5C, 0x71, 0x22] ⟨[0x22], rfl⟩
  have hopen := ((lex_located [0x22, 0xC3, 0xA9, 0x0A, 0x5C]).2 _).mpr (.inr ⟨_, rfl, rfl, rfl⟩)
  exact ⟨_, rfl, hk, by decide +kernel, hafter, hopen⟩

end ConfigShell.Line
