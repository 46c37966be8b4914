import ConfigShell.Proofs.Session.Notices
/-!
# Places shown at the prompt

The lines typed at the prompt are entered one after another (`Prompt.entered`), each with what has
been held back before it, and all that is written to the error stream are the notices of these
entries. A place that a notice shows is that of the byte with which something is wrong: the fault of a
line that cannot be read, or the start of the word at which it stops (`Prompt.Entry.Offends`). It is
shown by the number of the line that was typed last and a column within the physical line of all that
has been held together. `Session.interact_positions` says what the two are worth: the place is right
for what was typed in that last line, if what was held back before it ended in a line end or there was
nothing. For a byte typed in an earlier line the number is that of the last one still, and behind a
backslash the column counts what stands before it.
-/

namespace ConfigShell

open Shell (perform perform_bind err_bind_of_mute mute_pure)

/-! ## Columns behind a line end -/

namespace Line

/-- **Behind a line end columns are counted anew.** -/
theorem columnAt_behind_newline (front text : Text) (k : Nat) :
    columnAt (front ++ Text.newline :: text) ((front.length + 1 + k : Nat) : Int)
      = columnAt text k := by
  obtain ⟨ended, begun, hlast⟩ := exists_lastLine (text.take k)
  have hcut : (front ++ Text.newline :: text).take (front.length + 1 + k)
      = front ++ Text.newline :: text.take k := by
    rw [Nat.add_assoc, List.take_length_add_append, Nat.add_comm 1, List.take_succ_cons]
  have hbehind := hlast.behind_newline front
  rw [← hcut] at hbehind
  rw [hlast.columnAt_eq, hbehind.columnAt_eq]

/-- In a text without line ends the column is that of the character. -/
theorem columnAt_of_no_newline {text : Text} (h : Text.newline ∉ text) (k : Nat) :
    columnAt text k = Text.column text k := by
  have hlast : LastLine (text.take k) [] (text.take k) :=
    ⟨rfl, .inl rfl, fun hmem => h (List.mem_of_mem_take hmem)⟩
  rw [hlast.columnAt_eq, Text.column, Signed.take_natCast]

/-! ## Where errors are -/

/-- A fault is found at a byte that has not been read before. -/
theorem Reading.position_le_offset {r : Reading} {t : Text} {fault : Fault} {offset : Nat}
    (h : r.feedAll t = .error (fault, offset)) : r.position ≤ offset := by
  induction t generalizing r with
  | nil => cases h
  | cons b t ih =>
    rw [feedAll_cons] at h
    cases hfeed : r.feed b with
    | error e =>
      rw [hfeed] at h
      cases h
      exact Nat.le_of_eq (offset_of_feed hfeed).symm
    | ok r' =>
      rw [hfeed] at h
      have hle := ih h
      have hposition := position_of_feed hfeed
      omega

/-- A fault is found in the line, and behind any front of it that can be read. -/
theorem offset_of_lex_error {front text : Text} {e : LexError}
    (h : lex (front ++ text) = .error e) :
    e.source = front ++ text ∧ IsPlace e.source e.offset ∧
      ((∃ held, lex front = .ok held) → ∃ k : Nat, e.offset = front.length + k) := by
  cases hplain : startsComment {} (front ++ text) with
  | true =>
    rw [lex, hplain] at h
    cases h
  | false =>
    rw [lex_eq_feedAll hplain, Reading.start_default] at h
    cases hread : Reading.feedAll { state := {} } (front ++ text) with
    | ok r =>
      rw [hread] at h
      cases h
    | error found =>
      obtain ⟨fault, offset⟩ := found
      rw [hread] at h
      cases h
      have hlt : offset < (front ++ text).length := by
        simpa using Reading.offset_of_feedAll hread
      refine ⟨rfl, ⟨by simp, by simp only; omega⟩, ?_⟩
      rintro ⟨held, hheld⟩
      rw [lex_eq_feedAll (startsComment_front hplain), Reading.start_default] at hheld
      cases hfront : Reading.feedAll { state := {} } front with
      | error found =>
        rw [hfront] at hheld
        cases hheld
      | ok m =>
        have hposition := (Reading.tracks_start.feedAll hfront).2
        rw [Reading.feedAll_append_of_feedAll hfront] at hread
        have hle := Reading.position_le_offset hread
        simp only [Nat.zero_add] at hposition
        exact ⟨offset - front.length, by simp only; omega⟩

end Line

/-! ## Lines entered at the prompt -/

namespace Session

/-- What is done with a line that is typed behind what has been held back: `buffer` is both of
them. -/
def enter (site : Site) (s : Session) (buffer : Text) (number : Nat) :
    Shell (Outcome × Session) :=
  match Line.lex buffer with
  | .error e => do
    Shell.complain (e.report (some number))
    return (.error, s)
  | .ok lexed =>
    if lexed.state.isOpen then return (.goOn, s) else s.command site lexed (some number)

end Session

namespace Prompt

/-- The line that an event types. -/
def Event.line? : Event → Option Text
  | typed line => some line
  | interrupt | endOfInput => none

/-- The lines that are typed. -/
def typedLines (events : List Event) : List Text := events.filterMap Event.line?

/-- What is held back after an event, where `pending` has been held back before it. -/
def Event.hold (pending : Text) : Event → Text
  | typed text =>
    match Line.lex (pending ++ text) with
    | .error _ => []
    | .ok lexed => if lexed.state.isOpen then joinContinuation pending text lexed else []
  | interrupt | endOfInput => []

/-- What is held back after all of them. -/
def heldBack (events : List Event) : Text := events.foldl Event.hold []

/-- The line `text` is typed as the one of the given number, when `pending` is held back. -/
def IsTyped (events : List Event) (number : Nat) (pending text : Text) : Prop :=
  ∃ before after, events = before ++ .typed text :: after ∧ pending = heldBack before ∧
    number = (typedLines before).length + 1

/-- What is typed behind `pending` begins a physical line. -/
def BeginsLine (pending : Text) : Prop := pending = [] ∨ ∃ front, pending = front ++ [Text.newline]

/-- A line as it is entered: the session that it finds, and what has been done by then. -/
structure Entry where
  session : Session
  number : Nat
  /-- What has been held back. -/
  pending : Text
  text : Text
  journal : Journal
  deriving Repr, DecidableEq

namespace Entry

/-- What is read. -/
def buffer (entry : Entry) : Text := entry.pending ++ entry.text

/-- What is to be seen of entering the line. Of one that is held back it is nothing. -/
def notices (site : Site) (entry : Entry) : List Notice :=
  match Line.lex entry.buffer with
  | .error e => [.fault entry.number e]
  | .ok lexed =>
    if lexed.state.isOpen then []
    else entry.session.notices site lexed entry.number entry.journal

/-- What is wrong with the line is found at this offset: it cannot be read on from there, or it stops
at the word that starts there. -/
inductive Offends (site : Site) (entry : Entry) : Int → Prop
  | fault {e : Line.LexError} (unread : Line.lex entry.buffer = .error e) :
      Offends site entry e.offset
  | word {lexed : Line.Lexed} {t : Line.Token} (read : Line.lex entry.buffer = .ok lexed)
      (stops : entry.session.StopsAt site lexed entry.journal t) : Offends site entry t.start

end Entry

/-- The lines entered, one after another, until the user leaves or something breaks down. -/
def entered (site : Site) (s : Session) (pending : Text) (count : Nat) (journal : Journal) :
    List Event → List Entry
  | [] | .endOfInput :: _ => []
  | .interrupt :: rest => entered site s [] count journal rest
  | .typed text :: rest =>
    { session := s, number := count + 1, pending := pending, text := text, journal := journal } ::
      match perform (s.enter site (pending ++ text) (count + 1)) journal with
      | (.error _, _) => []
      | (.ok (outcome, next), after) =>
        if outcome = .terminate then []
        else entered site next (Event.hold pending (.typed text)) (count + 1) after rest

variable {site : Site} {events before rest : List Event}

theorem IsTyped.line {number : Nat} {pending text : Text}
    (h : IsTyped events number pending text) : (typedLines events)[number - 1]? = some text := by
  obtain ⟨before, after, rfl, -, rfl⟩ := h
  simp [typedLines, Event.line?]

theorem heldBack_append (before : List Event) (event : Event) :
    heldBack (before ++ [event]) = event.hold (heldBack before) := by
  simp [heldBack]

/-- **The lines entered are those typed**, in order and numbered, each with what has been held back
of the lines before. -/
theorem isTyped_of_entered {s : Session} {journal : Journal} {entry : Entry}
    (h : events = before ++ rest)
    (hentry : entry ∈
      entered site s (heldBack before) (typedLines before).length journal rest) :
    IsTyped events entry.number entry.pending entry.text := by
  induction rest generalizing before s journal with
  | nil => cases hentry
  | cons event rest ih =>
    have hlater (next : Session) (after : Journal) (hmem : entry ∈ entered site next
        (event.hold (heldBack before)) (typedLines (before ++ [event])).length after rest) :
        IsTyped events entry.number entry.pending entry.text := by
      rw [← heldBack_append] at hmem
      exact ih (by simp [h]) hmem
    cases event with
    | endOfInput => cases hentry
    | interrupt =>
      have hcount : (typedLines (before ++ [.interrupt])).length = (typedLines before).length := by
        simp [typedLines, Event.line?]
      rw [hcount] at hlater
      exact hlater s journal hentry
    | typed text =>
      have hcount : (typedLines (before ++ [.typed text])).length =
          (typedLines before).length + 1 := by
        simp [typedLines, Event.line?]
      rw [hcount] at hlater
      rcases List.mem_cons.mp hentry with rfl | hmem
      · exact ⟨before, rest, h, rfl, rfl⟩
      · split at hmem
        · cases hmem
        · split at hmem
          · cases hmem
          · exact hlater _ _ hmem

/-! ## What is written -/

/-- A line typed is entered, and then the prompt goes on unless that ends the session. -/
theorem run_eq_enter (site : Site) (who : Identity) (s : Session) (pending : Text) (count : Nat)
    (text : Text) (rest : List Event) :
    run site who s pending count (.typed text :: rest) = do
      let done ← s.enter site (pending ++ text) (count + 1)
      if done.1 = .terminate then
        Shell.print [Text.newline]
        return ([shown who s pending], done.2)
      let (prompts, last) ←
        run site who done.2 (Event.hold pending (.typed text)) (count + 1) rest
      return (shown who s pending :: prompts, last) := by
  unfold Session.enter
  rw [run]
  dsimp only [Event.hold]
  cases hlex : Line.lex (pending ++ text) with
  | error e => simp
  | ok lexed =>
    cases hopen : lexed.state.isOpen with
    | true => simp [hopen]
    | false =>
      simp only [hopen, Bool.false_eq_true, if_false]
      refine bind_congr fun done => ?_
      obtain ⟨outcome, next⟩ := done
      cases outcome <;> simp

theorem Entry.err_enter (site : Site) (entry : Entry) :
    (perform (entry.session.enter site entry.buffer entry.number) entry.journal).2.err =
      entry.journal.err ++ (entry.notices site).flatMap Notice.text := by
  unfold Session.enter notices
  cases hlex : Line.lex entry.buffer with
  | error e =>
    rw [List.flatMap_singleton]
    rfl
  | ok lexed =>
    dsimp only
    cases lexed.state.isOpen with
    | true => exact (List.append_nil _).symm
    | false => exact Session.err_command hlex entry.session entry.number entry.journal

/-- **What the prompt writes to the error stream** are the notices of the lines entered. -/
theorem err_run (site : Site) (who : Identity) (s : Session) (pending : Text) (count : Nat)
    (events : List Event) (journal : Journal) :
    (perform (run site who s pending count events) journal).2.err = journal.err ++
      ((entered site s pending count journal events).flatMap
        fun entry => entry.notices site).flatMap Notice.text := by
  -- each line begins with the session and the journal that the lines before it leave
  induction events generalizing s pending count journal with
  | nil => exact (List.append_nil _).symm
  | cons event rest ih =>
    cases event with
    | endOfInput => exact (List.append_nil _).symm
    | interrupt =>
      rw [run]
      dsimp only
      rw [err_bind_of_mute _ fun _ => mute_pure _]
      exact ih s [] count journal
    | typed text =>
      have hentry := Entry.err_enter site ⟨s, count + 1, pending, text, journal⟩
      rw [run_eq_enter, perform_bind, entered, List.flatMap_cons, List.flatMap_append,
        ← List.append_assoc, ← hentry]
      simp only [Entry.buffer]
      cases perform (s.enter site (pending ++ text) (count + 1)) journal with
      | mk outcome after =>
        cases outcome with
        | error e => exact (List.append_nil _).symm -- nothing is entered after a breakdown
        | ok done =>
          by_cases hends : done.1 = .terminate
          · simp only [hends, if_true]
            exact (List.append_nil _).symm
          · simp only [hends, if_false]
            rw [err_bind_of_mute _ fun _ => mute_pure _]
            exact ih done.2 _ (count + 1) after

/-- **What is said about a line** is placed where something is wrong with it. -/
theorem Entry.place_of_isAboutLine {entry : Entry} {notice : Notice}
    (h : notice ∈ entry.notices site) (habout : notice.isAboutLine = true) :
    ∃ p, notice.place? = some p ∧ entry.Offends site p.offset ∧ p.line = entry.number ∧
      p.column = Line.columnAt entry.buffer p.offset ∧ Line.IsPlace entry.buffer p.offset := by
  unfold notices at h
  cases hlex : Line.lex entry.buffer with
  | error e =>
    rw [hlex] at h
    obtain rfl := List.mem_singleton.mp h
    obtain ⟨hsource, hinside, -⟩ :=
      Line.offset_of_lex_error (show Line.lex ([] ++ entry.buffer) = .error e from hlex)
    rw [List.nil_append] at hsource
    rw [hsource] at hinside
    exact ⟨_, rfl, .fault hlex, rfl, by rw [hsource], hinside⟩
  | ok lexed =>
    rw [hlex] at h
    dsimp only at h
    split at h
    · cases h
    · rcases Session.isAboutLine_of_mem_notices h with hnot | ⟨e, t, rfl, htoken, hstops⟩
      · rw [hnot] at habout
        cases habout
      · have hstands := hstops.standsIn hlex
        have hlocated : e.locatedToken? = some t := by
          rw [WordError.locatedToken?, htoken, Option.filter_some, hstands.located, if_pos rfl]
        refine ⟨_, congrArg (Option.map _) hlocated, .word hlex hstops, rfl, ?_, hstands.start⟩
        rw [Line.source_of_lex hlex]

/-- **Behind a line end or nothing a place is that of the line itself.** -/
theorem columnAt_typed {pending text : Text} (h : BeginsLine pending) (k : Nat) :
    Line.columnAt (pending ++ text) ((pending.length + k : Nat) : Int) = Line.columnAt text k := by
  rcases h with rfl | ⟨front, rfl⟩
  · rw [List.nil_append, List.length_nil, Nat.zero_add]
  · have hcut : front ++ [Text.newline] ++ text = front ++ Text.newline :: text := by simp
    rw [hcut, List.length_append, List.length_singleton]
    exact Line.columnAt_behind_newline front text k

end Prompt

namespace Session

open Prompt (IsTyped BeginsLine)

/-- **What the places shown at the prompt are worth.** All that is written to the error stream are
the notices of the lines entered, which are lines typed, each with what was held back before it. A
notice shows a place just if it is about its line, and then the place is that of the byte with which
something is wrong: the line shown is the one that was typed last, and the column is that of the byte
in the physical line of all that was held together. So the byte was typed in that line and at that
column, if it is behind what was held back, and this was nothing or ended in a line end. A line that
cannot be read has its fault there, unless what was held back could not be read either. -/
theorem interact_positions (site : Site) (who : Prompt.Identity) (s : Session)
    (events : List Prompt.Event) (journal : Journal) :
    let entries := Prompt.entered site s [] 0 journal events
    (perform (s.interact site who events) journal).2.err = journal.err ++
      (entries.flatMap fun entry => entry.notices site).flatMap Notice.text ∧
    ∀ entry ∈ entries, IsTyped events entry.number entry.pending entry.text ∧
      (∀ e, Line.lex entry.buffer = .error e → (∃ held, Line.lex entry.pending = .ok held) →
        ∃ k : Nat, e.offset = entry.pending.length + k) ∧
      ∀ notice ∈ entry.notices site, notice.place?.isSome = notice.isAboutLine ∧
        ∀ p, notice.place? = some p →
          (∃ head tail, notice.text =
            Notice.complaint (head ++ Line.place (some p.column) (some p.line) ++ tail)) ∧
          entry.Offends site p.offset ∧
          p.line = entry.number ∧ (Prompt.typedLines events)[p.line - 1]? = some entry.text ∧
          Line.IsPlace entry.buffer p.offset ∧
          p.column = Line.columnAt entry.buffer p.offset ∧
          ∀ k : Nat, p.offset = entry.pending.length + k → BeginsLine entry.pending →
            p.column = Line.columnAt entry.text k ∧
              (Text.newline ∉ entry.text → p.column = Text.column entry.text k) := by
  intro entries
  refine ⟨Prompt.err_run site who s [] 0 events journal, fun entry hentry => ?_⟩
  have htyped : IsTyped events entry.number entry.pending entry.text :=
    Prompt.isTyped_of_entered (List.nil_append events).symm hentry
  refine ⟨htyped, fun e hlex => (Line.offset_of_lex_error hlex).2.2, fun notice hnotice => ?_⟩
  cases habout : notice.isAboutLine with
  | false =>
    rw [Notice.place?_eq_none habout]
    exact ⟨rfl, nofun⟩
  | true =>
    obtain ⟨p, hplace, hoffends, hline, hcolumn, hinside⟩ :=
      Prompt.Entry.place_of_isAboutLine hnotice habout
    refine ⟨by rw [hplace]; rfl, fun p' hplace' => ?_⟩
    obtain rfl := Option.some.inj (hplace.symm.trans hplace')
    refine ⟨Notice.exists_text_eq hplace, hoffends, hline, by rw [hline, htyped.line], hinside,
      hcolumn, fun k hk hbegins => ?_⟩
    have hanew : p.column = Line.columnAt entry.text k := by
      rw [hcolumn, hk]
      exact Prompt.columnAt_typed hbegins k
    exact ⟨hanew, fun hone => hanew.trans (Line.columnAt_of_no_newline hone k)⟩

/-- The quotes of `frob 'a` are closed by `b'`. The complaint about the first word is placed in the
second line, and the word was typed in the first. -/
theorem interact_positions_earlier :
    ∃ (events : List Prompt.Event) (entry : Prompt.Entry) (notice : Notice) (p : Notice.Place),
      Prompt.typedLines events = ["frob 'a", "b'"] ∧
      entry ∈ Prompt.entered nested {} [] 0 {} events ∧ entry.text = "b'" ∧
      notice ∈ entry.notices nested ∧
      (perform (interact nested ⟨"me", "here"⟩ {} events) {}).2.err = notice.text ∧
      notice.text =
        "bad command 'frob': not found (line 2 column 1)\n  | frob 'a\n  | ^^^^\n" ∧
      notice.place? = some p ∧ entry.Offends nested p.offset ∧ p.line = 2 ∧
      p.offset < entry.pending.length := by
  let entry : Prompt.Entry :=
    { session := {}, number := 2, pending := "frob 'a\n", text := "b'", journal := {} }
  let notice : Notice := .word 2 "frob 'a\nb'" ⟨"frob", some
    { data := "frob", start := 0, stop := 4, offsets := [0, 1, 2, 3] }, .notFound⟩
  have hentry : entry ∈ Prompt.entered nested {} [] 0 {} [.typed "frob 'a", .typed "b'"] := by
    decide +kernel
  have hnotice : notice ∈ entry.notices nested := by decide +kernel
  obtain ⟨p, hplace, hoffends, hline, -⟩ := Prompt.Entry.place_of_isAboutLine hnotice rfl
  refine ⟨[.typed "frob 'a", .typed "b'"], entry, notice, p, rfl, hentry, rfl, hnotice, ?_, ?_,
    hplace, hoffends, hline, ?_⟩
  · decide +kernel
  · decide +kernel
  · cases hplace
    decide

end Session

end ConfigShell
