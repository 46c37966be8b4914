import ConfigShell.Prompt.Loop
import ConfigShell.Proofs.Line.Reported
import ConfigShell.Proofs.Session.Alike
import ConfigShell.Proofs.Session.Trail
import ConfigShell.Proofs.Tree.Cited
/-!
# Typing a script

Lines typed at the prompt come without the break that ends them, and may be held back where they end
open; the lines of a script come with the break and are read to the end at once. As long as no line
ends open, typing lines and running the script of them is the same: one line is carried out in the
same way, down to what is reported of it (`Session.runLine_ended`), and so is the whole
(`Session.interact_eq_trail`).
-/

namespace ConfigShell

open Shell (perform perform_bind perform_map)

variable {site : Site} {s : Session} {text : Text} {lexed : Line.Lexed}

/-- The line does not end within a quote or an escape, or it cannot be read at all. -/
def Line.EndsClosed (text : Text) : Prop :=
  ∀ lexed, lex text = .ok lexed → lexed.state.isOpen = false

theorem Line.endsClosed_iff :
    EndsClosed text ↔ (lex text).toOption.all (fun lexed => !lexed.state.isOpen) = true := by
  unfold EndsClosed
  cases lex text <;> simp [Except.toOption]

instance (text : Text) : Decidable (Line.EndsClosed text) :=
  decidable_of_iff' _ Line.endsClosed_iff

/-! ## One line -/

namespace Line

/-- The words to resolve stand in the line they were read from. -/
theorem standsIn_splitRoot {tokens : List Token} (h : ∀ t ∈ tokens, t.StandsIn text) :
    ∀ t ∈ (Walk.splitRoot tokens).2, t.StandsIn text := by
  unfold Walk.splitRoot
  split
  · exact nofun
  · rename_i first rest
    obtain ⟨hfirst, hrest⟩ := List.forall_mem_cons.mp h
    split
    · dsimp only
      split
      · exact hrest
      · exact List.forall_mem_cons.mpr ⟨hfirst.dropFirst 1, hrest⟩
    · exact h

/-- A line with words is not empty. -/
theorem ne_nil_of_words (h : lex text = .ok lexed) (words : lexed.isEmpty = false) :
    text ≠ [] := by
  rintro rfl
  cases h
  cases words

end Line

namespace Session

/-- Reading gives the words of a typed line also where the line has been ended. -/
structure IsGivenAs (text : Text) (lexed given : Line.Lexed) : Prop where
  read : Line.lex text = .ok lexed
  closed : lexed.state.isOpen = false
  tokens : given.tokens = lexed.tokens
  isComment : given.isComment = lexed.isComment
  source : given.source = text ++ [Text.newline]

variable {given : Line.Lexed}

theorem IsGivenAs.isEmpty_eq (h : IsGivenAs text lexed given) : given.isEmpty = lexed.isEmpty := by
  rw [Line.Lexed.isEmpty, Line.Lexed.isEmpty, h.tokens, h.isComment]

/-- A word of the line is complained of in the same words. -/
theorem IsGivenAs.complainOfWord_eq (h : IsGivenAs text lexed given)
    (words : lexed.isEmpty = false) {e : WordError} (he : ∀ t ∈ e.token, t.StandsIn text)
    (number : Option Int) :
    complainOfWord given number e = complainOfWord lexed number e := by
  have hne : text ≠ [] := Line.ne_nil_of_words h.read words
  have htyped : shownSource lexed = some text := by
    rw [shownSource, Line.source_of_lex h.read]
    simp [hne]
  have hgiven : shownSource given = some (text ++ [Text.newline]) := by
    rw [shownSource, h.source]
    simp
  rw [complainOfWord, complainOfWord, htyped, hgiven, WordError.report_append_newline hne he]

/-- What is done where the line has led is the same, as only its own words can be complained of. -/
theorem IsGivenAs.act_eq (h : IsGivenAs text lexed given) (words : lexed.isEmpty = false)
    (number : Option Int) {r : Except WalkError Resolution}
    (hr : Resolution.Cites (fun token => ∀ t ∈ token, t.StandsIn text) r) :
    s.act site given number r = s.act site lexed number r := by
  match r, hr with
  | .error (.stalePath name), _ => rfl
  | .error (.word e), hr =>
    unfold act
    dsimp only
    rw [h.complainOfWord_eq words hr]
  | .ok { landing := none, .. }, _ => rfl
  | .ok { landing := some l, .. }, hr =>
    have hdispatch : s.dispatch site l given number = s.dispatch site l lexed number := by
      unfold dispatch
      cases hl : l.node with
      | ambiguous a =>
        have ha : ∀ t ∈ (ambiguityError a).token, t.StandsIn text :=
          hr l rfl l.node (List.mem_cons_self ..) a hl
        dsimp only
        rw [h.complainOfWord_eq words ha]
      | container | command | parameter | builtin | option => rfl
    unfold act
    dsimp only
    rw [hdispatch]

/-- **A typed line is carried out as the line ended is.** -/
theorem IsGivenAs.command_eq (h : IsGivenAs text lexed given) (number : Option Int) :
    s.command site given number = s.command site lexed number := by
  cases hempty : lexed.isEmpty with
  | true => simp [command, h.isEmpty_eq, hempty]
  | false =>
    have hcomment := Line.Lexed.isComment_of_words hempty
    have hstands := Line.standsIn_of_lex h.read hcomment
    have hcites : Shell.ComesTo (Resolution.Cites fun token => ∀ t ∈ token, t.StandsIn text)
        (s.resolve site lexed true) := by
      refine s.comesTo_cites nofun (fun t ht t' ht' => ?_) true
      cases ht'
      exact Line.standsIn_splitRoot hstands t ht
    rw [command_eq_act site s (h.isEmpty_eq.trans hempty), command_eq_act site s hempty,
      resolve_congr h.tokens h.isComment]
    exact hcites.bind_congr fun r hr => h.act_eq hempty number hr

/-- **A line of a script is carried out as it is typed**, if it does not end open. -/
theorem runLine_ended (hclosed : Line.EndsClosed text) (s : Session) (number : Nat) :
    s.runLine site (text ++ [Text.newline]) number = match Line.lex text with
      | .error e => do
        Shell.complain (e.report (some number))
        return (.error, s)
      | .ok lexed => s.command site lexed (some number) := by
  unfold runLine
  cases hlex : Line.lex text with
  | error e =>
    obtain ⟨e', hfinal, hreport⟩ := Line.lexFinal_of_lex_error hlex
    rw [hfinal]
    dsimp only
    rw [hreport]
  | ok lexed =>
    obtain ⟨given, hfinal, htokens, hcomment, hsource⟩ :=
      Line.lexFinal_of_lex hlex (hclosed lexed hlex)
    have hgiven : IsGivenAs text lexed given :=
      ⟨hlex, hclosed lexed hlex, htokens, hcomment, hsource⟩
    rw [hfinal]
    exact hgiven.command_eq _

end Session

/-! ## All lines -/

namespace Prompt

/-- The prompts shown while lines are carried out, none of which is held back. -/
def prompts (who : Identity) (s : Session) (done : List (Outcome × Session)) : List Text :=
  shown who s [] :: (done.filter (·.1 != .terminate)).map fun step => shown who step.2 []

/-- A typed line that does not end open is carried out at once. -/
theorem run_typed (hclosed : Line.EndsClosed text) (site : Site) (who : Identity) (s : Session)
    (count : Nat) (rest : List Event) :
    run site who s [] count (.typed text :: rest) = do
      let done ← s.runLine site (text ++ [Text.newline]) (count + 1)
      if done.1 = .terminate then
        Shell.print [Text.newline]
        return ([shown who s []], done.2)
      let (prompts, last) ← run site who done.2 [] (count + 1) rest
      return (shown who s [] :: prompts, last) := by
  rw [Session.runLine_ended hclosed, run]
  dsimp only
  rw [List.nil_append]
  cases hlex : Line.lex text with
  | error e => simp
  | ok lexed =>
    dsimp only
    rw [hclosed lexed hlex]
    refine bind_congr fun done => ?_
    obtain ⟨outcome, next⟩ := done
    cases outcome <;> simp

theorem run_eq_trail (who : Identity) (s : Session) (count : Nat) {lines : List Text}
    (hclosed : ∀ line ∈ lines, Line.EndsClosed line) :
    run site who s [] count (lines.map .typed) = do
      let done ← s.trail site ((lines.map (· ++ [Text.newline])).zipIdx (count + 1))
      Shell.print [Text.newline]
      return (prompts who s done, s.latest done) := by
  induction lines generalizing s count with
  | nil =>
    simp [run, Session.trail, prompts]
  | cons line rest ih =>
    obtain ⟨hline, hrest⟩ := List.forall_mem_cons.mp hclosed
    rw [List.map_cons, run_typed hline, List.map_cons, List.zipIdx_cons, Session.trail, bind_assoc]
    refine bind_congr fun done => ?_
    by_cases hends : done.1 = .terminate
    · simp [hends, prompts]
    · simp [hends, ih _ _ hrest, prompts]

end Prompt

namespace Session

/-- **The prompt follows the trail of the script**, if no line ends open. -/
theorem interact_eq_trail (who : Prompt.Identity) (s : Session) {lines : List Text}
    (hclosed : ∀ line ∈ lines, Line.EndsClosed line) :
    s.interact site who (lines.map .typed) = do
      let done ← s.trail site ((lines.map (· ++ [Text.newline])).zipIdx 1)
      Shell.print [Text.newline]
      return (Prompt.prompts who s done, s.latest done) :=
  Prompt.run_eq_trail who s 0 hclosed

/-- **Typing lines does what running the script of them does**, if no line ends open. Both carry out
one trail of lines, numbered from one: the same lines up to the one that ends the session, each with
its outcome and the session after it. So they start the same programs, write the same to the error
stream, and end with the same session or the same breakdown. -/
theorem interact_typed (site : Site) (who : Prompt.Identity) (s : Session) (lines : List Text)
    (hclosed : ∀ line ∈ lines, Line.EndsClosed line) :
    let typed := s.interact site who (lines.map .typed)
    let given := s.readLines site (lines.map (· ++ [Text.newline]))
    let carried := s.trail site ((lines.map (· ++ [Text.newline])).zipIdx 1)
    (typed = do
      let done ← carried
      Shell.print [Text.newline]
      return (Prompt.prompts who s done, s.latest done)) ∧
    (given = do
      let done ← carried
      return (if Succeeded done then 0 else 1, s.latest done)) ∧
    ∀ journal,
      (perform typed journal).2.calls = (perform given journal).2.calls ∧
      (perform typed journal).2.err = (perform given journal).2.err ∧
      (perform typed journal).1.map (·.2) = (perform given journal).1.map (·.2) := by
  intro typed given carried
  have htyped : typed = _ := interact_eq_trail who s hclosed
  have hgiven : given = _ := readLines_eq_trail s _
  rw [← bind_pure_comp] at hgiven
  refine ⟨htyped, hgiven, fun journal => ?_⟩
  rw [htyped, hgiven, perform_bind, perform_bind]
  cases perform (s.trail site ((lines.map (· ++ [Text.newline])).zipIdx 1)) journal with
  | mk outcome after =>
    cases outcome with
    | error e => exact ⟨rfl, rfl, rfl⟩
    | ok done => exact ⟨rfl, rfl, rfl⟩ -- a break is printed after the last prompt

/-- A line that leads on, one with a fault, one that leads nowhere, and one that ends the session
with a line after it. -/
def typedLines : List Text := ["net", "a\\q", "zz", "/ex", "neck"]

/-- Two of the lines are complained of, and the last one is not carried out. -/
theorem interact_typed_nested :
    (∀ line ∈ typedLines, Line.EndsClosed line) ∧
    let typed := perform (interact nested ⟨"me", "here"⟩ {} (typedLines.map .typed)) {}
    let given := perform (readLines nested {} (typedLines.map (· ++ [Text.newline]))) {}
    typed.2.err = given.2.err ∧ typed.1.map (·.2) = given.1.map (·.2) ∧
      given.2.err.count Text.newline = 6 ∧
      given.1.toOption = some (1, { path := ["network"] }) := by
  have hclosed : ∀ line ∈ typedLines, Line.EndsClosed line := by decide +kernel
  obtain ⟨-, -, hsame⟩ := interact_typed nested ⟨"me", "here"⟩ {} typedLines hclosed
  obtain ⟨-, herr, hend⟩ := hsame {}
  exact ⟨hclosed, herr, hend, by decide +kernel, by decide +kernel⟩

end Session

end ConfigShell
