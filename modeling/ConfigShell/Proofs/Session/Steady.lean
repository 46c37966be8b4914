import ConfigShell.Proofs.Session.Trail
import ConfigShell.Proofs.Session.Arguments
import ConfigShell.Proofs.Steady
/-!
# Lines on a machine that forgets

Where the answer of a program depends on the call only, a line of a script does the same whenever it
is carried out (`Session.exists_runLine`): whatever has been done before and whichever number it
has, it has the same outcome, moves the session to the same place, and makes the same calls.
-/

namespace ConfigShell

open Shell (perform Steady Alike steady_pure steady_throw steady_printError steady_print
  steady_launch alike_pure alike_printError)

variable {site : Site}

/-! ## Words -/

theorem Probe.steady_run (h : site.host.Forgets) (l : Landing) (p : Parameter) :
    Steady (Probe.run site.host site.tree.environment l p) := by
  cases hc : p.command with
  | none =>
    unfold Probe.run
    rw [hc]
    exact steady_throw _
  | some c =>
    rw [probe_of_command hc]
    exact (steady_launch h _ _ _ _).map _

namespace Landing

theorem steady_resolveParameter (h : site.host.Forgets) (l : Landing) (command : Command)
    (word : Text) (token : Option Line.Token) (validate : Bool) :
    Steady (l.resolveParameter site command word token validate) := by
  unfold resolveParameter
  dsimp only
  split
  · exact steady_pure _
  split
  · exact (Probe.steady_run h l _).bind fun p => steady_pure _
  · exact steady_pure _

/-- **A word leads to the same at any time.** -/
theorem steady_resolve (h : site.host.Forgets) (l : Landing) (word : Text)
    (token : Option Line.Token) (validate : Bool) :
    Steady (l.resolve site word token validate) := by
  unfold resolve
  split
  · split
    · split <;> exact steady_pure _
    · exact ((Container.isQuiet_lookUp _ word token).map _).steady
  · exact (steady_resolveParameter h l _ word token validate).map _
  · split
    · exact (steady_resolveParameter h l _ word token validate).map _
    · exact steady_throw _
  · exact steady_pure _
  · exact steady_pure _
  · exact steady_pure _

end Landing

theorem Walk.steady_words (h : site.host.Forgets) (validate : Bool) (l : Landing)
    (tokens : List Line.Token) : Steady (Walk.words site validate l tokens) := by
  induction tokens generalizing l with
  | nil => exact steady_pure _
  | cons token rest ih =>
    unfold Walk.words
    refine (l.steady_resolve h token.data (some token) validate).bind fun r => ?_
    cases r with
    | error e => exact steady_pure _
    | ok next => exact (ih next).bind fun walk => steady_pure _

/-! ## Lines -/

theorem Execution.steady_run (h : site.host.Forgets) (l : Landing) :
    Steady (Execution.run site.host site.tree.environment l) := by
  cases hplan : plan l with
  | error fault =>
    rw [run_of_fault hplan]
    exact steady_pure _
  | ok planned =>
    obtain ⟨c, words⟩ := planned
    rw [run_of_plan hplan]
    refine (steady_launch h _ _ _ _).bind fun answer => ?_
    cases answer with
    | error reason => exact steady_pure _
    | ok reply =>
      refine (steady_print _).bind fun _ => (steady_printError _).bind fun _ => ?_
      split <;> exact steady_pure _

namespace Session

theorem steady_resolve (h : site.host.Forgets) (s : Session) (lexed : Line.Lexed)
    (validate : Bool) : Steady (s.resolve site lexed validate) := by
  unfold resolve
  split
  · exact steady_pure _
  · refine Steady.map ?_ _
    unfold Walk.line
    dsimp only
    refine (Walk.isQuiet_start s.path _).steady.bind fun r => ?_
    cases r with
    | error name => exact steady_pure _
    | ok l => exact (Walk.steady_words h validate l _).bind fun walk => steady_pure _

theorem steady_dispatch (h : site.host.Forgets) (s : Session) (l : Landing) (lexed : Line.Lexed)
    (number : Option Int) : Steady (s.dispatch site l lexed number) := by
  have hrun : Steady (Execution.run site.host site.tree.environment l >>= s.report) := by
    refine (Execution.steady_run h l).bind fun r => ?_
    cases r with
    | ok _ => exact steady_pure _
    | error fault => exact (steady_printError _).bind fun _ => steady_pure _
  unfold dispatch
  split
  · exact steady_pure _
  · exact hrun
  · exact hrun
  · exact steady_pure _
  · exact steady_pure _
  · exact (steady_printError _).bind fun _ => steady_pure _

theorem steady_act (h : site.host.Forgets) (s : Session) (lexed : Line.Lexed)
    (number : Option Int) (r : Except WalkError Resolution) :
    Steady (s.act site lexed number r) := by
  unfold act
  split
  · exact (steady_printError _).bind fun _ => steady_pure _
  · exact (steady_printError _).bind fun _ => steady_pure _
  · exact steady_pure _
  · rename_i l _
    have hdispatch := steady_dispatch h s l lexed number
    dsimp only
    split
    · exact (steady_printError _).bind fun _ => hdispatch
    · exact hdispatch

theorem steady_command (h : site.host.Forgets) (s : Session) (lexed : Line.Lexed)
    (number : Option Int) : Steady (s.command site lexed number) := by
  cases hempty : lexed.isEmpty with
  | true =>
    unfold command
    rw [hempty]
    exact steady_pure _
  | false =>
    rw [command_eq_act site s hempty]
    exact (steady_resolve h s lexed true).bind fun r => steady_act h s lexed number r

theorem steady_runLine (h : site.host.Forgets) (s : Session) (text : Text) (number : Nat) :
    Steady (s.runLine site text number) := by
  unfold runLine
  split
  · exact (steady_printError _).bind fun _ => steady_pure _
  · exact steady_command h s _ _

/-- The number of a line shows in its reports only. -/
theorem alike_runLine (s : Session) (text : Text) (number number' : Nat) :
    Alike (· = ·) (s.runLine site text number) (s.runLine site text number') := by
  unfold runLine
  split
  · exact (alike_printError _ _).bind fun _ _ _ => alike_pure rfl
  · rename_i lexed _
    cases hempty : lexed.isEmpty with
    | true =>
      unfold command
      rw [hempty]
      exact alike_pure rfl
    | false =>
      have hsame (t : Line.Token) : t.SameWord t := ⟨rfl, rfl⟩
      have hwords : List.Forall₂ Line.Token.SameWord lexed.tokens lexed.tokens :=
        List.forall₂_same.mpr fun t _ => hsame t
      have hline := Walk.alike_line site s.path hwords rfl true
      exact (alike_command s s hempty hempty hline rfl _ _).imp fun r r' hr => hr.eq

/-- **A line does the same at any time**, as any line of a script. -/
theorem exists_runLine (h : site.host.Forgets) (s : Session) (text : Text) :
    ∃ outcome new, ∀ number journal,
      (perform (s.runLine site text number) journal).1 = outcome ∧
        (perform (s.runLine site text number) journal).2.calls = journal.calls ++ new := by
  obtain ⟨outcome, new, hfirst⟩ := steady_runLine h s text 0
  refine ⟨outcome, new, fun number journal => ?_⟩
  have halike : Alike (· = ·) (s.runLine site text number) (s.runLine site text 0) :=
    s.alike_runLine text number 0
  obtain ⟨hcalls, hmeets⟩ := halike journal journal rfl
  obtain ⟨houtcome, hnew⟩ := hfirst journal
  exact ⟨hmeets.eq.trans houtcome, hcalls.trans hnew⟩

/-- A line that fails leaves the session as it was. -/
theorem eq_of_runLine_error {s next : Session} {text : Text} {number : Nat}
    {journal journal' : Journal}
    (h : perform (s.runLine site text number) journal = (.ok (.error, next), journal')) :
    next = s := by
  unfold runLine at h
  split at h
  · cases h
    rfl
  · rcases moves_command h with ⟨hstays, -⟩ | ⟨hgoesOn, -⟩
    · exact hstays
    · cases hgoesOn

end Session

end ConfigShell
