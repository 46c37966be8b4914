import ConfigShell.CallerCompletion
import ConfigShell.Prompt.Loop
import ConfigShell.Proofs.Session.Alike
import ConfigShell.Proofs.Session.Trail
import ConfigShell.Proofs.Text.WellFormed
import ConfigShell.Proofs.Tree.Ends
/-!
# Sessions that do not break down without reason

Whatever a session is given to do, a line, a script, separate words, what a user types or a line to
complete, it is done to its end unless a zero byte is in one of the two paths of the tree or in the
name of an entry.
-/

namespace ConfigShell

open Shell (Ends ends_pure ends_print ends_printError ends_launch ComesTo OnSuccess)

variable {site : Site} {flaw : Breakdown → Prop} {l : Landing}

namespace Shell

theorem perform_write (setup : Setup) (t : Text) (journal : Journal) :
    perform (write setup t) journal =
      if setup.isStrict ∧ ¬ t.IsWellFormed then (.error .unencodable, journal)
      else (.ok (), { journal with out := journal.out ++ t }) := by
  unfold write
  by_cases hstrict : setup.isStrict <;> by_cases ht : t.IsWellFormed <;> simp [hstrict, ht] <;> rfl

theorem writeLines_cons (setup : Setup) (line : Text) (rest : List Text) :
    writeLines setup (line :: rest) =
      (do write setup (line ++ [Text.newline]); writeLines setup rest) := rfl

/-- **A strict output takes well-formed lines only**, and breaks down at the first other one. -/
theorem perform_writeLines (setup : Setup) (lines : List Text) (journal : Journal) :
    (perform (writeLines setup lines) journal).1 =
      if setup.isStrict ∧ ∃ line ∈ lines, ¬ line.IsWellFormed then .error .unencodable
      else .ok () := by
  induction lines generalizing journal with
  | nil => simp [writeLines, perform_pure]
  | cons line rest ih =>
    have hended : (line ++ [Text.newline]).IsWellFormed ↔ line.IsWellFormed :=
      (Text.isWellFormed_append_ascii (by decide)).trans (and_iff_left Text.isWellFormed_nil)
    have hfirst := perform_write setup (line ++ [Text.newline]) journal
    simp only [hended] at hfirst
    rw [writeLines_cons]
    by_cases hrefused : setup.isStrict = true ∧ ¬ line.IsWellFormed
    · rw [if_pos hrefused] at hfirst
      rw [perform_bind_of_error hfirst, if_pos ⟨hrefused.1, line, List.mem_cons_self .., hrefused.2⟩]
    · rw [if_neg hrefused] at hfirst
      rw [perform_bind_of_ok hfirst, ih]
      refine if_congr (and_congr_right fun hstrict => ?_) rfl rfl
      have hline : line.IsWellFormed := Classical.not_not.mp fun h => hrefused ⟨hstrict, h⟩
      simp [hline]

end Shell

section

variable (hflaw : site.HasZeroByte → flaw .zeroByte)
include hflaw

/-- **An execution ends**, well or badly. -/
theorem Execution.ends_run (hl : site.SoundTo l) :
    Ends flaw (Execution.run site.host site.tree.environment l) := by
  cases hplan : plan l with
  | error fault =>
    rw [run_of_fault hplan]
    exact ends_pure _
  | ok planned =>
    obtain ⟨c, words⟩ := planned
    obtain ⟨hc, -⟩ := command?_of_plan hplan
    have hsysconf := (offers_of_command? hl hc).passable_or hflaw
    rw [run_of_plan hplan]
    refine (ends_launch site.host site.tree.environment hsysconf _ _).next fun answer => ?_
    cases answer with
    | error reason => exact ends_pure _
    | ok reply =>
      refine (ends_print _).next fun _ => (ends_printError _).next fun _ => ?_
      split <;> exact ends_pure _

namespace Session

theorem ends_resolve (s : Session) (lexed : Line.Lexed) (validate : Bool) :
    Ends flaw (s.resolve site lexed validate) := by
  unfold resolve
  split
  · exact ends_pure _
  · exact (Walk.ends_line hflaw s.path lexed validate false).map _

theorem ends_complete (s : Session) (lexed : Line.Lexed) :
    Ends flaw (s.complete site lexed) := by
  unfold complete
  split
  · exact ends_pure _
  · exact (Walk.ends_line hflaw s.path lexed true true).map _

theorem ends_dispatch (s : Session) (hl : site.SoundTo l) (lexed : Line.Lexed)
    (number : Option Int) : Ends flaw (s.dispatch site l lexed number) := by
  have hrun : Ends flaw (Execution.run site.host site.tree.environment l >>= s.report) := by
    refine (Execution.ends_run hflaw hl).next fun r => ?_
    cases r with
    | ok _ => exact ends_pure _
    | error fault => exact (ends_printError _).next fun _ => ends_pure _
  unfold dispatch
  split
  · exact ends_pure _
  · exact hrun
  · exact hrun
  · exact ends_pure _
  · exact ends_pure _
  · exact (ends_printError _).next fun _ => ends_pure _

/-- **A line is carried out to its end.** -/
theorem ends_command (s : Session) (lexed : Line.Lexed) (number : Option Int) :
    Ends flaw (s.command site lexed number) := by
  cases hempty : lexed.isEmpty with
  | true =>
    unfold command
    rw [hempty]
    exact ends_pure _
  | false =>
    have hsound : ComesTo (OnSuccess fun resolution => ∀ l, resolution.landing = some l →
        site.SoundTo l) (s.resolve site lexed true) :=
      (does_resolveLine (P := fun _ => True) s lexed fun _ _ _ _ => trivial).comesTo
    rw [command_eq_act site s hempty]
    refine (ends_resolve hflaw s lexed true).bind hsound fun r hr => ?_
    unfold act
    split
    · exact (ends_printError _).next fun _ => ends_pure _
    · exact (ends_printError _).next fun _ => ends_pure _
    · exact ends_pure _
    · rename_i l steps
      have hdispatch := ends_dispatch hflaw s (hr _ rfl l rfl) lexed number
      dsimp only
      split
      · exact (ends_printError _).next fun _ => hdispatch
      · exact hdispatch

theorem ends_trail (s : Session) (lines : List (Text × Nat)) :
    Ends flaw (s.trail site lines) := by
  induction lines generalizing s with
  | nil => exact ends_pure _
  | cons line rest ih =>
    obtain ⟨text, number⟩ := line
    have hline : Ends flaw (s.runLine site text number) := by
      unfold runLine
      split
      · exact (ends_printError _).next fun _ => ends_pure _
      · exact ends_command hflaw s _ _
    unfold trail
    refine hline.next fun done => ?_
    split
    · exact ends_pure _
    · exact (ih done.2).next fun more => ends_pure _

/-- **A script is run to its end**, if there is nothing wrong with what is done there. -/
theorem ends_readLines (s : Session) (lines : List Text) {atEnd : Shell Unit}
    (hend : Ends flaw atEnd) : Ends flaw (s.readLines site lines atEnd) := by
  rw [readLines_then_eq_trail]
  refine (ends_trail hflaw s _).next fun done => Ends.next ?_ fun _ => ends_pure _
  unfold unlessEnded
  split
  · exact ends_pure _
  · exact hend

theorem ends_runWords (s : Session) (words : List Text) :
    Ends flaw (s.runWords site words) := by
  unfold runWords
  split
  · exact ends_pure _
  · exact (ends_command hflaw s _ none).next fun done => ends_pure _

/-- **The names for the calling shell are found in any case.** -/
theorem ends_namesForCaller (s : Session) (line : Text) :
    Ends flaw (s.namesForCaller site line) := by
  unfold namesForCaller
  split
  · exact ends_pure _
  · split
    · exact ends_pure _
    · refine (ends_complete hflaw s _).next fun r => ?_
      split <;> exact ends_pure _

end Session

/-- **What a user types is carried out to its end.** -/
theorem Prompt.ends_run (who : Identity) (s : Session) (pending : Text) (count : Nat)
    (events : List Event) : Ends flaw (run site who s pending count events) := by
  induction events generalizing s pending count with
  | nil =>
    unfold run
    exact (ends_print _).next fun _ => ends_pure _
  | cons event rest ih =>
    unfold run
    dsimp only
    split
    · exact (ih _ _ _).next fun _ => ends_pure _
    · exact (ends_print _).next fun _ => ends_pure _
    · split
      · exact (ends_printError _).next fun _ => (ih _ _ _).next fun _ => ends_pure _
      · split
        · exact (ih _ _ _).next fun _ => ends_pure _
        · refine (Session.ends_command hflaw s _ _).next fun done => ?_
          split
          · exact (ends_print _).next fun _ => ends_pure _
          · exact (ih _ _ _).next fun _ => ends_pure _

end

end ConfigShell
