import ConfigShell.Proofs.Session.Asking
import ConfigShell.Proofs.Session.Steady
/-!
# Failed lines are isolated

A line of a script that fails without having executed anything might as well not be there: on a
machine that forgets, the script without such lines executes the same commands and leaves the
session at the same place (`Session.readLines_isolates`). The line that ends the session is the last
that is looked at, and the exit code tells whether a line failed up to there.
-/

namespace ConfigShell

open Shell (perform perform_bind perform_bind_of_ok perform_map)

variable {site : Site} {s next : Session} {journal journal' after : Journal} {text : Text}
  {number : Nat} {rest : List (Text × Nat)}

instance : DecidablePred Call.IsExecution :=
  fun c => inferInstanceAs (Decidable (c.arguments.head? = some "--"))

/-- The commands executed, among all programs started. -/
def Journal.executions (journal : Journal) : List Call :=
  journal.calls.filter fun call => decide call.IsExecution

theorem Journal.executions_of_calls {new : List Call} (h : after.calls = journal.calls ++ new) :
    after.executions = journal.executions ++ new.filter fun call => decide call.IsExecution := by
  rw [executions, h, List.filter_append, executions]

namespace Session

/-- A script, begun after what has been done before, and what is left of it without the lines that
fail and have not executed anything. Of the lines behind the last one carried out, any may be
left. -/
inductive Prunes (site : Site) :
    Session → Journal → List (Text × Nat) → List Text → Prop
  | done (s : Session) (journal : Journal) : Prunes site s journal [] []
  | dropped {s : Session} {journal after : Journal} {text : Text} {number : Nat}
      {rest : List (Text × Nat)} {kept : List Text} (next : Session)
      (first : perform (s.runLine site text number) journal = (.ok (.error, next), after))
      (idle : after.executions = journal.executions)
      (others : Prunes site next after rest kept) :
      Prunes site s journal ((text, number) :: rest) kept
  | carried {s : Session} {journal after : Journal} {text : Text} {number : Nat}
      {rest : List (Text × Nat)} {kept : List Text} (outcome : Outcome) (next : Session)
      (first : perform (s.runLine site text number) journal = (.ok (outcome, next), after))
      (stays : outcome ≠ .terminate)
      (acts : outcome = .error → after.executions ≠ journal.executions)
      (others : Prunes site next after rest kept) :
      Prunes site s journal ((text, number) :: rest) (text :: kept)
  | ended {s : Session} {journal after : Journal} {text : Text} {number : Nat} (next : Session)
      (first : perform (s.runLine site text number) journal = (.ok (.terminate, next), after))
      (rest : List (Text × Nat)) (kept : List Text) :
      Prunes site s journal ((text, number) :: rest) (text :: kept)
  | broken {s : Session} {journal after : Journal} {text : Text} {number : Nat} {e : Breakdown}
      (first : perform (s.runLine site text number) journal = (.error e, after))
      (rest : List (Text × Nat)) (kept : List Text) :
      Prunes site s journal ((text, number) :: rest) (text :: kept)

namespace Prunes

variable {kept : List Text}

/-- Whether a line is left can be found out by carrying it out. -/
theorem drop (next : Session)
    (first : (perform (s.runLine site text number) journal).1 = .ok (.error, next))
    (idle : (perform (s.runLine site text number) journal).2.executions = journal.executions)
    (others : Prunes site next (perform (s.runLine site text number) journal).2 rest kept) :
    Prunes site s journal ((text, number) :: rest) kept :=
  .dropped next (Prod.ext first rfl) idle others

theorem keep (next : Session)
    (first : (perform (s.runLine site text number) journal).1 = .ok (.goOn, next))
    (others : Prunes site next (perform (s.runLine site text number) journal).2 rest kept) :
    Prunes site s journal ((text, number) :: rest) (text :: kept) :=
  .carried .goOn next (Prod.ext first rfl) (by decide) nofun others

theorem finish (next : Session)
    (first : (perform (s.runLine site text number) journal).1 = .ok (.terminate, next)) :
    Prunes site s journal ((text, number) :: rest) (text :: kept) :=
  .ended next (Prod.ext first rfl) rest kept

end Prunes

/-- Something is left of any script. -/
theorem exists_prunes (site : Site) (s : Session) (journal : Journal)
    (lines : List (Text × Nat)) : ∃ kept, Prunes site s journal lines kept := by
  induction lines generalizing s journal with
  | nil => exact ⟨[], .done s journal⟩
  | cons line rest ih =>
    obtain ⟨text, number⟩ := line
    match hfirst : perform (s.runLine site text number) journal with
    | (.error e, after) => exact ⟨_, .broken hfirst rest []⟩
    | (.ok (.terminate, next), after) => exact ⟨_, .ended next hfirst rest []⟩
    | (.ok (.goOn, next), after) =>
      obtain ⟨kept, hkept⟩ := ih next after
      exact ⟨_, .carried .goOn next hfirst (by decide) nofun hkept⟩
    | (.ok (.error, next), after) =>
      obtain ⟨kept, hkept⟩ := ih next after
      by_cases hidle : after.executions = journal.executions
      · exact ⟨_, .dropped next hfirst hidle hkept⟩
      · exact ⟨_, .carried .error next hfirst (by decide) (fun _ => hidle) hkept⟩

/-! ## The trail from one line to the next -/

theorem perform_trail_of_ok {outcome : Outcome}
    (first : perform (s.runLine site text number) journal = (.ok (outcome, next), after))
    (stays : outcome ≠ .terminate) (rest : List (Text × Nat)) :
    perform (s.trail site ((text, number) :: rest)) journal =
      ((perform (next.trail site rest) after).1.map ((outcome, next) :: ·),
        (perform (next.trail site rest) after).2) := by
  rw [trail, perform_bind_of_ok first]
  dsimp only
  rw [if_neg stays, bind_pure_comp, perform_map]

theorem perform_trail_of_terminate
    (first : perform (s.runLine site text number) journal = (.ok (.terminate, next), after))
    (rest : List (Text × Nat)) :
    perform (s.trail site ((text, number) :: rest)) journal =
      (.ok [(.terminate, next)], after) := by
  rw [trail, perform_bind_of_ok first]
  rfl

theorem perform_trail_of_error {e : Breakdown}
    (first : perform (s.runLine site text number) journal = (.error e, after))
    (rest : List (Text × Nat)) :
    perform (s.trail site ((text, number) :: rest)) journal = (.error e, after) := by
  rw [trail, Shell.perform_bind_of_error first]

/-! ## Two runs side by side -/

/-- What comes of two trails begun at `journal` and at `journal'`: the same commands have been
executed since, and the session is the same. -/
structure SameEffect (s : Session) (journal journal' : Journal)
    (r r' : Except Breakdown (List (Outcome × Session)) × Journal) : Prop where
  session : r.1.map s.latest = r'.1.map s.latest
  executions : ∃ new, r.2.executions = journal.executions ++ new ∧
    r'.2.executions = journal'.executions ++ new

/-- The same line in front of both. -/
theorem SameEffect.cons {after' : Journal} {new : List Call} {outcome : Outcome}
    {r r' : Except Breakdown (List (Outcome × Session)) × Journal}
    (h : SameEffect next after after' r r') (hcalls : after.calls = journal.calls ++ new)
    (hcalls' : after'.calls = journal'.calls ++ new) :
    SameEffect s journal journal' (r.1.map ((outcome, next) :: ·), r.2)
      (r'.1.map ((outcome, next) :: ·), r'.2) := by
  constructor
  · obtain ⟨hsession, -⟩ := h
    cases hr : r.1 <;> cases hr' : r'.1 <;> simp_all [Except.map]
  · obtain ⟨more, hmore, hmore'⟩ := h.executions
    refine ⟨(new.filter fun call => decide call.IsExecution) ++ more, ?_, ?_⟩
    · rw [hmore, Journal.executions_of_calls hcalls, List.append_assoc]
    · rw [hmore', Journal.executions_of_calls hcalls', List.append_assoc]

/-- **What is left of a script has the same effect**, at whatever time and with whatever numbers its
lines are carried out. -/
theorem Prunes.sameEffect (h : site.host.Forgets) {lines : List (Text × Nat)} {kept : List Text}
    (hp : Prunes site s journal lines kept) (first : Nat) (journal' : Journal) :
    SameEffect s journal journal' (perform (s.trail site lines) journal)
      (perform (s.trail site (kept.zipIdx first)) journal') := by
  -- a line that is left does the same in both scripts
  have hboth {s : Session} {text : Text} {number : Nat} {journal after : Journal}
      {outcome : Except Breakdown (Outcome × Session)}
      (hline : perform (s.runLine site text number) journal = (outcome, after))
      (first : Nat) (journal' : Journal) :
      ∃ after' new, perform (s.runLine site text first) journal' = (outcome, after') ∧
        after.calls = journal.calls ++ new ∧ after'.calls = journal'.calls ++ new := by
    obtain ⟨outcome₀, new, hany⟩ := exists_runLine h s text
    obtain ⟨houtcome, hcalls⟩ := hany number journal
    obtain ⟨houtcome', hcalls'⟩ := hany first journal'
    rw [hline] at houtcome hcalls
    exact ⟨(perform (s.runLine site text first) journal').2, new,
      Prod.ext (houtcome'.trans houtcome.symm) rfl, hcalls, hcalls'⟩
  induction hp generalizing first journal' with
  | done s journal => exact ⟨rfl, [], (List.append_nil _).symm, (List.append_nil _).symm⟩
  | dropped next hline idle others ih =>
    obtain rfl := eq_of_runLine_error hline
    obtain ⟨hsession, new, hnew, hnew'⟩ := ih first journal'
    rw [perform_trail_of_ok hline (by decide)]
    refine ⟨?_, new, by rw [hnew, idle], hnew'⟩
    rw [← hsession]
    cases (perform (trail site _ _) _).1 <;> simp [Except.map]
  | carried outcome next hline stays acts others ih =>
    obtain ⟨after', new, hline', hcalls, hcalls'⟩ := hboth hline first journal'
    rw [List.zipIdx_cons, perform_trail_of_ok hline stays, perform_trail_of_ok hline' stays]
    exact (ih (first + 1) after').cons hcalls hcalls'
  | ended next hline rest kept =>
    obtain ⟨after', new, hline', hcalls, hcalls'⟩ := hboth hline first journal'
    rw [List.zipIdx_cons, perform_trail_of_terminate hline, perform_trail_of_terminate hline']
    exact ⟨rfl, _, Journal.executions_of_calls hcalls, Journal.executions_of_calls hcalls'⟩
  | broken hline rest kept =>
    obtain ⟨after', new, hline', hcalls, hcalls'⟩ := hboth hline first journal'
    rw [List.zipIdx_cons, perform_trail_of_error hline, perform_trail_of_error hline']
    exact ⟨rfl, _, Journal.executions_of_calls hcalls, Journal.executions_of_calls hcalls'⟩

/-! ## What a script comes to -/

theorem perform_readLines (site : Site) (s : Session) (lines : List Text) (journal : Journal) :
    perform (s.readLines site lines) journal =
      ((perform (s.trail site (lines.zipIdx 1)) journal).1.map
        fun done => (if Succeeded done then 0 else 1, s.latest done),
        (perform (s.trail site (lines.zipIdx 1)) journal).2) := by
  rw [readLines_eq_trail, perform_map]

/-- What is left of a script executes the same commands and ends at the same place. -/
theorem Prunes.perform_readLines {script kept : List Text} (h : site.host.Forgets)
    (hkept : Prunes site s journal (script.zipIdx 1) kept) :
    (perform (s.readLines site script) journal).2.executions =
        (perform (s.readLines site kept) journal).2.executions ∧
      (perform (s.readLines site script) journal).1.map (·.2) =
        (perform (s.readLines site kept) journal).1.map (·.2) := by
  obtain ⟨hsession, new, hnew, hnew'⟩ := hkept.sameEffect h 1 journal
  have hmap (r : Except Breakdown (List (Outcome × Session))) :
      (r.map fun done => ((if Succeeded done then 0 else 1 : Nat), s.latest done)).map (·.2) =
        r.map s.latest := by
    cases r <;> rfl
  rw [Session.perform_readLines, Session.perform_readLines, hmap, hmap]
  exact ⟨hnew.trans hnew'.symm, hsession⟩

/-- The line that ends the session is the last of a script that is looked at. -/
theorem perform_readLines_append {lines : List Text} {done : List (Outcome × Session)}
    (h : perform (s.trail site (lines.zipIdx 1)) journal = (.ok done, after)) (ends : Ended done)
    (others : List Text) :
    perform (s.readLines site (lines ++ others)) journal =
      perform (s.readLines site lines) journal := by
  rw [perform_readLines, perform_readLines, List.zipIdx_append, trail_append, perform_bind_of_ok h,
    if_pos ends, h]
  rfl

/-- The exit code of a script and the session after it are read off its trail. -/
theorem exists_trail_of_readLines {script : List Text} {code : Nat} {last : Session}
    (h : perform (s.readLines site script) journal = (.ok (code, last), after)) :
    ∃ done, perform (s.trail site (script.zipIdx 1)) journal = (.ok done, after) ∧
      last = s.latest done ∧ (code = 0 ↔ Succeeded done) := by
  rw [perform_readLines] at h
  cases htrail : perform (s.trail site (script.zipIdx 1)) journal with
  | mk outcome after' =>
    rw [htrail] at h
    cases outcome with
    | error e => cases h
    | ok done =>
      cases h
      refine ⟨done, rfl, rfl, ?_⟩
      by_cases hdone : Succeeded done
      · simp [hdone]
      · simp [hdone]

/-- **Failed lines are isolated.** On a machine where the answer of a program depends on the call
only, the script without the lines that fail before they execute anything executes the same commands
and ends at the same place, or breaks down in the same way. What stands behind the line that ends
the session is not looked at. And the exit code is zero just where no line carried out has failed,
whether it could not be read or its outcome is a failure. -/
theorem readLines_isolates (site : Site) (h : site.host.Forgets) (s : Session)
    (script : List Text) (journal : Journal) :
    let run := perform (s.readLines site script) journal
    (∃ kept, Prunes site s journal (script.zipIdx 1) kept) ∧
    (∀ kept, Prunes site s journal (script.zipIdx 1) kept →
      let pruned := perform (s.readLines site kept) journal
      run.2.executions = pruned.2.executions ∧ run.1.map (·.2) = pruned.1.map (·.2)) ∧
    (∀ lines others done after, script = lines ++ others →
      perform (s.trail site (lines.zipIdx 1)) journal = (.ok done, after) → Ended done →
      run = perform (s.readLines site lines) journal) ∧
    ∀ code last after, run = (.ok (code, last), after) →
      ∃ done, perform (s.trail site (script.zipIdx 1)) journal = (.ok done, after) ∧
        last = s.latest done ∧ (code = 0 ↔ ∀ step ∈ done, step.1 ≠ .error) := by
  intro run
  refine ⟨exists_prunes site s journal _, ?_, ?_, ?_⟩
  · intro kept hkept
    exact hkept.perform_readLines h
  · rintro lines others done after rfl hdone ends
    exact perform_readLines_append hdone ends others
  · intro code last after hrun
    exact exists_trail_of_readLines hrun

/-- A script of a line that leads nowhere, one that executes a command, one that ends open, one that
asks the command and leaves it open what is meant, one that ends the session, and one behind it. -/
def failingScript : List Text :=
  ["zz\n", "ping co=3 host=x\n", "ping \"\n", "ping ''\n", "exit\n", "ping\n"]

theorem prunes_failingScript :
    Prunes answering {} {} (failingScript.zipIdx 1) ["ping co=3 host=x\n", "exit\n"] := by
  refine .drop {} (by decide +kernel) (by decide +kernel) ?_
  refine .keep {} (by decide +kernel) ?_
  refine .drop {} (by decide +kernel) (by decide +kernel) ?_
  refine .drop {} (by decide +kernel) (by decide +kernel) ?_
  exact .finish {} (by decide +kernel)

/-- Four of the six lines can be left out: one command is executed all the same, though fewer are
asked. -/
theorem readLines_answering_isolates :
    answering.host.Forgets ∧
    let run := perform (readLines answering {} failingScript) {}
    let pruned := perform (readLines answering {} ["ping co=3 host=x\n", "exit\n"]) {}
    run.2.executions = pruned.2.executions ∧ run.1.map (·.2) = pruned.1.map (·.2) ∧
      run.2.executions.map (·.arguments) =
        ([["--", "count", "3", "host", "x"]] : List (List Text)) ∧
      run.2.calls.length = 4 ∧ pruned.2.calls.length = 3 := by
  have hforgets : answering.host.Forgets := fun _ _ => rfl
  obtain ⟨-, hpruned, -⟩ := readLines_isolates answering hforgets {} failingScript {}
  obtain ⟨hexecutions, hsession⟩ := hpruned _ prunes_failingScript
  exact ⟨hforgets, hexecutions, hsession, by decide +kernel, by decide +kernel, by decide +kernel⟩

end Session

end ConfigShell
