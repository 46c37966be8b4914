import ConfigShell.Proofs.Session.Diagnosis
/-!
# The trail of a script

The lines of a script are carried out one after another until one ends the session. The trail of
the script keeps, for each line carried out, its outcome and the session after it. The exit code
and the last session can be read off the trail (`Session.readLines_eq_trail`), and the trail of two
scripts one after the other is that of the first, followed by that of the second unless the first
has ended the session (`Session.trail_append`).
-/

namespace ConfigShell.Session

variable {site : Site}

/-- The outcomes of numbered lines and the sessions after them, up to the first line that ends the
session. -/
def trail (site : Site) (s : Session) : List (Text × Nat) → Shell (List (Outcome × Session))
  | [] => pure []
  | (text, number) :: rest => do
    let done ← s.runLine site text number
    if done.1 = .terminate then return [done]
    return done :: (← trail site done.2 rest)

/-- The session after what has been done. -/
def latest (s : Session) (done : List (Outcome × Session)) : Session :=
  (done.getLast?.map (·.2)).getD s

/-- No line has failed. -/
def Succeeded (done : List (Outcome × Session)) : Prop := ∀ step ∈ done, step.1 ≠ .error

instance (done : List (Outcome × Session)) : Decidable (Succeeded done) :=
  inferInstanceAs (Decidable (∀ step ∈ done, step.1 ≠ .error))

/-- The session has been ended. -/
def Ended (done : List (Outcome × Session)) : Prop := ∃ step ∈ done, step.1 = .terminate

instance (done : List (Outcome × Session)) : Decidable (Ended done) :=
  inferInstanceAs (Decidable (∃ step ∈ done, step.1 = .terminate))

@[simp]
theorem latest_nil (s : Session) : s.latest [] = s := rfl

@[simp]
theorem latest_cons (s : Session) (step : Outcome × Session) (rest : List (Outcome × Session)) :
    s.latest (step :: rest) = step.2.latest rest := by
  cases rest <;> simp [latest, List.getLast?_cons]

@[simp]
theorem succeeded_nil : Succeeded [] := by simp [Succeeded]

@[simp]
theorem succeeded_cons_iff {step : Outcome × Session} {rest : List (Outcome × Session)} :
    Succeeded (step :: rest) ↔ step.1 ≠ .error ∧ Succeeded rest := by simp [Succeeded]

@[simp]
theorem not_ended_nil : ¬ Ended [] := by simp [Ended]

@[simp]
theorem ended_cons_iff {step : Outcome × Session} {rest : List (Outcome × Session)} :
    Ended (step :: rest) ↔ step.1 = .terminate ∨ Ended rest := by simp [Ended]

/-! ## What running a script comes to -/

/-- What is left to do when a line has ended the session is nothing. -/
def unlessEnded (done : List (Outcome × Session)) (atEnd : Shell Unit) : Shell Unit :=
  if Ended done then pure () else atEnd

theorem runLines_eq_trail (s : Session) (lines : List (Text × Nat)) (atEnd : Shell Unit) :
    s.runLines site lines atEnd = do
      let done ← s.trail site lines
      unlessEnded done atEnd
      return (decide (Succeeded done), s.latest done) := by
  induction lines generalizing s with
  | nil => simp [runLines, trail, unlessEnded]
  | cons line rest ih =>
    obtain ⟨text, number⟩ := line
    rw [runLines_cons, trail, bind_assoc]
    refine bind_congr fun done => ?_
    obtain ⟨outcome, next⟩ := done
    cases outcome with
    | terminate => simp [unlessEnded]
    | error => simp [ih, unlessEnded]
    | goOn => simp [ih, unlessEnded]

/-- The exit code and the last session can be read off the trail, and `atEnd` is done unless a line
has ended the session. -/
theorem readLines_then_eq_trail (s : Session) (lines : List Text) (atEnd : Shell Unit) :
    s.readLines site lines atEnd = do
      let done ← s.trail site (lines.zipIdx 1)
      unlessEnded done atEnd
      return (if Succeeded done then 0 else 1, s.latest done) := by
  rw [readLines, runLines_eq_trail]
  simp

/-- **The exit code tells whether a line failed**, and the session is left where the last line left
it. -/
theorem readLines_eq_trail (s : Session) (lines : List Text) :
    s.readLines site lines =
      (fun done => (if Succeeded done then 0 else 1, s.latest done)) <$>
        s.trail site (lines.zipIdx 1) := by
  simp [readLines_then_eq_trail, unlessEnded]

/-- **Nothing is carried out after the line that ends the session.** -/
theorem trail_append (s : Session) (lines others : List (Text × Nat)) :
    s.trail site (lines ++ others) = do
      let done ← s.trail site lines
      if Ended done then return done
      return done ++ (← (s.latest done).trail site others) := by
  induction lines generalizing s with
  | nil => simp [trail]
  | cons line rest ih =>
    obtain ⟨text, number⟩ := line
    rw [List.cons_append, trail, trail, bind_assoc]
    refine bind_congr fun done => ?_
    by_cases hends : done.1 = .terminate
    · simp [hends]
    · simp only [hends, if_false, ih, bind_assoc, pure_bind]
      refine bind_congr fun more => ?_
      by_cases hmore : Ended more
      · simp [hmore]
      · simp [hmore, hends]

end ConfigShell.Session
