import ConfigShell.Proofs.Effects
/-!
# Actions that write nothing to the error stream

Asking a command is starting a program, but nothing of its reply is passed on: an action can start
programs and still leave the error stream as it is (`Shell.Mute`). There is a rule for each way
actions are put together and for starting a program.
-/

namespace ConfigShell.Shell

variable {α β : Type}

/-- The action leaves the error stream as it is, however it ends. -/
def Mute (act : Shell α) : Prop := ∀ journal, (perform act journal).2.err = journal.err

theorem IsQuiet.mute {act : Shell α} (h : IsQuiet act) : Mute act := by
  obtain ⟨outcome, hact⟩ := h
  intro journal
  rw [hact]

theorem mute_pure (a : α) : Mute (pure a : Shell α) := (isQuiet_pure a).mute

theorem mute_throw (e : Breakdown) : Mute (throw e : Shell α) := (isQuiet_throw e).mute

theorem Mute.bind {act : Shell α} {f : α → Shell β} (h : Mute act) (hf : ∀ a, Mute (f a)) :
    Mute (act >>= f) := by
  intro journal
  have herr := h journal
  rw [perform_bind]
  cases hact : perform act journal with
  | mk outcome after =>
    rw [hact] at herr
    cases outcome with
    | error e => exact herr
    | ok a => exact (hf a after).trans herr

/-- What comes after and writes nothing makes no difference. -/
theorem err_bind_of_mute (act : Shell α) {f : α → Shell β} (hf : ∀ a, Mute (f a))
    (journal : Journal) :
    (perform (act >>= f) journal).2.err = (perform act journal).2.err := by
  rw [perform_bind]
  cases perform act journal with
  | mk outcome after =>
    cases outcome with
    | error e => rfl
    | ok a => exact hf a after

theorem Mute.map {act : Shell α} (h : Mute act) (f : α → β) : Mute (f <$> act) := by
  rw [← bind_pure_comp]
  exact h.bind fun a => mute_pure (f a)

theorem mute_start (host : Host) (call : Call) : Mute (host.start call) := by
  intro journal
  rw [perform_start]
  split
  · split <;> rfl
  · rfl

/-- Starting a program writes nothing: what it has to say is in its reply. -/
theorem mute_launch (host : Host) (environment : List (Text × Text)) (sysconf : Path)
    (file : Text) (arguments : List Text) :
    Mute (host.launch environment sysconf file arguments) := by
  rw [Host.launch]
  refine (isQuiet_require sysconf).mute.bind fun _ => ?_
  split
  · exact mute_pure _
  · exact mute_pure _
  · refine (mute_start host _).bind fun reply => ?_
    split <;> exact mute_pure _

end ConfigShell.Shell
