import ConfigShell.Proofs.Effects
/-!
# Actions that do not break down without reason

An action may break down, at a path with a zero byte or because a stream is strict. `Shell.Ends flaw
act` says that `act` breaks down only in a way that `flaw` admits, and otherwise comes to a value,
whatever has been done before. There is a rule for each way actions are put together and for each
basic action.
-/

namespace ConfigShell.Shell

variable {α β : Type} {Q : α → Prop} {flaw : Breakdown → Prop}

/-- Whatever has been done before, the action comes to a value, or it breaks down as `flaw`
admits. -/
def Ends (flaw : Breakdown → Prop) (act : Shell α) : Prop :=
  ∀ journal, (∃ a, (perform act journal).1 = .ok a) ∨
    ∃ b, (perform act journal).1 = .error b ∧ flaw b

/-! ## Actions put together -/

theorem ends_pure (a : α) : Ends flaw (pure a : Shell α) := fun _ => .inl ⟨a, rfl⟩

theorem ends_throw {b : Breakdown} (h : flaw b) : Ends flaw (throw b : Shell α) :=
  fun _ => .inr ⟨b, rfl, h⟩

/-- **One action after another**, which has to end only for what the first can come to. -/
theorem Ends.bind {act : Shell α} {f : α → Shell β} (h : Ends flaw act) (hQ : ComesTo Q act)
    (hf : ∀ a, Q a → Ends flaw (f a)) : Ends flaw (act >>= f) := by
  intro journal
  rcases h journal with ⟨a, ha⟩ | ⟨b, hb, hflaw⟩
  · have hnext := hf a (hQ journal a ha) (perform act journal).2
    rw [perform_bind_of_ok (Prod.ext ha rfl)]
    exact hnext
  · rw [perform_bind_of_error (Prod.ext hb rfl)]
    exact .inr ⟨b, rfl, hflaw⟩

/-- One action after another that ends in any case. -/
theorem Ends.next {act : Shell α} {f : α → Shell β} (h : Ends flaw act)
    (hf : ∀ a, Ends flaw (f a)) : Ends flaw (act >>= f) :=
  h.bind (comesTo_true act) fun a _ => hf a

theorem Ends.map {act : Shell α} (h : Ends flaw act) (f : α → β) : Ends flaw (f <$> act) := by
  rw [← bind_pure_comp]
  exact h.next fun a => ends_pure (f a)

/-! ## Basic actions -/

theorem ends_print (t : Text) : Ends flaw (print t) := fun _ => .inl ⟨(), rfl⟩

theorem ends_printError (t : Text) : Ends flaw (printError t) := fun _ => .inl ⟨(), rfl⟩

theorem ends_require {p : Path} (h : p.isPassable = true ∨ flaw .zeroByte) : Ends flaw (require p) := by
  rw [require]
  split
  · exact ends_pure ()
  · rename_i hp
    exact ends_throw (h.resolve_left hp)

theorem ends_start (host : Host) (call : Call) : Ends flaw (host.start call) := by
  intro journal
  rw [perform_start]
  split
  · split <;> exact .inl ⟨_, rfl⟩
  · exact .inl ⟨_, rfl⟩

/-- **Running a command** breaks down at its directory only; its words may have zero bytes. -/
theorem ends_launch (host : Host) (environment : List (Text × Text)) {sysconf : Path}
    (h : sysconf.isPassable = true ∨ flaw .zeroByte) (file : Text) (arguments : List Text) :
    Ends flaw (host.launch environment sysconf file arguments) := by
  rw [Host.launch]
  refine (ends_require h).next fun _ => ?_
  split
  · exact ends_pure _
  · exact ends_pure _
  · refine (ends_start host _).next fun reply => ?_
    split <;> exact ends_pure _

end ConfigShell.Shell
