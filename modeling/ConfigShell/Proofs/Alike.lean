import ConfigShell.Proofs.Effects
/-!
# Actions that do alike

Two actions are alike if they start the same programs and come to values that are related
(`Shell.Alike`), begun at any times before which the same programs have been started. What has been
written to the output streams by then makes no difference, and what the two write may differ. There
is a rule for each way actions are put together and for each basic action, as for what one action
does alone.
-/

namespace ConfigShell

/-- Both are values that are related, or both are errors. -/
inductive OnBoth {α α' ε ε' : Type} (R : α → α' → Prop) : Except ε α → Except ε' α' → Prop
  | ok {a : α} {a' : α'} (related : R a a') : OnBoth R (.ok a) (.ok a')
  | error (e : ε) (e' : ε') : OnBoth R (.error e) (.error e')

namespace Shell

variable {α α' β β' : Type} {R R' : α → α' → Prop} {S : β → β' → Prop}

/-- What comes of two actions: values that are related, or the same breakdown. -/
inductive Meets (R : α → α' → Prop) : Except Breakdown α → Except Breakdown α' → Prop
  | ok {a : α} {a' : α'} (related : R a a') : Meets R (.ok a) (.ok a')
  | error (e : Breakdown) : Meets R (.error e) (.error e)

/-- After the same calls, the actions make the same calls and come to values that are related. -/
def Alike (R : α → α' → Prop) (act : Shell α) (act' : Shell α') : Prop :=
  ∀ journal journal', journal.calls = journal'.calls →
    (perform act journal).2.calls = (perform act' journal').2.calls ∧
      Meets R (perform act journal).1 (perform act' journal').1

theorem Meets.eq {r r' : Except Breakdown α} (h : Meets (· = ·) r r') : r = r' := by
  cases h with
  | ok related => rw [related]
  | error e => rfl

theorem Meets.imp {r : Except Breakdown α} {r' : Except Breakdown α'} (h : Meets R r r')
    (himp : ∀ a a', R a a' → R' a a') : Meets R' r r' := by
  cases h with
  | ok related => exact .ok (himp _ _ related)
  | error e => exact .error e

theorem Meets.map_eq {r : Except Breakdown α} {r' : Except Breakdown α'} (h : Meets R r r')
    {f : α → β} {f' : α' → β} (hf : ∀ a a', R a a' → f a = f' a') : r.map f = r'.map f' := by
  cases h with
  | ok related => exact congrArg Except.ok (hf _ _ related)
  | error e => rfl

/-! ## Actions put together -/

theorem alike_pure {a : α} {a' : α'} (h : R a a') : Alike R (pure a) (pure a') :=
  fun _ _ hcalls => ⟨hcalls, .ok h⟩

theorem alike_throw (e : Breakdown) : Alike R (throw e) (throw e) :=
  fun _ _ hcalls => ⟨hcalls, .error e⟩

/-- **One action after another.** -/
theorem Alike.bind {act : Shell α} {act' : Shell α'} {f : α → Shell β} {f' : α' → Shell β'}
    (h : Alike R act act') (hf : ∀ a a', R a a' → Alike S (f a) (f' a')) :
    Alike S (act >>= f) (act' >>= f') := by
  intro journal journal' hcalls
  obtain ⟨hsame, hmeets⟩ := h journal journal' hcalls
  rw [perform_bind, perform_bind]
  cases hact : perform act journal with
  | mk outcome after =>
    cases hact' : perform act' journal' with
    | mk outcome' after' =>
      rw [hact, hact'] at hsame hmeets
      cases hmeets with
      | ok related => exact hf _ _ related after after' hsame
      | error e => exact ⟨hsame, .error e⟩ -- neither second action is reached

theorem Alike.map {act : Shell α} {act' : Shell α'} {f : α → β} {f' : α' → β'}
    (h : Alike R act act') (hf : ∀ a a', R a a' → S (f a) (f' a')) :
    Alike S (f <$> act) (f' <$> act') := by
  rw [← bind_pure_comp, ← bind_pure_comp]
  exact h.bind fun a a' related => alike_pure (hf a a' related)

theorem Alike.imp {act : Shell α} {act' : Shell α'} (h : Alike R act act')
    (himp : ∀ a a', R a a' → R' a a') : Alike R' act act' := by
  intro journal journal' hcalls
  obtain ⟨hsame, hmeets⟩ := h journal journal' hcalls
  exact ⟨hsame, hmeets.imp himp⟩

/-! ## Basic actions -/

/-- A quiet action is alike to itself. -/
theorem IsQuiet.alike {act : Shell α} (h : IsQuiet act) : Alike (· = ·) act act := by
  obtain ⟨outcome, hact⟩ := h
  intro journal journal' hcalls
  rw [hact, hact]
  cases outcome with
  | ok a => exact ⟨hcalls, .ok rfl⟩
  | error e => exact ⟨hcalls, .error e⟩

/-- Whatever is written, nothing else is done. -/
theorem alike_print (t t' : Text) : Alike (fun _ _ => True) (print t) (print t') :=
  fun _ _ hcalls => ⟨hcalls, .ok trivial⟩

theorem alike_printError (t t' : Text) : Alike (fun _ _ => True) (printError t) (printError t') :=
  fun _ _ hcalls => ⟨hcalls, .ok trivial⟩

/-- **A program answers alike** after the same calls. -/
theorem alike_start (host : Host) (call : Call) :
    Alike (· = ·) (host.start call) (host.start call) := by
  intro journal journal' hcalls
  rw [perform_start, perform_start, hcalls]
  split
  · split
    · exact ⟨hcalls, .ok rfl⟩
    · exact ⟨rfl, .ok rfl⟩
  · exact ⟨hcalls, .ok rfl⟩

theorem alike_launch (host : Host) (environment : List (Text × Text)) (sysconf : Path)
    (file : Text) (arguments : List Text) :
    Alike (· = ·) (host.launch environment sysconf file arguments)
      (host.launch environment sysconf file arguments) := by
  rw [Host.launch]
  refine (isQuiet_require sysconf).alike.bind ?_
  rintro _ _ rfl
  split
  · exact alike_pure rfl
  · exact alike_pure rfl
  · refine (alike_start host _).bind ?_
    rintro reply _ rfl
    split <;> exact alike_pure rfl

end Shell

end ConfigShell
