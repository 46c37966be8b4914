import ConfigShell.Proofs.Effects
/-!
# Actions that do the same at any time

What a program answers may depend on the programs started before it. On a machine where it does not
(`Host.Forgets`), an action comes to the same thing and makes the same calls whatever has been done
before (`Shell.Steady`). There is a rule for each way actions are put together and for each basic
action.
-/

namespace ConfigShell

/-- The answer of a program depends on the call only. -/
def Host.Forgets (host : Host) : Prop :=
  ∀ calls call, host.reply calls call = host.reply [] call

namespace Shell

variable {α β : Type} {host : Host}

/-- Whatever has been done before, the action comes to the same and makes the same calls. -/
def Steady (act : Shell α) : Prop :=
  ∃ outcome new, ∀ journal, (perform act journal).1 = outcome ∧
    (perform act journal).2.calls = journal.calls ++ new

/-! ## Actions put together -/

theorem IsQuiet.steady {act : Shell α} (h : IsQuiet act) : Steady act := by
  obtain ⟨outcome, hact⟩ := h
  refine ⟨outcome, [], fun journal => ?_⟩
  rw [hact]
  exact ⟨rfl, (List.append_nil _).symm⟩

theorem steady_pure (a : α) : Steady (pure a : Shell α) := (isQuiet_pure a).steady

theorem steady_throw (e : Breakdown) : Steady (throw e : Shell α) := (isQuiet_throw e).steady

/-- **One action after another.** -/
theorem Steady.bind {act : Shell α} {f : α → Shell β} (h : Steady act)
    (hf : ∀ a, Steady (f a)) : Steady (act >>= f) := by
  obtain ⟨outcome, new, hact⟩ := h
  cases outcome with
  | error e =>
    refine ⟨.error e, new, fun journal => ?_⟩
    obtain ⟨houtcome, hcalls⟩ := hact journal
    rw [perform_bind_of_error (Prod.ext houtcome rfl)]
    exact ⟨rfl, hcalls⟩
  | ok a =>
    obtain ⟨outcome', new', hnext⟩ := hf a
    refine ⟨outcome', new ++ new', fun journal => ?_⟩
    obtain ⟨houtcome, hcalls⟩ := hact journal
    obtain ⟨houtcome', hcalls'⟩ := hnext (perform act journal).2
    rw [perform_bind_of_ok (Prod.ext houtcome rfl)]
    exact ⟨houtcome', by rw [hcalls', hcalls, List.append_assoc]⟩

theorem Steady.map {act : Shell α} (h : Steady act) (f : α → β) : Steady (f <$> act) := by
  rw [← bind_pure_comp]
  exact h.bind fun a => steady_pure (f a)

/-! ## Basic actions -/

theorem steady_print (t : Text) : Steady (print t) :=
  ⟨.ok (), [], fun _ => ⟨rfl, (List.append_nil _).symm⟩⟩

theorem steady_printError (t : Text) : Steady (printError t) :=
  ⟨.ok (), [], fun _ => ⟨rfl, (List.append_nil _).symm⟩⟩

/-- **Starting a program** on a machine that forgets. -/
theorem steady_start (h : host.Forgets) (call : Call) : Steady (host.start call) := by
  cases hpassable : call.isPassable with
  | false =>
    refine ⟨.ok (.error .zeroByte), [], fun journal => ?_⟩
    rw [perform_start, hpassable]
    exact ⟨rfl, (List.append_nil _).symm⟩
  | true =>
    cases hreply : host.reply [] call with
    | error reason =>
      refine ⟨.ok (.error (.refused reason)), [], fun journal => ?_⟩
      rw [perform_start, hpassable, h, hreply]
      exact ⟨rfl, (List.append_nil _).symm⟩
    | ok reply =>
      refine ⟨.ok (.ok reply), [call], fun journal => ?_⟩
      rw [perform_start, hpassable, h, hreply]
      exact ⟨rfl, rfl⟩

theorem steady_launch (h : host.Forgets) (environment : List (Text × Text)) (sysconf : Path)
    (file : Text) (arguments : List Text) :
    Steady (host.launch environment sysconf file arguments) := by
  rw [Host.launch]
  refine (isQuiet_require sysconf).steady.bind fun _ => ?_
  split
  · exact steady_pure _
  · exact steady_pure _
  · refine (steady_start h _).bind fun reply => ?_
    split <;> exact steady_pure _

end Shell

end ConfigShell
