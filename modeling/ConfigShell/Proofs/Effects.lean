import ConfigShell.Host.Launch
/-!
# What an action does

`Shell.Does P Q act` says of an action that it starts only programs that satisfy `P`, whatever
has been done before and however it ends, and that it comes to a value only if this satisfies
`Q`. One rule for each way actions are put together, and one for each basic action, let the
statement follow a program as it is written. An action that only looks at the machine is quiet
(`Shell.IsQuiet`): it leaves the journal alone and does not depend on it.
-/

namespace ConfigShell.Shell

variable {α β : Type} {P : Call → Prop} {Q : α → Prop} {R : β → Prop}

/-- The action starts only programs that satisfy `P`, and takes back no call made before. -/
def StartsOnly (P : Call → Prop) (act : Shell α) : Prop :=
  ∀ journal, ∃ new, (perform act journal).2.calls = journal.calls ++ new ∧ ∀ c ∈ new, P c

/-- What the action comes to satisfies `Q`, unless it breaks down. -/
def ComesTo (Q : α → Prop) (act : Shell α) : Prop :=
  ∀ journal a, (perform act journal).1 = .ok a → Q a

/-- The action starts only programs that satisfy `P` and comes to values that satisfy `Q`. -/
structure Does (P : Call → Prop) (Q : α → Prop) (act : Shell α) : Prop where
  starts : StartsOnly P act
  comesTo : ComesTo Q act

/-- What is no error satisfies `Q`. -/
def OnSuccess {ε : Type} (Q : α → Prop) (r : Except ε α) : Prop := ∀ a, r = .ok a → Q a

theorem onSuccess_ok {ε : Type} {a : α} (h : Q a) : OnSuccess Q (.ok a : Except ε α) := by
  intro b hb
  cases hb
  exact h

theorem onSuccess_error {ε : Type} (e : ε) : OnSuccess Q (.error e) := by
  intro b hb
  cases hb

/-! ## Actions put together -/

theorem perform_bind (act : Shell α) (f : α → Shell β) (journal : Journal) :
    perform (act >>= f) journal = match perform act journal with
      | (.ok a, journal') => perform (f a) journal'
      | (.error e, journal') => (.error e, journal') := by
  show (ExceptT.bindCont f (perform act journal).1).run (perform act journal).2 = _
  cases perform act journal with
  | mk outcome journal' => cases outcome <;> rfl

theorem perform_pure (a : α) (journal : Journal) :
    perform (pure a) journal = (.ok a, journal) := rfl

theorem perform_bind_of_ok {act : Shell α} {journal journal' : Journal} {a : α}
    (h : perform act journal = (.ok a, journal')) (f : α → Shell β) :
    perform (act >>= f) journal = perform (f a) journal' := by
  rw [perform_bind, h]

theorem perform_bind_of_error {act : Shell α} {journal journal' : Journal} {e : Breakdown}
    (h : perform act journal = (.error e, journal')) (f : α → Shell β) :
    perform (act >>= f) journal = (.error e, journal') := by
  rw [perform_bind, h]

/-- Two actions come to a value only if the first does and the second goes on from there. -/
theorem perform_bind_eq_ok_iff {act : Shell α} {f : α → Shell β} {journal journal'' : Journal}
    {b : β} :
    perform (act >>= f) journal = (.ok b, journal'') ↔
      ∃ a journal', perform act journal = (.ok a, journal') ∧
        perform (f a) journal' = (.ok b, journal'') := by
  constructor
  · intro h
    rw [perform_bind] at h
    cases hact : perform act journal with
    | mk outcome journal' =>
      rw [hact] at h
      cases outcome with
      | error e => cases h
      | ok a => exact ⟨a, journal', rfl, h⟩
  · rintro ⟨a, journal', hact, hf⟩
    rw [perform_bind_of_ok hact, hf]

theorem perform_map (act : Shell α) (f : α → β) (journal : Journal) :
    perform (f <$> act) journal = ((perform act journal).1.map f, (perform act journal).2) := by
  rw [← bind_pure_comp, perform_bind]
  cases perform act journal with
  | mk outcome journal' => cases outcome <;> rfl

/-! ## What actions come to -/

theorem toOption_eq_some_iff {ε : Type} {r : Except ε α} {a : α} :
    r.toOption = some a ↔ r = .ok a := by
  cases r <;> simp [Except.toOption]

/-- What an action comes to that may be refused, unless it is or breaks down. -/
def value? {ε : Type} (act : Shell (Except ε α)) (journal : Journal) : Option α :=
  (perform act journal).1.toOption.bind Except.toOption

theorem value?_eq_some_iff {ε : Type} {act : Shell (Except ε α)} {journal : Journal} {a : α} :
    value? act journal = some a ↔ ∃ journal', perform act journal = (.ok (.ok a), journal') := by
  simp only [value?, Option.bind_eq_some_iff, toOption_eq_some_iff]
  constructor
  · rintro ⟨r, hr, rfl⟩
    exact ⟨_, Prod.ext hr rfl⟩
  · rintro ⟨journal', h⟩
    exact ⟨.ok a, by rw [h], rfl⟩

theorem comesTo_true (act : Shell α) : ComesTo (fun _ => True) act := fun _ _ _ => trivial

theorem comesTo_pure {a : α} (h : Q a) : ComesTo Q (pure a : Shell α) := by
  intro journal b hb
  cases hb
  exact h

theorem comesTo_throw (e : Breakdown) : ComesTo Q (throw e : Shell α) := by
  intro journal b hb
  cases hb

theorem ComesTo.bind {act : Shell α} {f : α → Shell β} (h : ComesTo Q act)
    (hf : ∀ a, Q a → ComesTo R (f a)) : ComesTo R (act >>= f) := by
  intro journal b hb
  obtain ⟨a, journal', hact, hb⟩ := perform_bind_eq_ok_iff.mp (Prod.ext hb rfl)
  exact hf a (h journal a (by rw [hact])) journal' b (by rw [hb])

theorem ComesTo.map {act : Shell α} {f : α → β} (h : ComesTo Q act) (hf : ∀ a, Q a → R (f a)) :
    ComesTo R (f <$> act) := by
  rw [← bind_pure_comp]
  exact h.bind fun a ha => comesTo_pure (hf a ha)

/-- What is done after an action matters only for what the action can come to. -/
theorem ComesTo.bind_congr {act : Shell α} {f g : α → Shell β} (h : ComesTo Q act)
    (hfg : ∀ a, Q a → f a = g a) : act >>= f = act >>= g := by
  funext journal
  show perform (act >>= f) journal = perform (act >>= g) journal
  rw [perform_bind, perform_bind]
  cases hact : perform act journal with
  | mk outcome journal' =>
    cases outcome with
    | error e => rfl
    | ok a =>
      have hQ : Q a := h journal a (by rw [hact])
      dsimp only
      rw [hfg a hQ]

/-! ## What actions do -/

/-- An action that starts nothing and comes to a value known beforehand. -/
theorem does_pure {a : α} (h : Q a) : Does P Q (pure a : Shell α) :=
  ⟨fun _ => ⟨[], (List.append_nil _).symm, by simp⟩, comesTo_pure h⟩

theorem does_throw (e : Breakdown) : Does P Q (throw e : Shell α) :=
  ⟨fun _ => ⟨[], (List.append_nil _).symm, by simp⟩, comesTo_throw e⟩

/-- **One action after another.** -/
theorem Does.bind {act : Shell α} {f : α → Shell β} (h : Does P Q act)
    (hf : ∀ a, Q a → Does P R (f a)) : Does P R (act >>= f) := by
  refine ⟨fun journal => ?_, h.comesTo.bind fun a ha => (hf a ha).comesTo⟩
  obtain ⟨new, hcalls, hnew⟩ := h.starts journal
  rw [perform_bind]
  cases hact : perform act journal with
  | mk outcome journal' =>
    rw [hact] at hcalls
    cases outcome with
    | error e => exact ⟨new, hcalls, hnew⟩ -- the second action is not reached
    | ok a =>
      obtain ⟨new', hcalls', hnew'⟩ := (hf a (h.comesTo journal a (by rw [hact]))).starts journal'
      refine ⟨new ++ new', by rw [hcalls', hcalls, List.append_assoc], ?_⟩
      intro c hc
      rcases List.mem_append.mp hc with hc | hc
      · exact hnew c hc
      · exact hnew' c hc

theorem Does.map {act : Shell α} {f : α → β} (h : Does P Q act) (hf : ∀ a, Q a → R (f a)) :
    Does P R (f <$> act) := by
  rw [← bind_pure_comp]
  exact h.bind fun a ha => does_pure (hf a ha)

/-! ## Basic actions -/

theorem does_require (p : Path) : Does P (fun _ => p.isPassable = true) (require p) := by
  rw [require]
  split
  · rename_i h
    exact does_pure h
  · exact does_throw _

theorem does_print (t : Text) : Does P (fun _ => True) (print t) :=
  ⟨fun journal => ⟨[], (List.append_nil _).symm, by simp⟩, fun _ _ _ => trivial⟩

theorem does_printError (t : Text) : Does P (fun _ => True) (printError t) :=
  ⟨fun journal => ⟨[], (List.append_nil _).symm, by simp⟩, fun _ _ _ => trivial⟩

theorem perform_start (host : Host) (call : Call) (journal : Journal) :
    perform (host.start call) journal =
      if call.isPassable then
        match host.reply journal.calls call with
        | .error reason => (.ok (.error (.refused reason)), journal)
        | .ok reply => (.ok (.ok reply), { journal with calls := journal.calls ++ [call] })
      else (.ok (.error .zeroByte), journal) := by
  rw [Host.start]
  cases call.isPassable with
  | false => rfl
  | true =>
    show perform (get >>= _) journal = _
    rw [perform_bind]
    show perform (match host.reply journal.calls call with | .error _ => _ | .ok _ => _) journal = _
    cases host.reply journal.calls call <;> rfl

/-- **Starting a program** makes no call but this one. -/
theorem does_start (host : Host) {call : Call} (h : P call) :
    Does P (fun _ => True) (host.start call) := by
  refine ⟨fun journal => ?_, fun _ _ _ => trivial⟩
  rw [perform_start]
  split
  · split
    · exact ⟨[], (List.append_nil _).symm, by simp⟩
    · exact ⟨[call], rfl, by simpa using h⟩
  · exact ⟨[], (List.append_nil _).symm, by simp⟩

theorem does_launch (host : Host) {environment : List (Text × Text)} {sysconf : Path}
    {file : Text} {arguments : List Text}
    (h : P ⟨file, arguments, sysconf.toText, environment⟩) :
    Does P (fun _ => True) (host.launch environment sysconf file arguments) := by
  rw [Host.launch]
  refine (does_require sysconf).bind fun _ _ => ?_
  split
  · exact does_pure trivial
  · exact does_pure trivial
  · refine (does_start host h).bind fun reply _ => ?_
    split <;> exact does_pure trivial

/-! ## Quiet actions -/

/-- The action leaves the journal as it is, and what comes of it does not depend on what has been
done before. -/
def IsQuiet (act : Shell α) : Prop := ∃ outcome, ∀ journal, perform act journal = (outcome, journal)

theorem isQuiet_pure (a : α) : IsQuiet (pure a : Shell α) := ⟨.ok a, fun _ => rfl⟩

theorem isQuiet_throw (e : Breakdown) : IsQuiet (throw e : Shell α) := ⟨.error e, fun _ => rfl⟩

theorem isQuiet_require (p : Path) : IsQuiet (require p) := by
  rw [require]
  split
  · exact isQuiet_pure ()
  · exact isQuiet_throw _

theorem IsQuiet.bind {act : Shell α} {f : α → Shell β} (h : IsQuiet act)
    (hf : ∀ a, IsQuiet (f a)) : IsQuiet (act >>= f) := by
  obtain ⟨outcome, hact⟩ := h
  cases outcome with
  | error e => exact ⟨.error e, fun journal => perform_bind_of_error (hact journal) f⟩
  | ok a =>
    obtain ⟨outcome, hf⟩ := hf a
    exact ⟨outcome, fun journal => by rw [perform_bind_of_ok (hact journal), hf]⟩

theorem IsQuiet.map {act : Shell α} (h : IsQuiet act) (f : α → β) : IsQuiet (f <$> act) := by
  rw [← bind_pure_comp]
  exact h.bind fun a => isQuiet_pure (f a)

/-- What comes of a quiet action at one time comes of it at any time. -/
theorem IsQuiet.perform_eq {act : Shell α} (h : IsQuiet act) (journal journal' : Journal) :
    perform act journal = ((perform act journal').1, journal) := by
  obtain ⟨outcome, hact⟩ := h
  rw [hact, hact]

theorem IsQuiet.journal_eq {act : Shell α} (h : IsQuiet act) {journal journal' : Journal}
    {outcome : Except Breakdown α} (hact : perform act journal = (outcome, journal')) :
    journal' = journal := by
  rw [h.perform_eq journal journal] at hact
  exact (congrArg Prod.snd hact).symm

/-! ## Starting nothing, or one program at most -/

/-- The action starts no program, whatever else it does. -/
def StartsNothing (act : Shell α) : Prop :=
  ∀ journal, (perform act journal).2.calls = journal.calls

/-- The action makes the call, or none at all. -/
def StartsOnce (call : Call) (act : Shell α) : Prop := ∀ journal,
  (perform act journal).2.calls = journal.calls ∨
    (perform act journal).2.calls = journal.calls ++ [call]

variable {call : Call}

theorem IsQuiet.startsNothing {act : Shell α} (h : IsQuiet act) : StartsNothing act :=
  fun journal => by rw [h.perform_eq journal journal]

theorem startsNothing_print (t : Text) : StartsNothing (print t) := fun _ => rfl

theorem startsNothing_printError (t : Text) : StartsNothing (printError t) := fun _ => rfl

theorem StartsNothing.bind {act : Shell α} {f : α → Shell β} (h : StartsNothing act)
    (hf : ∀ a, StartsNothing (f a)) : StartsNothing (act >>= f) := by
  intro journal
  specialize h journal
  rw [perform_bind]
  cases hact : perform act journal with
  | mk outcome journal' =>
    rw [hact] at h
    cases outcome with
    | error e => exact h
    | ok a => exact (hf a journal').trans h

theorem StartsNothing.startsOnce {act : Shell α} (h : StartsNothing act) : StartsOnce call act :=
  fun journal => .inl (h journal)

/-- Nothing before the one program. -/
theorem StartsNothing.bind_startsOnce {act : Shell α} {f : α → Shell β} (h : StartsNothing act)
    (hf : ∀ a, StartsOnce call (f a)) : StartsOnce call (act >>= f) := by
  intro journal
  specialize h journal
  rw [perform_bind]
  cases hact : perform act journal with
  | mk outcome journal' =>
    rw [hact] at h
    cases outcome with
    | error e => exact .inl h
    | ok a => exact h ▸ hf a journal'

/-- Nothing after the one program. -/
theorem StartsOnce.bind {act : Shell α} {f : α → Shell β} (h : StartsOnce call act)
    (hf : ∀ a, StartsNothing (f a)) : StartsOnce call (act >>= f) := by
  intro journal
  specialize h journal
  rw [perform_bind]
  cases hact : perform act journal with
  | mk outcome journal' =>
    rw [hact] at h
    cases outcome with
    | error e => exact h
    | ok a => simpa only [hf a journal'] using h

theorem startsOnce_start (host : Host) (call : Call) : StartsOnce call (host.start call) := by
  intro journal
  rw [perform_start]
  split
  · split
    · exact .inl rfl
    · exact .inr rfl
  · exact .inl rfl

theorem startsOnce_launch (host : Host) (environment : List (Text × Text)) (sysconf : Path)
    (file : Text) (arguments : List Text) :
    StartsOnce ⟨file, arguments, sysconf.toText, environment⟩
      (host.launch environment sysconf file arguments) := by
  rw [Host.launch]
  refine (isQuiet_require sysconf).startsNothing.bind_startsOnce fun _ => ?_
  split
  · exact (isQuiet_pure _).startsNothing.startsOnce
  · exact (isQuiet_pure _).startsNothing.startsOnce
  · refine (startsOnce_start host _).bind fun reply => ?_
    split <;> exact (isQuiet_pure _).startsNothing

end ConfigShell.Shell
