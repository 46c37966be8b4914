import ConfigShell.Proofs.Tree.Leading
/-!
# What becomes of a line

`Session.CarriedOut` lists the ways a line can be carried out, from the resolution of its words to
what is done where they lead, and `Session.carriedOut` says that there are no others. Whatever is to
be shown of lines is shown by going through them.
-/

namespace ConfigShell

open Shell (perform perform_bind StartsNothing StartsOnce startsNothing_printError startsOnce_launch
  isQuiet_pure ComesTo comesTo_true comesTo_pure)

variable {site : Site} {journal journal' : Journal}

/-! ## Executing -/

/-- What is planned is started once at most, and nothing else is. -/
theorem startsOnce_execute {l : Landing} {c : Command} {words : List Text}
    (h : Execution.plan l = .ok (c, words)) :
    StartsOnce (site.execution c l.parameters)
      (Execution.run site.host site.tree.environment l) := by
  obtain ⟨-, rfl⟩ := command?_of_plan h
  rw [Execution.run_of_plan h]
  exact (startsOnce_launch site.host _ _ _ _).bind Execution.startsNothing_ended

/-- Nothing is started where the plan fails. -/
theorem startsNothing_execute {l : Landing} {fault : ExecutionFault}
    (h : Execution.plan l = .error fault) :
    StartsNothing (Execution.run site.host site.tree.environment l) := by
  rw [Execution.run_of_fault h]
  exact (isQuiet_pure _).startsNothing

/-- An execution, and what starts nothing after it, makes the call planned or none. -/
theorem calls_execute {α : Type} (l : Landing) {f : Except ExecutionFault Unit → Shell α}
    (hf : ∀ r, StartsNothing (f r)) {result : Except Breakdown α} {after : Journal}
    (h : perform (Execution.run site.host site.tree.environment l >>= f) journal =
      (result, after)) :
    after.calls = journal.calls ∨
      ∃ c, Execution.plan l = .ok (c, Execution.arguments l.parameters) ∧
        after.calls = journal.calls ++ [site.execution c l.parameters] := by
  obtain rfl : _ = after := congrArg Prod.snd h
  cases hplan : Execution.plan l with
  | error fault => exact .inl (((startsNothing_execute hplan).bind hf) journal)
  | ok planned =>
    obtain ⟨c, words⟩ := planned
    obtain ⟨-, rfl⟩ := command?_of_plan hplan
    refine (((startsOnce_execute hplan).bind hf) journal).imp_right fun hcalls => ?_
    exact ⟨c, rfl, hcalls⟩

theorem Line.Lexed.isComment_of_words {lexed : Lexed} (h : lexed.isEmpty = false) :
    lexed.isComment = false := by
  simp_all [isEmpty]

namespace Session

/-- What is done where a line has led to `l`. -/
inductive Dispatched (site : Site) (s : Session) (l : Landing) (journal : Journal) :
    Except Breakdown (Outcome × Session) × Journal → Prop
  | moved {c : Container} (atContainer : l.node = .container c) :
      Dispatched site s l journal (.ok (.goOn, { s with path := l.path }), journal)
  | executed {result : Except Breakdown (Outcome × Session)} {after : Journal}
      (atCommand : l.node.kind = .command ∨ l.node.kind = .parameter)
      (calls : after.calls = journal.calls ∨
        ∃ c, Execution.plan l = .ok (c, Execution.arguments l.parameters) ∧
          after.calls = journal.calls ++ [site.execution c l.parameters])
      (same : ∀ outcome s', result = .ok (outcome, s') → outcome ≠ .terminate ∧ s' = s) :
      Dispatched site s l journal (result, after)
  | told {outcome : Outcome} (belowBuiltin : l.node.kind = .builtin ∨ l.node.kind = .option)
      (ends : outcome = if l.endsSession then .terminate else .goOn) :
      Dispatched site s l journal (.ok (outcome, s), journal)
  | unclear {a : Ambiguity} {after : Journal} (atAmbiguity : l.node = .ambiguous a)
      (calls : after.calls = journal.calls) :
      Dispatched site s l journal (.ok (.error, s), after)

/-- What is done with a line. -/
inductive CarriedOut (site : Site) (s : Session) (lexed : Line.Lexed) (journal : Journal) :
    Except Breakdown (Outcome × Session) × Journal → Prop
  | empty (isEmpty : lexed.isEmpty = true) :
      CarriedOut site s lexed journal (.ok (.goOn, s), journal)
  | broken {e : Breakdown} {after : Journal} (words : lexed.isEmpty = false)
      (resolved : perform (s.resolve site lexed true) journal = (.error e, after)) :
      CarriedOut site s lexed journal (.error e, after)
  | refused {e : WalkError} {resolution : Journal} {after : Journal} (words : lexed.isEmpty = false)
      (resolved : perform (s.resolve site lexed true) journal = (.ok (.error e), resolution))
      (calls : after.calls = resolution.calls) :
      CarriedOut site s lexed journal (.ok (.error, s), after)
  | landed {l : Landing} {steps : List (Line.Token × Node)} {resolution traced : Journal}
      {result : Except Breakdown (Outcome × Session) × Journal} (words : lexed.isEmpty = false)
      (resolved : perform (s.resolve site lexed true) journal =
        (.ok (.ok { landing := some l, steps := steps }), resolution))
      (calls : traced.calls = resolution.calls)
      (dispatched : Dispatched site s l traced result) : CarriedOut site s lexed journal result

/-- The resolution of a line is that of its words. -/
theorem resolve_congr {lexed other : Line.Lexed} (htokens : lexed.tokens = other.tokens)
    (hcomment : lexed.isComment = other.isComment) (s : Session) (validate : Bool) :
    s.resolve site lexed validate = s.resolve site other validate := by
  simp [resolve, Walk.line, htokens, hcomment]

/-- What is done with a line is up to its words. -/
theorem CarriedOut.congr {lexed other : Line.Lexed} {s : Session}
    {result : Except Breakdown (Outcome × Session) × Journal}
    (h : CarriedOut site s other journal result) (htokens : lexed.tokens = other.tokens)
    (hcomment : lexed.isComment = other.isComment) : CarriedOut site s lexed journal result := by
  have hempty : lexed.isEmpty = other.isEmpty := by simp [Line.Lexed.isEmpty, htokens, hcomment]
  have hresolve : s.resolve site lexed true = s.resolve site other true :=
    resolve_congr htokens hcomment s true
  cases h with
  | empty isEmpty => exact .empty (hempty.trans isEmpty)
  | broken words resolved => exact .broken (hempty.trans words) (by rw [hresolve, resolved])
  | refused words resolved calls =>
    exact .refused (hempty.trans words) (by rw [hresolve, resolved]) calls
  | landed words resolved calls dispatched =>
    exact .landed (hempty.trans words) (by rw [hresolve, resolved]) calls dispatched

/-- A line of words that does not break down has been resolved, to whatever it may be. -/
theorem CarriedOut.exists_resolved {lexed : Line.Lexed} {s : Session}
    {done : Outcome × Session} (h : CarriedOut site s lexed journal (.ok done, journal'))
    (words : lexed.isEmpty = false) :
    ∃ r resolution, perform (s.resolve site lexed true) journal = (.ok r, resolution) := by
  cases h with
  | empty isEmpty => rw [words] at isEmpty; cases isEmpty
  | refused _ resolved | landed _ resolved => exact ⟨_, _, resolved⟩

/-- A session moves nowhere but to a container. -/
theorem Dispatched.stays {s s' : Session} {l : Landing} {outcome : Outcome}
    (h : Dispatched site s l journal (.ok (outcome, s'), journal'))
    (hl : l.node.kind ≠ .container) : s' = s := by
  cases h with
  | moved atContainer => rw [atContainer] at hl; exact absurd rfl hl
  | executed _ _ same => exact (same _ _ rfl).2
  | told | unclear => rfl

theorem dispatched (site : Site) (s : Session) (l : Landing) (lexed : Line.Lexed)
    (number : Option Int) (journal : Journal) :
    Dispatched site s l journal (perform (s.dispatch site l lexed number) journal) := by
  have hreport (r : Except ExecutionFault Unit) : StartsNothing (s.report r) := by
    cases r with
    | error fault => exact (startsNothing_printError _).bind fun _ => (isQuiet_pure _).startsNothing
    | ok _ => exact (isQuiet_pure _).startsNothing
  have hsame (r : Except ExecutionFault Unit) :
      ComesTo (fun result => result.1 ≠ .terminate ∧ result.2 = s) (s.report r) := by
    cases r with
    | error fault => exact (comesTo_true _).bind fun _ _ => comesTo_pure (by simp)
    | ok _ => exact comesTo_pure (by simp)
  have hexecuted (atCommand : l.node.kind = .command ∨ l.node.kind = .parameter) :
      Dispatched site s l journal
        (perform (Execution.run site.host site.tree.environment l >>= s.report) journal) := by
    have hsession : ComesTo (fun result => result.1 ≠ .terminate ∧ result.2 = s)
        (Execution.run site.host site.tree.environment l >>= s.report) :=
      (comesTo_true _).bind fun r _ => hsame r
    specialize hsession journal
    cases h : perform (Execution.run site.host site.tree.environment l >>= s.report) journal with
    | mk result after =>
      rw [h] at hsession
      exact .executed atCommand (calls_execute l hreport h) fun outcome s' => hsession (outcome, s')
  unfold dispatch
  cases hl : l.node with
  | container c => exact .moved hl
  | command c => exact hexecuted (by simp [hl, Node.kind])
  | parameter p => exact hexecuted (by simp [hl, Node.kind])
  | builtin b => exact .told (by simp [hl, Node.kind]) rfl
  | option o command => exact .told (by simp [hl, Node.kind]) rfl
  | ambiguous a => exact .unclear hl rfl

theorem carriedOut (site : Site) (s : Session) (lexed : Line.Lexed) (number : Option Int)
    (journal : Journal) :
    CarriedOut site s lexed journal (perform (s.command site lexed number) journal) := by
  unfold command
  cases hempty : lexed.isEmpty with
  | true => exact .empty hempty
  | false =>
    simp only [Bool.false_eq_true, if_false]
    rw [perform_bind]
    cases hresolve : perform (s.resolve site lexed true) journal with
    | mk outcome resolution =>
      cases outcome with
      | error e => exact .broken hempty hresolve
      | ok r =>
        match r, hresolve with
        | .error (.stalePath name), hresolve => exact .refused hempty hresolve rfl
        | .error (.word e), hresolve => exact .refused hempty hresolve rfl
        | .ok { landing := none, steps := steps }, hresolve =>
          obtain ⟨l, hl⟩ := exists_landing (Line.Lexed.isComment_of_words hempty) hresolve
          cases hl
        | .ok { landing := some l, steps := steps }, hresolve =>
          dsimp only
          cases s.isTracing with
          | false => exact .landed hempty hresolve rfl (dispatched site s l lexed number resolution)
          | true =>
            -- the outline goes to the error stream only
            let traced := { resolution with err := resolution.err ++ Text.spellStrays l.outline }
            show CarriedOut site s lexed journal
              (perform (s.dispatch site l lexed number) traced)
            have hcalls : traced.calls = resolution.calls := rfl
            exact .landed hempty hresolve hcalls (dispatched site s l lexed number traced)

end Session

end ConfigShell
