import ConfigShell.Editor.Diagnostics
import ConfigShell.Proofs.Line.Ended
import ConfigShell.Proofs.Session.SavedPath
import ConfigShell.Proofs.Tree.Unasked
import ConfigShell.Script
/-!
# Diagnosing a script agrees with running it

The lines of a script are diagnosed without any of them being carried out. As long as no line ends
the session, the diagnosis follows the run all the same: after each line both stand at the same
container, a line that has a diagnostic fails when it is carried out, and a line that fails without
having one comes to a command (`diagnose_agrees`).
-/

namespace ConfigShell

open Shell (perform perform_bind_of_ok perform_map ComesTo comesTo_pure comesTo_true)

variable {site : Site} {s d : Session} {lexed : Line.Lexed} {text : Text} {newline : Bool}
  {line number : Nat} {journal journal' : Journal}

/-! ## Running lines -/

namespace Session

/-- Carries out a line of a script. A line that cannot be read fails. -/
def runLine (site : Site) (s : Session) (text : Text) (number : Nat) :
    Shell (Outcome × Session) :=
  match Line.lexFinal text with
  | .error e => do
    Shell.complain (e.report (some number))
    return (.error, s)
  | .ok lexed => s.command site lexed (some number)

/-- Lines carried out one after another, none of which ends the session or breaks down. -/
inductive Ran (site : Site) : Session → Journal → List (Text × Nat) → Session → Journal → Prop
  | done (s : Session) (journal : Journal) : Ran site s journal [] s journal
  | line {s next last : Session} {journal journal' journal'' : Journal} {text : Text} {number : Nat}
      {rest : List (Text × Nat)} {outcome : Outcome}
      (first : perform (s.runLine site text number) journal = (.ok (outcome, next), journal'))
      (stays : outcome ≠ .terminate) (others : Ran site next journal' rest last journal'') :
      Ran site s journal ((text, number) :: rest) last journal''

/-- Whether a line ends the session can be found out by carrying it out. -/
theorem Ran.of_toOption {last : Session} {rest : List (Text × Nat)} (outcome : Outcome)
    (next : Session)
    (first : (perform (s.runLine site text number) journal).1.toOption = some (outcome, next))
    (stays : outcome ≠ .terminate)
    (others : Ran site next (perform (s.runLine site text number) journal).2 rest last journal') :
    Ran site s journal ((text, number) :: rest) last journal' := by
  cases h : perform (s.runLine site text number) journal with
  | mk result journal₁ =>
    rw [h] at first others
    cases result with
    | error e => cases first
    | ok done =>
      cases first
      exact .line h stays others

theorem ran_cons_iff {last : Session} {rest : List (Text × Nat)} :
    Ran site s journal ((text, number) :: rest) last journal' ↔
      ∃ outcome next journal₁,
        perform (s.runLine site text number) journal = (.ok (outcome, next), journal₁) ∧
        outcome ≠ .terminate ∧ Ran site next journal₁ rest last journal' := by
  constructor
  · rintro ⟨⟩
    exact ⟨_, _, _, ‹_›, ‹_›, ‹_›⟩
  · rintro ⟨outcome, next, journal₁, first, stays, others⟩
    exact .line first stays others

theorem ran_append_iff {lines others : List (Text × Nat)} {last : Session} :
    Ran site s journal (lines ++ others) last journal' ↔
      ∃ next journal₁, Ran site s journal lines next journal₁ ∧
        Ran site next journal₁ others last journal' := by
  induction lines generalizing s journal with
  | nil =>
    constructor
    · intro h
      exact ⟨s, journal, .done s journal, h⟩
    · rintro ⟨_, _, ⟨⟩, h⟩
      exact h
  | cons line rest ih =>
    obtain ⟨text, number⟩ := line
    simp only [List.cons_append, ran_cons_iff, ih]
    constructor
    · rintro ⟨outcome, a, ja, first, stays, b, jb, hb, h⟩
      exact ⟨b, jb, ⟨outcome, a, ja, first, stays, hb⟩, h⟩
    · rintro ⟨b, jb, ⟨outcome, a, ja, first, stays, hb⟩, h⟩
      exact ⟨outcome, a, ja, first, stays, b, jb, hb, h⟩

theorem unshadowed_runLine {outcome : Outcome} {s' : Session} (h : site.Unshadowed s.path)
    (hran : perform (s.runLine site text number) journal = (.ok (outcome, s'), journal')) :
    site.Unshadowed s'.path := by
  unfold runLine at hran
  split at hran
  · cases hran
    exact h
  · exact unshadowed_command h hran

theorem Ran.unshadowed {lines : List (Text × Nat)} {last : Session}
    (h : Ran site s journal lines last journal') (hs : site.Unshadowed s.path) :
    site.Unshadowed last.path := by
  induction h with
  | done => exact hs
  | line first _ _ ih => exact ih (unshadowed_runLine hs first)

theorem runLines_cons (s : Session) (text : Text) (number : Nat) (rest : List (Text × Nat))
    (atEnd : Shell Unit) :
    s.runLines site ((text, number) :: rest) atEnd = (do
      match ← s.runLine site text number with
      | (.terminate, s) => return (true, s)
      | (.error, s) => do
        let (_, s) ← runLines site s rest atEnd
        return (false, s)
      | (.goOn, s) => runLines site s rest atEnd) := by
  rw [runLines, runLine]
  cases Line.lexFinal text with
  | error e => simp
  | ok lexed => rfl

/-- **What has been carried out line by line is the run of the script.** -/
theorem Ran.runLines {lines : List (Text × Nat)} {last : Session}
    (h : Ran site s journal lines last journal') :
    ∃ succeeded, perform (s.runLines site lines) journal = (.ok (succeeded, last), journal') := by
  induction h with
  | done => exact ⟨true, rfl⟩
  | @line s next last journal journal₁ journal₂ text number rest outcome first stays others ih =>
    obtain ⟨succeeded, hrest⟩ := ih
    rw [runLines_cons, perform_bind_of_ok first]
    cases outcome with
    | terminate => exact absurd rfl stays
    | goOn => exact ⟨succeeded, hrest⟩
    | error => exact ⟨false, (perform_bind_of_ok hrest _).trans rfl⟩

end Session

/-- The resolution of a line depends on the saved path alone. -/
theorem Session.resolve_of_path (h : d.path = s.path) :
    d.resolve site lexed = s.resolve site lexed := by
  simp [resolve, h]

/-! ## Diagnosing a line -/

namespace Editor

/-- What a resolution says of a line, and the session after it. -/
def verdict (s : Session) (line : Nat) (source : Text) :
    Except WalkError Resolution → Option Diagnostic × Session
  | .error (.stalePath name) => (some (ofStalePath line name), { s with path := [] })
  | .error (.word e) => (some (ofWordError line source e), s)
  | .ok resolution =>
    match resolution.landing with
    | some ⟨.ambiguous a, _⟩ => (some (ofAmbiguity line source a), s)
    | some ⟨.container c, above⟩ => (none, { s with path := Landing.path ⟨.container c, above⟩ })
    | _ => (none, s)

theorem diagnoseLine_eq (s : Session) (line : Nat) (text : Text) :
    diagnoseLine site s line text = match Line.lexFinal text with
      | .error e => pure (some (ofLexError line e), s)
      | .ok lexed =>
        if lexed.isEmpty then pure (none, s)
        else verdict s line lexed.source <$> s.resolve site lexed := by
  unfold diagnoseLine
  cases Line.lexFinal text with
  | error e => rfl
  | ok lexed =>
    cases hempty : lexed.isEmpty with
    | true => simp [hempty]
    | false =>
      simp only [hempty, Bool.false_eq_true, if_false]
      rw [← bind_pure_comp]
      congr 1
      funext r
      match r with
      | .error (.stalePath name) => rfl
      | .error (.word e) => rfl
      | .ok { landing := none, .. } => rfl
      | .ok { landing := some ⟨node, above⟩, .. } => cases node <;> rfl

/-- A diagnostic is about a word of the line it is for. -/
theorem line_tokenRange (line : Nat) (source : Text) (token : Option Line.Token) :
    (tokenRange line source token).line = line := by
  unfold tokenRange
  split <;> rfl

theorem line_of_verdict (r : Except WalkError Resolution) (source : Text) :
    ∀ found ∈ (verdict s line source r).1, found.range.line = line := by
  unfold verdict
  repeat' split
  all_goals simp [ofStalePath, ofWordError, ofAmbiguity, line_tokenRange]

theorem line_of_diagnoseLine (s : Session) (line : Nat) (text : Text) :
    ComesTo (fun said => ∀ found ∈ said.1, found.range.line = line)
      (diagnoseLine site s line text) := by
  rw [diagnoseLine_eq]
  split
  · exact comesTo_pure (by simp [ofLexError])
  · split
    · exact comesTo_pure nofun
    · exact (comesTo_true _).map fun r _ => line_of_verdict r _

/-- **Diagnosing a line does nothing.** -/
theorem isQuiet_diagnoseLine (site : Site) (s : Session) (line : Nat) (text : Text) :
    Shell.IsQuiet (diagnoseLine site s line text) := by
  rw [diagnoseLine_eq]
  split
  · exact Shell.isQuiet_pure _
  · split
    · exact Shell.isQuiet_pure _
    · exact (s.isQuiet_resolve _).map _

theorem isQuiet_diagnoseFrom (site : Site) (s : Session) (first : Nat) (lines : List Text) :
    Shell.IsQuiet (diagnoseFrom site s first lines) := by
  induction lines generalizing s first with
  | nil => exact Shell.isQuiet_pure _
  | cons text rest ih =>
    refine (isQuiet_diagnoseLine site s first text).bind fun said => ?_
    exact (ih said.2 (first + 1)).bind fun more => Shell.isQuiet_pure _

/-- **There is at most one diagnostic a line**, and they come in the order of the lines. -/
theorem pairwise_diagnoseFrom (s : Session) (first : Nat) (lines : List Text) :
    ComesTo (fun said => said.1.Pairwise (fun a b => a.range.line < b.range.line) ∧
        ∀ found ∈ said.1, first ≤ found.range.line ∧ found.range.line < first + lines.length)
      (diagnoseFrom site s first lines) := by
  induction lines generalizing s first with
  | nil => exact comesTo_pure ⟨.nil, by simp⟩
  | cons text rest ih =>
    refine (line_of_diagnoseLine s first text).bind fun said hsaid => ?_
    refine (ih said.2 (first + 1)).bind fun more hmore => comesTo_pure ?_
    obtain ⟨hpairwise, hlater⟩ := hmore
    refine ⟨List.pairwise_append.mpr ⟨?_, hpairwise, ?_⟩, fun found hfound => ?_⟩
    · cases said.1 <;> simp
    · intro a ha b hb
      have hline := hsaid a (Option.mem_toList.mp ha)
      have hlater := (hlater b hb).1
      omega
    · rw [List.length_cons]
      rcases List.mem_append.mp hfound with hfound | hfound
      · have hline := hsaid found (Option.mem_toList.mp hfound)
        omega
      · have hlater := hlater found hfound
        omega

/-- What a resolution without asking says of a line where it leads to a command or a parameter. -/
theorem verdict_of_isCommandOrParameter {l : Landing} (hl : l.node.IsCommandOrParameter)
    (s : Session) (line : Nat) (source : Text) (steps : List (Line.Token × Node)) :
    verdict s line source (.ok { landing := some l, steps := steps }) = (none, s) := by
  obtain ⟨node, above⟩ := l
  cases node with
  | command | parameter => rfl
  | container | builtin | option | ambiguous => rcases hl with hl | hl <;> cases hl

end Editor

/-- Read and resolved without asking commands, the line leads to a command or a parameter. -/
def Session.ResolvesToCommand (site : Site) (s : Session) (text : Text) : Prop :=
  ∃ lexed l steps, Line.lexFinal text = .ok lexed ∧ l.node.IsCommandOrParameter ∧ ∀ journal,
    perform (s.resolve site lexed) journal =
      (.ok (.ok { landing := some l, steps := steps }), journal)

/-- What is said of a line agrees with what becomes of it: both leave the session at the same
container, what is complained of fails, and what fails for other reasons comes to a command. -/
structure Editor.Agrees (site : Site) (before : Session) (text : Text)
    (said : Option Editor.Diagnostic × Session) (done : Outcome × Session) : Prop where
  path : said.2.path = done.2.path
  fails : said.1.isSome → done.1 = .error
  unsaid : done.1 = .error → said.1 = none → before.ResolvesToCommand site text

namespace Editor

variable {outcome : Outcome} {s' d' : Session}

/-- A complaint agrees with a failure. -/
theorem agrees_of_some (found : Diagnostic) (hpath : d'.path = s'.path) :
    Agrees site d text (some found, d') (.error, s') where
  path := hpath
  fails _ := rfl
  unsaid _ hnone := by cases hnone

/-- To say nothing agrees with any outcome but a failure before a command is reached. -/
theorem agrees_of_none (hpath : d'.path = s'.path)
    (hfails : outcome = .error → d.ResolvesToCommand site text) :
    Agrees site d text (none, d') (outcome, s') where
  path := hpath
  fails hsome := by cases hsome
  unsaid herror _ := hfails herror

/-- Where a line has been resolved as it is without asking, its verdict fits what is done there. -/
theorem agrees_of_dispatched {l : Landing} {steps : List (Line.Token × Node)} {source : Text}
    (hpath : d.path = s.path) (hread : Line.lexFinal text = .ok lexed)
    (hresolve : ∀ journal, perform (d.resolve site lexed) journal =
      (.ok (.ok { landing := some l, steps := steps }), journal))
    (h : s.Dispatched site l journal (.ok (outcome, s'), journal')) :
    Agrees site d text (verdict d line source (.ok { landing := some l, steps := steps }))
      (outcome, s') := by
  cases h with
  | moved atContainer =>
    obtain ⟨node, above⟩ := l
    cases atContainer
    exact agrees_of_none rfl fun herror => by cases herror
  | executed atCommand _ same =>
    obtain ⟨-, rfl⟩ := same _ _ rfl
    rw [verdict_of_isCommandOrParameter atCommand]
    exact agrees_of_none hpath fun _ => ⟨lexed, l, steps, hread, atCommand, hresolve⟩
  | told belowBuiltin ends =>
    obtain ⟨node, above⟩ := l
    have hverdict : verdict d line source (.ok { landing := some ⟨node, above⟩, steps := steps }) =
        (none, d) := by
      cases node with
      | builtin | option => rfl
      | container | command | parameter | ambiguous => rcases belowBuiltin with hl | hl <;> cases hl
    rw [hverdict]
    refine agrees_of_none hpath fun herror => ?_
    rw [ends] at herror
    split at herror <;> cases herror
  | unclear atAmbiguity =>
    obtain ⟨node, above⟩ := l
    cases atAmbiguity
    exact agrees_of_some _ hpath

/-- **The verdict of a line that has words agrees with carrying it out.** -/
theorem agrees_of_verdict {source : Text} (hunshadowed : site.Unshadowed s.path)
    (hpath : d.path = s.path) (hread : Line.lexFinal text = .ok lexed)
    (hwords : lexed.isEmpty = false) {r : Except WalkError Resolution}
    (hresolve : ∀ journal, perform (d.resolve site lexed) journal = (.ok r, journal))
    (hcarried : s.CarriedOut site lexed journal (.ok (outcome, s'), journal')) :
    Agrees site d text (verdict d line source r) (outcome, s') := by
  have hunasked : ∀ journal, perform (s.resolve site lexed) journal = (.ok r, journal) := by
    rw [← Session.resolve_of_path hpath]
    exact hresolve
  rcases Session.resolve_unasked hunshadowed (Line.Lexed.isComment_of_words hwords) with
    hsame | hcommand
  · cases hcarried with
    | empty isEmpty => rw [hwords] at isEmpty; cases isEmpty
    | @refused e _ _ _ resolved =>
      rw [hsame, hunasked] at resolved
      cases resolved
      cases e with
      | stalePath name =>
        exact absurd (congrArg Prod.fst (hunasked journal))
          (Session.resolve_ne_stalePath hunshadowed name)
      | word e => exact agrees_of_some _ hpath
    | landed _ resolved _ dispatched =>
      rw [hsame, hunasked] at resolved
      cases resolved
      exact agrees_of_dispatched hpath hread hresolve dispatched
  · -- what becomes of the line is up to the commands now, but it moves nowhere
    obtain ⟨l, steps, hl, hled⟩ := hcommand.unasked
    obtain rfl : r = .ok { landing := some l, steps := steps } := by
      have h := (hunasked journal).symm.trans (hled journal)
      cases h
      rfl
    rw [verdict_of_isCommandOrParameter hl]
    have hstays : s' = s := by
      cases hcarried with
      | empty | refused => rfl
      | landed _ resolved _ dispatched =>
        refine dispatched.stays ?_
        rcases hcommand.asked _ _ _ _ resolved with (hl | hl) | hl <;> simp [hl]
    exact agrees_of_none (hpath.trans (congrArg _ hstays.symm))
      fun _ => ⟨lexed, l, steps, hread, hl, hresolve⟩

/-- Where the top of the tree cannot be listed, no line of words is carried out. -/
theorem passable_of_carriedOut (hwords : lexed.isEmpty = false)
    (hcarried : s.CarriedOut site lexed journal (.ok (outcome, s'), journal')) :
    (site.directory []).isPassable = true := by
  obtain ⟨r, resolution, hresolved⟩ := hcarried.exists_resolved hwords
  cases hpassable : (site.directory []).isPassable with
  | true => rfl
  | false =>
    have htop : perform (Walk.top site) journal = (.error .zeroByte, journal) := by
      refine Shell.perform_bind_of_error ?_ _
      rw [Site.top_eq, perform_containerAt, hpassable]
      rfl
    rw [Session.resolve, Line.Lexed.isComment_of_words hwords] at hresolved
    simp only [Bool.false_eq_true, if_false, perform_map, Walk.line, Walk.start] at hresolved
    rw [Shell.perform_bind_of_error (Shell.perform_bind_of_error htop _)] at hresolved
    cases hresolved

/-- A line of words that is carried out can be resolved without asking. -/
theorem exists_resolve_of_carriedOut (hunshadowed : site.Unshadowed s.path)
    (hpath : d.path = s.path) (hwords : lexed.isEmpty = false)
    (hcarried : s.CarriedOut site lexed journal (.ok (outcome, s'), journal')) :
    ∃ r, ∀ journal, perform (d.resolve site lexed) journal = (.ok r, journal) := by
  rw [Session.resolve_of_path hpath]
  rcases Session.resolve_unasked hunshadowed (Line.Lexed.isComment_of_words hwords) with
    hsame | hcommand
  · obtain ⟨r, resolution, hresolved⟩ := hcarried.exists_resolved hwords
    obtain ⟨outcome, hresolve⟩ : Shell.IsQuiet (s.resolve site lexed) := s.isQuiet_resolve lexed
    rw [hsame, hresolve] at hresolved
    cases hresolved
    exact ⟨r, hresolve⟩
  · obtain ⟨l, steps, -, hled⟩ := hcommand.unasked
    exact ⟨_, hled⟩

/-- **What is said of a line agrees with carrying it out**, with or without the break that ends
it. -/
theorem diagnoseLine_agrees
    (hunshadowed : (site.directory []).isPassable = true → site.Unshadowed s.path)
    (hpath : d.path = s.path) (line : Nat)
    (hran : perform (s.runLine site (Line.ended newline text) number) journal =
      (.ok (outcome, s'), journal')) :
    ∃ said, (∀ journal, perform (diagnoseLine site d line text) journal = (.ok said, journal)) ∧
      Agrees site d text said (outcome, s') := by
  have halike := Line.readAlike_ended newline text
  rw [diagnoseLine_eq]
  unfold Session.runLine at hran
  cases hread : Line.lexFinal text with
  | error e =>
    cases hread' : Line.lexFinal (Line.ended newline text) with
    | ok lexed => rw [hread, hread'] at halike; cases halike
    | error e' =>
      rw [hread'] at hran
      cases hran
      exact ⟨_, fun _ => rfl, agrees_of_some _ hpath⟩
  | ok lexed =>
    cases hread' : Line.lexFinal (Line.ended newline text) with
    | error e' => rw [hread, hread'] at halike; cases halike
    | ok lexed' =>
      rw [hread, hread'] at halike
      obtain ⟨htokens, hcomment⟩ := halike
      have hcarried :=
        (Session.carriedOut site s lexed' (some number) journal).congr htokens hcomment
      rw [hread'] at hran
      rw [hran] at hcarried
      cases hempty : lexed.isEmpty with
      | true =>
        have hnothing : (outcome, s') = (.goOn, s) := by
          cases hcarried with
          | empty => rfl
          | refused words | landed words => rw [hempty] at words; cases words
        cases hnothing
        refine ⟨(none, d), fun _ => ?_, agrees_of_none hpath fun herror => by cases herror⟩
        simp only [hempty, if_true]
        rfl
      | false =>
        have hunshadowed := hunshadowed (passable_of_carriedOut hempty hcarried)
        obtain ⟨r, hresolve⟩ := exists_resolve_of_carriedOut hunshadowed hpath hempty hcarried
        refine ⟨verdict d line lexed.source r, fun journal => ?_,
          agrees_of_verdict hunshadowed hpath hread hempty hresolve hcarried⟩
        simp only [hempty, Bool.false_eq_true, if_false]
        rw [perform_map, hresolve]
        rfl

/-! ## Diagnosing a script -/

/-- A line of a script. -/
structure ScriptLine where
  text : Text
  /-- It comes with the break that ends it. -/
  isEnded : Bool

/-- What is carried out. -/
def ScriptLine.source (l : ScriptLine) : Text := Line.ended l.isEnded l.text

theorem diagnoseFrom_append (s : Session) (first : Nat) (lines others : List Text) :
    diagnoseFrom site s first (lines ++ others) = (do
      let (found, s) ← diagnoseFrom site s first lines
      let (more, s) ← diagnoseFrom site s (first + lines.length) others
      return (found ++ more, s)) := by
  induction lines generalizing s first with
  | nil => simp [diagnoseFrom]
  | cons text rest ih => simp [diagnoseFrom, ih, Nat.add_assoc, Nat.add_comm 1]

/-- **The diagnosis of a script follows its run.** -/
theorem diagnoseFrom_of_ran {script : List ScriptLine} {start : Nat} {last : Session}
    (hran : s.Ran site journal ((script.map (·.source)).zipIdx start) last journal')
    (hunshadowed : (site.directory []).isPassable = true → site.Unshadowed s.path)
    (hpath : d.path = s.path) (first : Nat) :
    ∃ found d', (∀ journal, perform (diagnoseFrom site d first (script.map (·.text))) journal =
        (.ok (found, d'), journal)) ∧ d'.path = last.path := by
  induction script generalizing s d journal start first with
  | nil =>
    cases hran
    exact ⟨[], d, fun _ => rfl, hpath⟩
  | cons line rest ih =>
    obtain ⟨outcome, next, journal₁, hline, -, hrest⟩ := Session.ran_cons_iff.mp hran
    obtain ⟨⟨found, d₁⟩, hsaid, hagrees⟩ := diagnoseLine_agrees hunshadowed hpath first hline
    have hnext (passable : (site.directory []).isPassable = true) : site.Unshadowed next.path :=
      Session.unshadowed_runLine (hunshadowed passable) hline
    obtain ⟨more, d', hmore, hlast⟩ := ih hrest hnext hagrees.path (first + 1)
    refine ⟨found.toList ++ more, d', fun journal => ?_, hlast⟩
    rw [List.map_cons, diagnoseFrom, perform_bind_of_ok (hsaid journal),
      perform_bind_of_ok (hmore journal)]
    rfl

end Editor

/-- **Diagnosing a script agrees with running it**, if no line ends the session and wherever lines
come with the break that ends them. Both leave the session at the same container, after the whole
script as after each line of it, and at each line what is said agrees with what is done. Diagnosing
starts nothing, whatever the lines, and has one diagnostic a line at most. -/
theorem diagnose_agrees (site : Site) (isTracing : Bool) (script : List Editor.ScriptLine)
    (journal journal' : Journal) (last : Session)
    (hran : Session.Ran site { isTracing := isTracing } journal
      ((script.map (·.source)).zipIdx 1) last journal') :
    (∃ code, perform (Session.readLines site { isTracing := isTracing } (script.map (·.source)))
      journal = (.ok (code, last), journal')) ∧
    (∃ found d, (∀ journal, perform (Session.diagnose site {} (script.map (·.text))) journal =
        (.ok (found, d), journal)) ∧ d.path = last.path) ∧
    (∀ lines journal, (perform (Session.diagnose site {} lines) journal).2 = journal ∧
      ∀ found d, (perform (Session.diagnose site {} lines) journal).1 = .ok (found, d) →
        found.Pairwise (fun a b => a.range.line < b.range.line) ∧
          ∀ a ∈ found, a.range.line < lines.length) ∧
    ∀ before line after, script = before ++ line :: after →
      ∃ s j outcome s' j' found d said,
        Session.Ran site { isTracing := isTracing } journal
          ((before.map (·.source)).zipIdx 1) s j ∧
        perform (s.runLine site line.source (before.length + 1)) j = (.ok (outcome, s'), j') ∧
        (∀ journal, perform (Session.diagnose site {} (before.map (·.text))) journal =
          (.ok (found, d), journal)) ∧
        (∀ journal, perform (Session.diagnose site {} (before.map (·.text) ++ [line.text]))
          journal = (.ok (found ++ said.1.toList, said.2), journal)) ∧
        d.path = s.path ∧ Editor.Agrees site d line.text said (outcome, s') := by
  have htop (passable : (site.directory []).isPassable = true) : site.Unshadowed [] := .top passable
  refine ⟨?_, Editor.diagnoseFrom_of_ran (d := {}) hran htop rfl 0, ?_, ?_⟩
  · obtain ⟨succeeded, hruns⟩ := hran.runLines
    exact ⟨_, perform_bind_of_ok hruns _⟩
  · intro lines journal
    have hquiet := Editor.isQuiet_diagnoseFrom site {} 0 lines
    refine ⟨congrArg Prod.snd (hquiet.perform_eq journal journal), fun found d hfound => ?_⟩
    obtain ⟨hpairwise, hlines⟩ := Editor.pairwise_diagnoseFrom {} 0 lines journal _ hfound
    exact ⟨hpairwise, fun a ha => by simpa using (hlines a ha).2⟩
  · rintro before line after rfl
    rw [List.map_append, List.zipIdx_append, Session.ran_append_iff] at hran
    obtain ⟨s, j, hbefore, hrest⟩ := hran
    obtain ⟨outcome, s', j', hline, -, -⟩ := Session.ran_cons_iff.mp hrest
    obtain ⟨found, d, hfound, hpath⟩ := Editor.diagnoseFrom_of_ran (d := {}) hbefore htop rfl 0
    obtain ⟨said, hsaid, hagrees⟩ := Editor.diagnoseLine_agrees
      (fun passable => hbefore.unshadowed (htop passable)) hpath before.length hline
    refine ⟨s, j, outcome, s', j', found, d, said, hbefore, ?_, hfound, fun journal => ?_, hpath,
      hagrees⟩
    · simpa [Nat.add_comm] using hline
    · rw [Session.diagnose, Editor.diagnoseFrom_append, perform_bind_of_ok (hfound journal)]
      simp only [List.length_map, Nat.zero_add, Editor.diagnoseFrom]
      rw [perform_bind_of_ok (perform_bind_of_ok (hsaid journal) _), List.append_nil]
      rfl

/-- A script of a line that leads to a container, one that leads nowhere, one that leads up again
and one that executes a command, the first and the last with their breaks. -/
def mixedScript : List Editor.ScriptLine :=
  [⟨"net", true⟩, ⟨"zz", false⟩, ⟨"..", false⟩, ⟨"neck", true⟩]

/-- The second line has the only diagnostic; the last one fails without, as its command cannot be
started. -/
theorem diagnose_mixedScript_agrees :
    ∃ last journal', Session.Ran Session.nested {} {} ((mixedScript.map (·.source)).zipIdx 1) last
        journal' ∧
      (∃ code, perform (Session.readLines Session.nested {} (mixedScript.map (·.source))) {} =
        (.ok (code, last), journal')) ∧
      ∃ found d, (∀ journal, perform (Session.diagnose Session.nested {} (mixedScript.map (·.text)))
        journal = (.ok (found, d), journal)) ∧ d.path = last.path := by
  obtain ⟨last, journal', hran⟩ : ∃ last journal', Session.Ran Session.nested {} {}
      ((mixedScript.map (·.source)).zipIdx 1) last journal' := by
    exact ⟨_, _,
      .of_toOption .goOn { path := ["network"] } (by decide +kernel) (by decide) <|
      .of_toOption .error { path := ["network"] } (by decide +kernel) (by decide) <|
      .of_toOption .goOn {} (by decide +kernel) (by decide) <|
      .of_toOption .error {} (by decide +kernel) (by decide) <| .done _ _⟩
  obtain ⟨hruns, ⟨found, d, hdiagnose, hpath⟩, -⟩ :=
    diagnose_agrees Session.nested false mixedScript {} journal' last hran
  exact ⟨last, journal', hran, hruns, found, d, hdiagnose, hpath⟩

end ConfigShell
