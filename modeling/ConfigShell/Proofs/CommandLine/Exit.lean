import ConfigShell.CommandLine.Run
import ConfigShell.Proofs.CommandLine.Options
import ConfigShell.Proofs.Session.Ends
/-!
# Exit codes

A run of the shell ends with an exit code of 0, 1 or 2, and with 2 exactly where its options are
refused in words (`Rejects`). There are two ways for a run to end without an exit code. `Escapes`
lists what is wrong with the words, the options or the place of the cursor, in which case the run
does nothing at all. `Breaks` lists what undoes a run later: a zero byte in a path that the shell is
to work with, and stray bytes that strict streams refuse.
-/

namespace ConfigShell.CommandLine

open Shell (perform Ends ends_pure ends_printError ends_require ComesTo comesTo_true comesTo_pure)

variable {host : Host} {who : Prompt.Identity} {environment : List (Text × Text)} {input : Input}
  {words : List Text} {site : Site} {flaw : Breakdown → Prop} {s : Session} {o : Options}
  {journal : Journal} {contents : Text}

/-! ## Ways to end without an exit code -/

/-- There is a line to complete, and the place of the cursor in it is made of digits that are no
number. -/
structure Misplaces (environment : List (Text × Text)) (place : Text) (f : Text.NumeralFault) :
    Prop where
  completes : ((valueOf? environment "COMP_LINE").or (valueOf? environment "COMMAND_LINE")).isSome
  found : valueOf? environment "COMP_POINT" = some place
  digits : Text.isDigits place = true
  unreadable : Text.numeral place = .error f

/-- What ends a run before it begins. -/
inductive Escapes (host : Host) (environment : List (Text × Text)) (words : List Text) :
    Abort → Prop
  | stopped {s : Stop} (stops : Arguments.ofWords words = .error s) :
      Escapes host environment words (.stopped s)
  | options {a : Arguments} {fault : OptionsFault} {abort : Abort}
      (read : Arguments.ofWords words = .ok a) (refused : Options.Refused host environment a fault)
      (wordless : fault.complaint = .error abort) : Escapes host environment words abort
  | cursor {a : Arguments} {o : Options} {place : Text} {f : Text.NumeralFault}
      (read : Arguments.ofWords words = .ok a) (resolved : Options.resolve host environment a = .ok o)
      (unplaced : Misplaces environment place f) : Escapes host environment words (.cursor place f)

/-- The options of the run are refused in these words. -/
def Rejects (host : Host) (environment : List (Text × Text)) (words : List Text) (message : Text) :
    Prop :=
  ∃ a fault, Arguments.ofWords words = .ok a ∧ Options.Refused host environment a fault ∧
    fault.complaint = .ok message

/-- A zero byte is in the script's path, in one of the two paths of the tree or in the name of an
entry. -/
def MeetsZeroByte (host : Host) (environment : List (Text × Text)) (words : List Text) : Prop :=
  ∃ a o, Arguments.ofWords words = .ok a ∧ Options.resolve host environment a = .ok o ∧
    (Site.HasZeroByte ⟨host, o.tree environment⟩ ∨
      ∃ path, o.script? = some path ∧ path.isPassable = false)

/-- The run takes its commands from the input stream, which holds `contents`. -/
structure ReadsStream (environment : List (Text × Text)) (input : Input) (o : Options)
    (contents : Text) : Prop where
  asked : CallerCompletion.line? environment = .ok none
  commandless : o.commands = []
  scriptless : o.script? = none
  stream : input = .stream contents

/-- **What undoes a run on its way.** -/
inductive Breaks (host : Host) (environment : List (Text × Text)) (input : Input)
    (words : List Text) (journal : Journal) : Breakdown → Prop
  | zeroByte (meets : MeetsZeroByte host environment words) :
      Breaks host environment input words journal .zeroByte
  /-- The input stream refuses a stray byte, and no line handed out before ends the session. -/
  | undecodable {a : Arguments} {o : Options} {contents : Text} {done : List (Outcome × Session)}
      {after : Journal} (read : Arguments.ofWords words = .ok a)
      (resolved : Options.resolve host environment a = .ok o)
      (reads : ReadsStream environment input o contents)
      (refuses : RefusesStream host.setup contents)
      (carriedOut : perform (o.session.trail ⟨host, o.tree environment⟩
        ((readyLines host.setup contents).zipIdx 1)) journal = (.ok done, after))
      (goesOn : ¬ Session.Ended done) :
      Breaks host environment input words journal .undecodable
  /-- The output stream is strict, and a name that completes the line has a stray byte. -/
  | unencodable {a : Arguments} {o : Options} {line name : Text} {names : List Text}
      {after : Journal} (read : Arguments.ofWords words = .ok a)
      (resolved : Options.resolve host environment a = .ok o)
      (asked : CallerCompletion.line? environment = .ok (some line))
      (strict : host.setup.isStrict = true)
      (found : perform (o.session.namesForCaller ⟨host, o.tree environment⟩ line) journal =
        (.ok names, after))
      (offered : name ∈ names) (stray : ¬ name.IsWellFormed) :
      Breaks host environment input words journal .unencodable

theorem line?_eq_error_iff {f : Text.NumeralFault} :
    CallerCompletion.line? environment = .error f ↔ ∃ place, Misplaces environment place f := by
  constructor
  · intro h
    unfold CallerCompletion.line? at h
    split at h
    · cases h
    · rename_i line hline
      split at h
      · cases h
      · rename_i place hplace
        split at h
        · rename_i hdigits
          cases hnumeral : Text.numeral place with
          | ok n => rw [hnumeral] at h; cases h
          | error fault =>
            rw [hnumeral] at h
            cases h
            exact ⟨place, by rw [hline]; rfl, hplace, hdigits, hnumeral⟩
        · cases h
  · rintro ⟨place, hcompletes, hfound, hdigits, hunreadable⟩
    obtain ⟨line, hline⟩ := Option.isSome_iff_exists.mp hcompletes
    unfold CallerCompletion.line?
    rw [hline]
    dsimp only
    rw [hfound]
    dsimp only
    rw [if_pos hdigits, hunreadable]
    rfl

/-! ## Each way to run the shell -/

theorem ends_complain (message : Text) : Ends flaw (Shell.complain message) :=
  ends_printError _

theorem ends_runFile (hflaw : site.HasZeroByte → flaw .zeroByte) {path : Path}
    (hpath : path.isPassable = true ∨ flaw .zeroByte) : Ends flaw (runFile site s path) := by
  unfold runFile
  refine (ends_require hpath).next fun _ => ?_
  split
  · exact (ends_complain _).next fun _ => ends_pure _
  · exact (s.ends_readLines hflaw _ (ends_pure ())).next fun _ => ends_pure _

theorem ends_runStream (hflaw : site.HasZeroByte → flaw .zeroByte)
    (haccepts : ¬ RefusesStream site.host.setup contents) :
    Ends flaw (runStream site s contents) := by
  unfold runStream
  dsimp only
  rw [if_neg haccepts]
  exact (s.ends_readLines hflaw _ (ends_pure ())).next fun _ => ends_pure _

theorem ends_runInput (hflaw : site.HasZeroByte → flaw .zeroByte)
    (haccepts : ¬ RefusesStream site.host.setup input.script) (isScript : Bool) :
    Ends flaw (runInput site who s input isScript) := by
  unfold runInput
  split
  · exact (Prompt.ends_run hflaw who s [] 0 _).next fun _ => ends_pure _
  · exact ends_runStream hflaw haccepts

/-- **A session is run to its end**, unless it takes its commands from a stream that refuses a
byte. -/
theorem ends_runSession (hflaw : site.HasZeroByte → flaw .zeroByte)
    (hscript : ∀ path, o.script? = some path → path.isPassable = true ∨ flaw .zeroByte)
    (haccepts : o.commands = [] → o.script? = none →
      ¬ RefusesStream site.host.setup input.script) :
    Ends flaw (runSession site who input o) := by
  unfold runSession
  split
  · exact (o.session.ends_runWords hflaw _).next fun _ => ends_pure _
  · rename_i hcommands
    split
    · rename_i path hpath
      exact ends_runFile hflaw (hscript path hpath)
    · rename_i hnone
      exact ends_runInput hflaw (haccepts (by simpa using hcommands) hnone) _

/-- What becomes of a session that takes its commands from a stream that refuses a byte. -/
theorem runSession_of_refuses (hcommands : o.commands = []) (hscript : o.script? = none)
    (hrefuses : RefusesStream site.host.setup contents) :
    runSession site who (.stream contents) o = (do
      let done ← o.session.trail site ((readyLines site.host.setup contents).zipIdx 1)
      Session.unlessEnded done (throw .undecodable)
      return { code := if Session.Succeeded done then 0 else 1 }) := by
  unfold runSession runInput runStream
  rw [hcommands, hscript]
  simp [Input.script, hrefuses, Session.readLines_then_eq_trail]

theorem comesTo_readLines (lines : List Text) (atEnd : Shell Unit) :
    ComesTo (fun result => result.1 ≤ 1) (s.readLines site lines atEnd) := by
  unfold Session.readLines
  refine (comesTo_true _).bind fun result _ => comesTo_pure ?_
  dsimp only
  split <;> omega

theorem comesTo_runWords (words : List Text) :
    ComesTo (fun result => result.1 ≤ 1) (s.runWords site words) := by
  unfold Session.runWords
  split
  · exact comesTo_pure (Nat.zero_le 1)
  · refine (comesTo_true _).bind fun result _ => comesTo_pure ?_
    dsimp only
    split <;> omega

theorem comesTo_runStream (contents : Text) :
    ComesTo (fun finish => finish.code ≤ 1) (runStream site s contents) := by
  unfold runStream
  dsimp only
  split
  · exact (comesTo_readLines _ _).bind fun result h => comesTo_pure h
  · exact (comesTo_readLines _ _).bind fun result h => comesTo_pure h

/-- **A session never ends with the code of a refusal.** -/
theorem comesTo_runSession :
    ComesTo (fun finish => finish.code ≤ 1) (runSession site who input o) := by
  unfold runSession runFile runInput
  split
  · exact (comesTo_runWords _).bind fun result h => comesTo_pure h
  · split
    · refine (comesTo_true _).bind fun _ _ => ?_
      split
      · exact (comesTo_true _).bind fun _ _ => comesTo_pure (Nat.le_refl 1)
      · exact (comesTo_readLines _ _).bind fun result h => comesTo_pure h
    · split
      · exact (comesTo_true _).bind fun _ _ => comesTo_pure (Nat.zero_le 1)
      · exact comesTo_runStream _

/-! ## The whole run -/

/-- What comes of an action in a run that goes on with a value of its own. -/
theorem Run.run_ofShell_return {β : Type} (act : Shell Unit) (b : β) (journal : Journal) :
    ((do Run.ofShell act; return b : Run β).run journal).1 =
      match (perform act journal).1 with
      | .ok () => .ok b
      | .error e => .error (.broken e) := by
  show ((ExceptT.bindCont (fun _ => pure b) ((perform act journal).1.mapError Abort.broken) :
    Run β) (perform act journal).2).1 = _
  cases (perform act journal).1 <;> rfl

theorem mapError_ok {ε ε' α : Type} (f : ε → ε') (a : α) : (Except.ok a).mapError f = .ok a := rfl

theorem liftM_ok {α : Type} (a : α) : (liftM (Except.ok a : Except Abort α) : Run α) = pure a := rfl

theorem run_of_options {a : Arguments} (hread : Arguments.ofWords words = .ok a)
    (ho : Options.resolve host environment a = .ok o) :
    run host who environment input words = runOptions host who environment input o := by
  unfold run
  rw [hread, mapError_ok, liftM_ok, pure_bind, ho]

theorem run_of_fault {a : Arguments} {fault : OptionsFault}
    (hread : Arguments.ofWords words = .ok a)
    (hfault : Options.resolve host environment a = .error fault) :
    (run host who environment input words).run journal = match fault.complaint with
      | .error abort => (.error abort, journal)
      | .ok message => (.ok { code := 2 }, { journal with
          err := journal.err ++ (Text.spellStrays ("error: " ++ message) ++ "\n") }) := by
  unfold run
  rw [hread, mapError_ok, liftM_ok, pure_bind, hfault]
  show ((liftM fault.complaint : Run Text) >>= _).run journal = _
  cases fault.complaint <;> rfl

/-- **What escapes, escapes at once**: nothing has been written and nothing started. -/
theorem run_of_escapes {abort : Abort} (h : Escapes host environment words abort) :
    (run host who environment input words).run journal = (.error abort, journal) := by
  cases h with
  | stopped stops =>
    unfold run
    rw [stops]
    rfl
  | options read refused wordless =>
    rw [run_of_fault read (Options.resolve_eq_error_iff.mpr refused), wordless]
  | cursor read resolved unplaced =>
    rw [run_of_options read resolved]
    unfold runOptions
    dsimp only
    rw [line?_eq_error_iff.mpr ⟨_, unplaced⟩, unplaced.found]
    rfl

/-- **A refusal in words** is all that is written, and nothing is started. -/
theorem run_of_rejects {message : Text} (h : Rejects host environment words message) :
    (run host who environment input words).run journal =
      (.ok { code := 2 }, { journal with
        err := journal.err ++ (Text.spellStrays ("error: " ++ message) ++ "\n") }) := by
  obtain ⟨a, fault, hread, hrefused, hmessage⟩ := h
  rw [run_of_fault hread (Options.resolve_eq_error_iff.mpr hrefused), hmessage]

theorem not_rejects_of_options {a : Arguments} (hread : Arguments.ofWords words = .ok a)
    (ho : Options.resolve host environment a = .ok o) (message : Text) :
    ¬ Rejects host environment words message := by
  rintro ⟨b, fault, hread', hrefused, -⟩
  rw [hread] at hread'
  cases hread'
  rw [Options.resolve_eq_error_iff.mpr hrefused] at ho
  cases ho

/-! ## Runs with options -/

/-- A run without a line to complete comes to what its session comes to. -/
theorem run_of_session {a : Arguments} (hread : Arguments.ofWords words = .ok a)
    (ho : Options.resolve host environment a = .ok o)
    (hasked : CallerCompletion.line? environment = .ok none) :
    ((run host who environment input words).run journal).1 =
      (perform (runSession ⟨host, o.tree environment⟩ who input o) journal).1.mapError
        Abort.broken := by
  rw [run_of_options hread ho]
  unfold runOptions
  dsimp only
  rw [hasked]
  rfl

/-- A run with a line to complete comes to 0, unless its names cannot be printed. -/
theorem run_of_completion {a : Arguments} (hread : Arguments.ofWords words = .ok a)
    (ho : Options.resolve host environment a = .ok o) {line : Text}
    (hasked : CallerCompletion.line? environment = .ok (some line)) :
    ((run host who environment input words).run journal).1 =
      match (perform (o.session.completeForCaller ⟨host, o.tree environment⟩ line) journal).1 with
      | .ok () => .ok { code := 0 }
      | .error b => .error (.broken b) := by
  rw [run_of_options hread ho]
  unfold runOptions
  dsimp only
  rw [hasked]
  exact Run.run_ofShell_return _ _ _

variable {a : Arguments}

/-- A zero byte in the site of a run undoes it. -/
theorem breaks_of_hasZeroByte (hread : Arguments.ofWords words = .ok a)
    (ho : Options.resolve host environment a = .ok o)
    (h : Site.HasZeroByte ⟨host, o.tree environment⟩) :
    Breaks host environment input words journal .zeroByte :=
  .zeroByte ⟨a, o, hread, ho, .inl h⟩

/-- A session whose stream refuses a byte ends with an exit code if one of the lines handed out before
ends it. -/
theorem refused_session_exits (hread : Arguments.ofWords words = .ok a)
    (ho : Options.resolve host environment a = .ok o)
    (hreads : ReadsStream environment input o contents)
    (hrefuses : RefusesStream host.setup contents) :
    (∃ b, Breaks host environment input words journal b ∧
        (perform (runSession ⟨host, o.tree environment⟩ who input o) journal).1 = .error b) ∨
      ∃ finish, (perform (runSession ⟨host, o.tree environment⟩ who input o) journal).1 =
        .ok finish := by
  have hends : Ends (Breaks host environment input words journal)
      (o.session.trail ⟨host, o.tree environment⟩ ((readyLines host.setup contents).zipIdx 1)) :=
    Session.ends_trail (breaks_of_hasZeroByte hread ho) o.session _
  have htrail := hends journal
  rw [hreads.stream, runSession_of_refuses hreads.commandless hreads.scriptless hrefuses]
  cases hdone : perform (o.session.trail ⟨host, o.tree environment⟩
      ((readyLines host.setup contents).zipIdx 1)) journal with
  | mk outcome after =>
    rw [hdone, hreads.stream] at htrail
    cases outcome with
    | error b =>
      rw [Shell.perform_bind_of_error hdone]
      obtain ⟨a, ⟨⟩⟩ | ⟨b, ⟨⟩, hb⟩ := htrail
      exact .inl ⟨b, hb, rfl⟩
    | ok done =>
      rw [Shell.perform_bind_of_ok hdone]
      by_cases hends : Session.Ended done
      · rw [Session.unlessEnded, if_pos hends]
        exact .inr ⟨_, rfl⟩
      · rw [Session.unlessEnded, if_neg hends]
        exact .inl ⟨_, .undecodable hread ho (hreads.stream ▸ hreads) hrefuses hdone hends, rfl⟩

/-- **A session ends with an exit code**, 0 or 1, unless it breaks down for a listed reason. -/
theorem session_exits (hread : Arguments.ofWords words = .ok a)
    (ho : Options.resolve host environment a = .ok o)
    (hasked : CallerCompletion.line? environment = .ok none) :
    (∃ b, Breaks host environment input words journal b ∧
        (perform (runSession ⟨host, o.tree environment⟩ who input o) journal).1 = .error b) ∨
      ∃ finish, (perform (runSession ⟨host, o.tree environment⟩ who input o) journal).1 =
        .ok finish := by
  by_cases hstream : ∃ contents, ReadsStream environment input o contents ∧
      RefusesStream host.setup contents
  · obtain ⟨contents, hreads, hrefuses⟩ := hstream
    exact refused_session_exits hread ho hreads hrefuses
  · have hscript (path : Path) (hpath : o.script? = some path) :
        path.isPassable = true ∨ Breaks host environment input words journal .zeroByte := by
      cases hpassable : path.isPassable with
      | true => exact .inl rfl
      | false => exact .inr (.zeroByte ⟨a, o, hread, ho, .inr ⟨path, hpath, hpassable⟩⟩)
    have haccepts (hcommands : o.commands = []) (hnone : o.script? = none) :
        ¬ RefusesStream host.setup input.script := by
      cases hinput : input with
      | stream contents =>
        exact fun hrefuses => hstream ⟨contents, ⟨hasked, hcommands, hnone, hinput⟩, hrefuses⟩
      | terminal events => exact fun hrefuses => hrefuses.2 Text.isWellFormed_nil
    have hends : Ends (Breaks host environment input words journal)
        (runSession ⟨host, o.tree environment⟩ who input o) :=
      ends_runSession (breaks_of_hasZeroByte hread ho) hscript haccepts
    rcases hends journal with hok | ⟨b, herror, hb⟩
    · exact .inr hok
    · exact .inl ⟨b, hb, herror⟩

/-- **A completion ends well**, unless it breaks down for a listed reason. -/
theorem completion_exits (hread : Arguments.ofWords words = .ok a)
    (ho : Options.resolve host environment a = .ok o) {line : Text}
    (hasked : CallerCompletion.line? environment = .ok (some line)) :
    (∃ b, Breaks host environment input words journal b ∧
        (perform (o.session.completeForCaller ⟨host, o.tree environment⟩ line) journal).1 =
          .error b) ∨
      (perform (o.session.completeForCaller ⟨host, o.tree environment⟩ line) journal).1 =
        .ok () := by
  have hends : Ends (Breaks host environment input words journal)
      (o.session.namesForCaller ⟨host, o.tree environment⟩ line) :=
    Session.ends_namesForCaller (breaks_of_hasZeroByte hread ho) o.session line
  have hnames := hends journal
  unfold Session.completeForCaller
  cases hfound : perform (o.session.namesForCaller ⟨host, o.tree environment⟩ line) journal with
  | mk outcome after =>
    rw [hfound] at hnames
    cases outcome with
    | error b =>
      rw [Shell.perform_bind_of_error hfound]
      obtain ⟨a, ⟨⟩⟩ | ⟨b, ⟨⟩, hb⟩ := hnames
      exact .inl ⟨b, hb, rfl⟩
    | ok names =>
      rw [Shell.perform_bind_of_ok hfound, Shell.perform_writeLines]
      split
      · rename_i hrefused
        obtain ⟨hstrict, name, hname, hstray⟩ := hrefused
        exact .inl ⟨_, .unencodable hread ho hasked hstrict hfound hname hstray, rfl⟩
      · exact .inr rfl

/-- **With options and a place for the cursor a run ends with an exit code**, 0 or 1, unless it breaks
down for a listed reason. -/
theorem exists_run_of_options (hread : Arguments.ofWords words = .ok a)
    (ho : Options.resolve host environment a = .ok o) {asked : Option Text}
    (hasked : CallerCompletion.line? environment = .ok asked) :
    (∃ b, Breaks host environment input words journal b ∧
        ((run host who environment input words).run journal).1 = .error (.broken b)) ∨
      ∃ finish, ((run host who environment input words).run journal).1 = .ok finish ∧
        finish.code ≤ 1 := by
  cases asked with
  | none =>
    rw [run_of_session hread ho hasked]
    rcases session_exits hread ho hasked with ⟨b, hb, herror⟩ | ⟨finish, hfinish⟩
    · rw [herror]
      exact .inl ⟨b, hb, rfl⟩
    · have hcode := comesTo_runSession journal finish hfinish
      rw [hfinish]
      exact .inr ⟨finish, rfl, hcode⟩
  | some line =>
    rw [run_of_completion hread ho hasked]
    rcases completion_exits hread ho hasked with ⟨b, hb, herror⟩ | hok
    · rw [herror]
      exact .inl ⟨b, hb, rfl⟩
    · rw [hok]
      exact .inr ⟨{ code := 0 }, rfl, Nat.zero_le 1⟩

/-- **Refused bytes do undo a run.** -/
theorem run_of_breaks {b : Breakdown} (h : Breaks host environment input words journal b)
    (hstream : b ≠ .zeroByte) :
    ((run host who environment input words).run journal).1 = .error (.broken b) := by
  cases h with
  | zeroByte => exact absurd rfl hstream
  | undecodable read resolved reads refuses carriedOut goesOn =>
    rw [run_of_session read resolved reads.asked, reads.stream,
      runSession_of_refuses reads.commandless reads.scriptless refuses,
      Shell.perform_bind_of_ok carriedOut, Session.unlessEnded, if_neg goesOn]
    rfl
  | unencodable read resolved asked strict found offered stray =>
    rw [run_of_completion read resolved asked, Session.completeForCaller,
      Shell.perform_bind_of_ok found, Shell.perform_writeLines, if_pos ⟨strict, _, offered, stray⟩]

/-- **A run of the shell ends with an exit code of 0, 1 or 2**, whatever it is given, unless it
escapes or breaks down for a listed reason. It ends with 2 exactly where its options are refused in
words. -/
theorem run_exits (host : Host) (who : Prompt.Identity) (environment : List (Text × Text))
    (input : Input) (words : List Text) (journal : Journal) :
    let result := (run host who environment input words).run journal
    ((∃ abort, Escapes host environment words abort ∧ result = (.error abort, journal)) ∨
      (∃ b, Breaks host environment input words journal b ∧ result.1 = .error (.broken b)) ∨
      ∃ finish, result.1 = .ok finish ∧ finish.code ≤ 2 ∧
        (finish.code = 2 ↔ ∃ message, Rejects host environment words message)) ∧
    (∀ abort, Escapes host environment words abort → result = (.error abort, journal)) ∧
    (∀ b, Breaks host environment input words journal b → b ≠ .zeroByte →
      result.1 = .error (.broken b)) ∧
    ∀ message, Rejects host environment words message →
      result = (.ok { code := 2 }, { journal with
        err := journal.err ++ (Text.spellStrays ("error: " ++ message) ++ "\n") }) := by
  intro result
  refine ⟨?_, fun abort => run_of_escapes, fun b => run_of_breaks, fun message => run_of_rejects⟩
  cases hread : Arguments.ofWords words with
  | error stop =>
    have hescapes : Escapes host environment words (.stopped stop) := .stopped hread
    exact .inl ⟨_, hescapes, run_of_escapes hescapes⟩
  | ok a =>
    cases ho : Options.resolve host environment a with
    | error fault =>
      have hrefused := Options.resolve_eq_error_iff.mp ho
      cases hcomplaint : fault.complaint with
      | error abort =>
        have hescapes : Escapes host environment words abort := .options hread hrefused hcomplaint
        exact .inl ⟨abort, hescapes, run_of_escapes hescapes⟩
      | ok message =>
        have hrejects : Rejects host environment words message :=
          ⟨a, fault, hread, hrefused, hcomplaint⟩
        refine .inr (.inr ⟨{ code := 2 }, congrArg Prod.fst (run_of_rejects hrejects), ?_, ?_⟩)
        · exact Nat.le_refl 2
        · exact ⟨fun _ => ⟨message, hrejects⟩, fun _ => rfl⟩
    | ok o =>
      cases hline : CallerCompletion.line? environment with
      | error f =>
        obtain ⟨place, hplace⟩ := line?_eq_error_iff.mp hline
        have hescapes := Escapes.cursor hread ho hplace
        exact .inl ⟨_, hescapes, run_of_escapes hescapes⟩
      | ok line =>
        rcases exists_run_of_options hread ho hline with hbroken | ⟨finish, hfinish, hcode⟩
        · exact .inr (.inl hbroken)
        · refine .inr (.inr ⟨finish, hfinish, by omega, ?_⟩)
          constructor
          · intro htwo
            omega
          · rintro ⟨message, hrejects⟩
            exact absurd hrejects (not_rejects_of_options hread ho message)

/-- A strict input with a stray byte in its second line is refused before the first one is read. -/
example : ((run { Host.bare with setup := { isStrict := true } } ⟨[], []⟩ [("HOME", "/home")]
    (.stream [0x23, 0x0A, 0xFF, 0x0A]) []).run {}).1 = .error (.broken .undecodable) := by
  decide +kernel

theorem no_exit_of_error {result : Except Abort Finish} {abort : Abort}
    (h : result = .error abort) : ¬ ∃ finish, result = .ok finish ∧ finish.code ≤ 2 := by
  rintro ⟨finish, hfinish, -⟩
  rw [h] at hfinish
  cases hfinish

/-- **Three runs without an exit code**: a switch that there is not, a superscript for the place of
the cursor, and a configuration file that is not UTF-8. -/
theorem run_without_exit :
    (¬ ∃ finish, ((run Host.bare ⟨[], []⟩ [] (.stream []) ["--bogus"]).run {}).1 = .ok finish ∧
      finish.code ≤ 2) ∧
    (¬ ∃ finish, ((run Host.bare ⟨[], []⟩
        [("HOME", "/home"), ("COMP_LINE", "device sh"), ("COMP_POINT", "²")] (.stream []) []).run
        {}).1 = .ok finish ∧ finish.code ≤ 2) ∧
    ¬ ∃ finish, ((run { Host.bare with contents := fun _ => .ok [0xFF] } ⟨[], []⟩
        [("HOME", "/home")] (.stream []) ["exit"]).run {}).1 = .ok finish ∧ finish.code ≤ 2 := by
  refine ⟨?_, ?_, ?_⟩
  · have hbogus : ((run Host.bare ⟨[], []⟩ [] (.stream []) ["--bogus"]).run {}).1 =
        .error (.stopped (.fault (.unrecognized ["--bogus"]))) := by decide +kernel
    exact no_exit_of_error hbogus
  · have hcursor : ((run Host.bare ⟨[], []⟩
        [("HOME", "/home"), ("COMP_LINE", "device sh"), ("COMP_POINT", "²")] (.stream []) []).run
        {}).1 = .error (.cursor "²" .notDecimal) := by decide +kernel
    exact no_exit_of_error hcursor
  · have hconfig : ((run { Host.bare with contents := fun _ => .ok [0xFF] } ⟨[], []⟩
        [("HOME", "/home")] (.stream []) ["exit"]).run {}).1 = .error .notUtf8 := by decide +kernel
    exact no_exit_of_error hconfig

end ConfigShell.CommandLine
