import ConfigShell.Proofs.Effects
import ConfigShell.Proofs.Tree.Listed
import ConfigShell.Session.Command
/-!
# Walks come to sound nodes only

Every node that a walk comes to is sound: a container is at the place its names lead to, and a
command is a file behind a command listed there. Words are only compared with the names a sound
container offers, so no word gets into a path unless it is listed. One lemma a function follows
this from the top of the tree through a whole line, and says on the way which programs are
started: those that ask a sound command, and at the end the one that executes it.
-/

namespace ConfigShell

/-! ## Sound nodes -/

namespace Site

variable (site : Site)

/-- The container is where the names lead to, and offers what is listed there. -/
structure Places (names : List Text) (c : Container) : Prop where
  reaches : site.Reaches names
  libexec : c.libexec = site.directory names
  sysconf : c.sysconf = site.tree.sysconf.descend names
  containers : c.containers = (site.listing names).containers
  commands : c.commands = (site.listing names).commands
  files : c.files = (site.listing names).files

/-- The command is a file behind a listed command, and runs where the same names lead to. -/
def Offers (c : Command) : Prop :=
  ∃ names file, site.Reaches names ∧ site.Backs names file ∧
    c.executable = (site.directory names).child file ∧
    c.sysconf = site.tree.sysconf.descend names

/-- What holds of every node a walk comes to. -/
def Sound : Node → Prop
  | .container c => ∃ names, site.Places names c
  | .command c => site.Offers c
  | .parameter p => ∀ c, p.command = some c → site.Offers c
  | .builtin _ | .option _ _ | .ambiguous _ => True

/-- All the nodes down to where the walk stands are sound. -/
def SoundTo (l : Landing) : Prop := ∀ n ∈ l.node :: l.above, site.Sound n

/-- The call by which a command is asked about the last of the parameters. -/
def probe (c : Command) (parameters : List Parameter) : Call :=
  ⟨c.executable.toText, Probe.arguments parameters, c.sysconf.toText, site.tree.environment⟩

/-- The call by which a command is executed with the parameters. -/
def execution (c : Command) (parameters : List Parameter) : Call :=
  ⟨c.executable.toText, Execution.arguments parameters, c.sysconf.toText, site.tree.environment⟩

variable {site}

theorem SoundTo.enter {l : Landing} (h : site.SoundTo l) {n : Node} (hn : site.Sound n) :
    site.SoundTo (l.enter n) := List.forall_mem_cons.mpr ⟨hn, h⟩

theorem SoundTo.parent {l up : Landing} (h : site.SoundTo l) (hup : l.parent? = some up) :
    site.SoundTo up := by
  unfold Landing.parent? at hup
  split at hup
  · cases hup
  · rename_i node above habove
    cases hup
    intro n hn
    exact h n (List.mem_cons_of_mem _ (by rw [habove]; exact hn))

theorem Places.offers {names : List Text} {c : Container} (h : site.Places names c) {name : Text}
    (hname : name ∈ c.commands) (token : Option Line.Token) :
    site.Offers (c.command name token) := by
  rw [h.commands] at hname
  obtain ⟨file, hfile, hbacks⟩ := exists_backs hname
  refine ⟨names, file, h.reaches, hbacks, ?_, h.sysconf⟩
  simp [Container.command, h.libexec, h.files, hfile]

end Site

open Shell (Does does_pure does_throw OnSuccess onSuccess_ok onSuccess_error)

/-! ## Going down the tree -/

section Walking

variable {site : Site} {P : Call → Prop}

theorem does_containerAt {names : List Text} (h : site.Reaches names) (label : Label)
    (builtins : List Text) :
    Does P (site.Places names) (site.tree.containerAt site.host label (site.directory names)
      (site.tree.sysconf.descend names) builtins) := by
  rw [CommandTree.containerAt]
  refine Does.bind (Q := fun listing => listing = site.listing names) ?_ fun listing hlisting => ?_
  · exact (Shell.does_require _).bind fun _ _ => does_pure rfl
  · subst hlisting
    exact does_pure ⟨h, rfl, rfl, rfl, rfl, rfl⟩

theorem does_top : Does P (site.Places []) (site.tree.top site.host) :=
  does_containerAt .top _ _

theorem does_container {names : List Text} {c : Container} (h : site.Places names c) {name : Text}
    (hname : name ∈ c.containers) (token : Option Line.Token) :
    Does P (site.Places (names ++ [name])) (site.tree.container site.host c name token) := by
  rw [h.containers] at hname
  have hbelow := does_containerAt (P := P) (h.reaches.under hname)
    { name := some name, token := token } []
  simpa [CommandTree.container, h.libexec, h.sysconf, Site.directory] using hbelow

/-- **A word looked up in a sound container leads to a sound node.** -/
theorem does_lookUp {names : List Text} {c : Container} (h : site.Places names c) (word : Text)
    (token : Option Line.Token) :
    Does P (OnSuccess site.Sound) (c.lookUp site word token) := by
  have hcommand {name : Text} (hname : name ∈ c.commands) :
      Does P (OnSuccess site.Sound) (pure (.ok (.command (c.command name token))) :
        Shell (Except WordError Node)) :=
    does_pure (onSuccess_ok (h.offers hname token))
  have hcontainer {name : Text} (hname : name ∈ c.containers) :
      Does P (OnSuccess site.Sound) (do
        return (.ok (← Node.container <$> site.tree.container site.host c name token) :
          Except WordError Node)) := by
    have hnode := (does_container (P := P) h hname token).map (f := Node.container)
      (R := site.Sound) fun below hbelow => ⟨_, hbelow⟩
    exact hnode.bind fun n hn => does_pure (onSuccess_ok hn)
  unfold Container.lookUp
  split
  · exact does_pure (onSuccess_ok trivial)
  split
  · exact hcommand (by simp_all)
  split
  · exact hcontainer (by simp_all)
  -- a word that is no name may begin a single one
  have hbegun {names : List Text} {name : Text} (hone : Names.beginningWith word names = [name]) :
      name ∈ names := by
    have hmem : name ∈ Names.beginningWith word names := by simp [hone]
    exact (List.mem_filter.mp hmem).1
  dsimp only
  split
  · exact does_pure (onSuccess_error _)
  · exact does_pure (onSuccess_ok trivial)
  · rename_i hone _
    exact hcommand (hbegun hone)
  · rename_i hone
    exact hcontainer (hbegun hone)
  · exact does_pure (onSuccess_ok trivial)

/-! ## Parameters -/

/-- What a command answers changes neither which command a parameter belongs to, nor its name and
how it is completed, nor its value, nor whether it has a key. Without a key it does not become
required. -/
structure Probe.Keeps (p p' : Parameter) : Prop where
  toLabel : p'.toLabel = p.toLabel
  command : p'.command = p.command
  keyed : p'.key.isSome = p.key.isSome
  value : p'.value = p.value
  required : p.key = none → p'.isRequired = p.isRequired

namespace Probe

variable {p p' p'' : Parameter}

theorem Keeps.refl (p : Parameter) : Keeps p p := ⟨rfl, rfl, rfl, rfl, fun _ => rfl⟩

/-- A word without a key is not given one. -/
theorem Keeps.bare (h : Keeps p p') (hp : p.key = none) : p'.key = none := by
  have hkeyed := h.keyed
  rw [hp] at hkeyed
  simpa using hkeyed

theorem Keeps.trans (h : Keeps p p') (h' : Keeps p' p'') : Keeps p p'' where
  toLabel := h'.toLabel.trans h.toLabel
  command := h'.command.trans h.command
  keyed := h'.keyed.trans h.keyed
  value := h'.value.trans h.value
  required hp := (h'.required (h.bare hp)).trans (h.required hp)

theorem keeps_accept {token : Line.Token} {required : Bool}
    (h : accept p token required = some p') : Keeps p p' := by
  unfold accept acceptKeyed acceptBare at h
  repeat' split at h
  all_goals cases h
  all_goals exact ⟨rfl, rfl, by simp_all, rfl, by simp_all⟩

theorem keeps_takeLine (i : Intake) (line : Text) :
    Keeps i.parameter (i.takeLine line).parameter := by
  unfold Intake.takeLine
  split
  · exact .refl _
  split
  · exact ⟨rfl, rfl, rfl, rfl, fun _ => rfl⟩
  split
  · rename_i haccept
    exact keeps_accept haccept
  · exact .refl _

theorem keeps_takeEnded (i : Intake) (line : Text) :
    Keeps i.parameter (i.takeEnded line).parameter := by
  unfold Intake.takeEnded
  split
  · exact .refl _
  split
  · exact keeps_takeLine i line
  · exact .refl _

theorem keeps_feed (i : Intake) (piece : Text) : Keeps i.parameter (i.feed piece).parameter := by
  have hlines (lines : List Text) (i : Intake) :
      Keeps i.parameter (lines.foldl Intake.takeEnded i).parameter := by
    induction lines generalizing i with
    | nil => exact .refl _
    | cons line rest ih => exact (keeps_takeEnded i line).trans (ih _)
  have hrest (i : Intake) (rest : Text) : (i.keepRest rest).parameter = i.parameter := by
    unfold Intake.keepRest
    split <;> rfl
  rw [Intake.feed, hrest]
  exact hlines _ i

theorem keeps_receive (p : Parameter) (reply : Reply) : Keeps p (receive p reply) := by
  have hcollect : Keeps p (collect p reply.out) := keeps_feed { parameter := p } reply.out
  unfold receive
  dsimp only
  split <;> exact { hcollect with }

end Probe

theorem command_receive (p : Parameter) (reply : Reply) :
    (Probe.receive p reply).command = p.command := (Probe.keeps_receive p reply).command

/-- What is kept of an attempt to ask about a parameter. -/
def Probe.answered (p : Parameter) : Except RunFault Reply → Parameter
  | .error reason => { p with fault := some (.notProbed reason) }
  | .ok reply => receive p reply

theorem Probe.keeps_answered (p : Parameter) (r : Except RunFault Reply) :
    Probe.Keeps p (Probe.answered p r) := by
  cases r with
  | error reason => exact ⟨rfl, rfl, rfl, rfl, fun _ => rfl⟩
  | ok reply => exact keeps_receive p reply

/-- Asking about a parameter is running its command. -/
theorem probe_of_command {p : Parameter} {c : Command} (hc : p.command = some c) (host : Host)
    (environment : List (Text × Text)) (l : Landing) :
    Probe.run host environment l p = Probe.answered p <$> host.launch environment c.sysconf
      c.executable.toText (Probe.arguments (l.enter (.parameter p)).parameters) := by
  unfold Probe.run
  split
  · simp_all
  · rename_i c' hc'
    cases hc.symm.trans hc'
    rw [← bind_pure_comp]
    refine bind_congr fun r => ?_
    cases r <;> rfl

/-- Asking about a parameter starts its command, in no other way. -/
theorem does_probe {l : Landing} {p : Parameter} (hp : site.Sound (.parameter p))
    (hprobe : ∀ c parameters, site.Offers c → P (site.probe c parameters)) :
    Does P (fun p' => p'.command = p.command)
      (Probe.run site.host site.tree.environment l p) := by
  unfold Probe.run
  split
  · exact does_throw _
  · rename_i c hc
    refine (Shell.does_launch site.host (hprobe c _ (hp c hc))).bind fun r _ => ?_
    split
    · exact does_pure rfl
    · exact does_pure (command_receive _ _)

/-- Matching a parameter against its candidates keeps its command, or leaves it open what the word
means. -/
theorem matchCandidates_cases (p : Parameter) (word : Text) (token : Option Line.Token) :
    (∃ p', p.matchCandidates word token = .parameter p' ∧ p'.command = p.command) ∨
      ∃ a, p.matchCandidates word token = .ambiguous a := by
  unfold Parameter.matchCandidates Parameter.matchValue Parameter.matchWord
  dsimp only
  repeat' split
  all_goals first
    | exact .inl ⟨_, rfl, rfl⟩
    | exact .inr ⟨_, rfl⟩

theorem sound_matchCandidates {p : Parameter} (hp : site.Sound (.parameter p)) (word : Text)
    (token : Option Line.Token) : site.Sound (p.matchCandidates word token) := by
  rcases matchCandidates_cases p word token with ⟨p', hp', hsame⟩ | ⟨a, ha⟩
  · rw [hp']
    intro c hc
    exact hp c (hsame ▸ hc)
  · rw [ha]
    trivial

theorem does_resolveParameter {l : Landing} (hl : site.SoundTo l) {command : Command}
    (hcommand : site.Offers command) (word : Text) (token : Option Line.Token) {validate : Bool}
    (hprobe : validate = true → ∀ c parameters, site.Offers c → P (site.probe c parameters)) :
    Does P site.SoundTo (l.resolveParameter site command word token validate) := by
  have hp : site.Sound (.parameter (Parameter.ofWord command word token)) := by
    intro c hc
    cases hc
    exact hcommand
  unfold Landing.resolveParameter
  dsimp only
  split
  · exact does_pure (hl.enter hp)
  have hmatched {p : Parameter} (hp : site.Sound (.parameter p)) :
      Does P site.SoundTo (pure (l.enter (p.matchCandidates word token))) :=
    does_pure (hl.enter (sound_matchCandidates hp word token))
  split
  · rename_i hvalidate
    refine (does_probe hp (hprobe hvalidate)).bind fun p' hsame => hmatched fun c hc => ?_
    exact hp c (hsame ▸ hc)
  · exact hmatched hp

/-! ## Words and lines -/

/-- **A word leads from sound nodes to sound nodes**, and only a command that is asked is
started. -/
theorem does_resolve {l : Landing} (hl : site.SoundTo l) (word : Text)
    (token : Option Line.Token) {validate : Bool}
    (hprobe : validate = true → ∀ c parameters, site.Offers c → P (site.probe c parameters)) :
    Does P (OnSuccess site.SoundTo) (l.resolve site word token validate) := by
  have hnode : site.Sound l.node := hl l.node (by simp)
  have hparameter {c : Command} (hc : site.Offers c) :
      Does P (OnSuccess site.SoundTo)
        (Except.ok (ε := WordError) <$> l.resolveParameter site c word token validate) :=
    (does_resolveParameter hl hc word token hprobe).map fun next hnext => onSuccess_ok hnext
  unfold Landing.resolve
  split
  · rename_i c hc
    rw [hc] at hnode
    obtain ⟨names, hplaces⟩ := hnode
    -- only going up leads to a node that was there before
    split
    · split
      · rename_i up hup
        exact does_pure (onSuccess_ok (hl.parent hup))
      · exact does_pure (onSuccess_error _)
    · refine (does_lookUp hplaces word token).map fun r hr => ?_
      cases r with
      | error e => exact onSuccess_error e
      | ok n => exact onSuccess_ok (hl.enter (hr n rfl))
  · rename_i c hc
    rw [hc] at hnode
    exact hparameter hnode
  · rename_i p hp
    rw [hp] at hnode
    split
    · rename_i c hc
      exact hparameter (hnode c hc)
    · exact does_throw _
  · exact does_pure (onSuccess_ok (hl.enter trivial))
  · exact does_pure (onSuccess_ok (hl.enter trivial))
  · exact does_pure (onSuccess_error _)

/-- Following a saved path asks no command. -/
theorem does_replay {l : Landing} (hl : site.SoundTo l) (path : List Text) :
    Does P (OnSuccess site.SoundTo) (Walk.replay site l path) := by
  induction path generalizing l with
  | nil => exact does_pure (onSuccess_ok hl)
  | cons name rest ih =>
    unfold Walk.replay
    have hnext : Does P (OnSuccess site.SoundTo) (l.resolve site name) :=
      does_resolve hl name none nofun
    refine hnext.bind fun r hr => ?_
    split
    · exact does_pure (onSuccess_error _)
    · exact ih (hr _ rfl)

theorem does_start (path : List Text) (fromTop : Bool) :
    Does P (OnSuccess site.SoundTo) (Walk.start site path fromTop) := by
  unfold Walk.start Walk.top
  refine Does.bind (Q := site.SoundTo) ?_ fun l hl => does_replay hl _
  refine does_top.bind fun c hc => does_pure ?_
  intro n hn
  rw [List.mem_singleton.mp hn]
  exact ⟨[], hc⟩

/-- **The words of a line lead from sound nodes to sound nodes.** -/
theorem does_words {l : Landing} (hl : site.SoundTo l) (tokens : List Line.Token) {validate : Bool}
    (hprobe : validate = true → ∀ c parameters, site.Offers c → P (site.probe c parameters)) :
    Does P (fun walk => site.SoundTo walk.landing) (Walk.words site validate l tokens) := by
  induction tokens generalizing l with
  | nil => exact does_pure hl
  | cons token rest ih =>
    unfold Walk.words
    refine (does_resolve hl token.data (some token) hprobe).bind fun r hr => ?_
    split
    · exact does_pure hl
    · exact (ih (hr _ rfl)).bind fun walk hwalk => does_pure hwalk

theorem does_line (path : List Text) (lexed : Line.Lexed) {validate : Bool} (probeNext : Bool)
    (hprobe : validate = true → ∀ c parameters, site.Offers c → P (site.probe c parameters)) :
    Does P (OnSuccess fun walk => site.SoundTo walk.landing)
      (Walk.line site path lexed validate probeNext) := by
  unfold Walk.line
  dsimp only
  refine (does_start path _).bind fun r hr => ?_
  split
  · exact does_pure (onSuccess_error _)
  · exact (does_words (hr _ rfl) _ hprobe).bind fun walk hwalk => does_pure (onSuccess_ok hwalk)

/-- Where a walk that has to reach the end led. -/
theorem onSuccess_settle {r : Except Text Walk}
    (h : OnSuccess (fun walk => site.SoundTo walk.landing) r) :
    OnSuccess (fun resolution => ∀ l, resolution.landing = some l → site.SoundTo l)
      (Walk.settle r) := by
  unfold Walk.settle
  split
  · exact onSuccess_error _
  split
  · exact onSuccess_error _
  · rename_i walk _ _
    refine onSuccess_ok fun l hl => ?_
    cases hl
    exact h walk rfl

/-! ## Sessions -/

theorem does_resolveLine (s : Session) (lexed : Line.Lexed) {validate : Bool}
    (hprobe : validate = true → ∀ c parameters, site.Offers c → P (site.probe c parameters)) :
    Does P (OnSuccess fun resolution => ∀ l, resolution.landing = some l → site.SoundTo l)
      (s.resolve site lexed validate) := by
  unfold Session.resolve
  split
  · exact does_pure (onSuccess_ok fun l hl => by cases hl)
  · exact (does_line s.path lexed false hprobe).map fun r hr => onSuccess_settle hr

theorem does_complete (s : Session) (lexed : Line.Lexed)
    (hprobe : ∀ c parameters, site.Offers c → P (site.probe c parameters)) :
    Does P (OnSuccess fun resolution => ∀ l, resolution.landing = some l → site.SoundTo l)
      (s.complete site lexed) := by
  unfold Session.complete
  split
  · exact does_pure (onSuccess_ok fun l hl => by cases hl)
  · exact (does_line s.path lexed true fun _ => hprobe).map fun r hr => onSuccess_settle hr

/-- The command that parameters belong to is the nearest node that is none. -/
theorem offers_of_command? {l : Landing} (hl : site.SoundTo l) {c : Command}
    (h : l.command? = some c) : site.Offers c := by
  obtain ⟨n, hn, hc⟩ := Option.bind_eq_some_iff.mp h
  -- what is left after the parameters are dropped was on the way down before
  have hmem := (List.dropWhile_sublist _).subset (List.mem_of_mem_head? hn)
  have hsound := hl n hmem
  cases n with
  | command c' => cases hc; exact hsound
  | _ => cases hc

theorem command?_of_plan {l : Landing} {c : Command} {words : List Text}
    (h : Execution.plan l = .ok (c, words)) :
    l.command? = some c ∧ words = Execution.arguments l.parameters := by
  unfold Execution.plan at h
  split at h
  · cases h
  · rename_i c' hc
    split at h
    · cases h
    · cases h
      exact ⟨hc, rfl⟩

namespace Execution

/-- What is done when an attempt to execute has been made. -/
def ended : Except RunFault Reply → Shell (Except ExecutionFault Unit)
  | .error reason => return .error (.failed reason)
  | .ok reply => do
    Shell.print reply.out
    Shell.printError reply.err
    match reply.ending.fault? with
    | some reason => return .error (.failed reason)
    | none => return .ok ()

/-- Executing what is planned is making an attempt, and then what is done about it. -/
theorem run_of_plan {l : Landing} {c : Command} {arguments : List Text}
    (h : plan l = .ok (c, arguments)) (host : Host) (environment : List (Text × Text)) :
    run host environment l =
      host.launch environment c.sysconf c.executable.toText arguments >>= ended := by
  unfold run
  rw [h]
  refine bind_congr fun answer => ?_
  cases answer <;> rfl

theorem run_of_fault {l : Landing} {fault : ExecutionFault} (h : plan l = .error fault)
    (host : Host) (environment : List (Text × Text)) :
    run host environment l = pure (.error fault) := by
  unfold run
  rw [h]

theorem startsNothing_ended (answer : Except RunFault Reply) :
    Shell.StartsNothing (ended answer) := by
  cases answer with
  | error reason => exact (Shell.isQuiet_pure _).startsNothing
  | ok reply =>
    refine (Shell.startsNothing_print _).bind fun _ =>
      (Shell.startsNothing_printError _).bind fun _ => ?_
    split <;> exact (Shell.isQuiet_pure _).startsNothing

theorem does_ended (answer : Except RunFault Reply) : Does P (fun _ => True) (ended answer) := by
  cases answer with
  | error reason => exact does_pure trivial
  | ok reply =>
    refine (Shell.does_print _).bind fun _ _ => (Shell.does_printError _).bind fun _ _ => ?_
    split <;> exact does_pure trivial

end Execution

theorem does_execute {l : Landing} (hl : site.SoundTo l)
    (hexecution : ∀ c parameters, site.Offers c → P (site.execution c parameters)) :
    Does P (fun _ => True) (Execution.run site.host site.tree.environment l) := by
  cases hplan : Execution.plan l with
  | error fault =>
    rw [Execution.run_of_fault hplan]
    exact does_pure trivial
  | ok planned =>
    obtain ⟨c, words⟩ := planned
    obtain ⟨hc, rfl⟩ := command?_of_plan hplan
    have hcall := hexecution c l.parameters (offers_of_command? hl hc)
    rw [Execution.run_of_plan hplan]
    exact (Shell.does_launch site.host hcall).bind fun answer _ => Execution.does_ended answer

theorem does_complainOfWord (lexed : Line.Lexed) (number : Option Int) (e : WordError) :
    Does P (fun _ => True) (Session.complainOfWord lexed number e) := Shell.does_printError _

/-- What becomes of a line after it has been executed. -/
def Session.report (s : Session) : Except ExecutionFault Unit → Shell (Outcome × Session)
  | .ok () => return (.goOn, s)
  | .error fault => do
    Shell.complain fault.report
    return (.error, s)

theorem does_dispatch (s : Session) {l : Landing} (hl : site.SoundTo l) (lexed : Line.Lexed)
    (number : Option Int)
    (hexecution : ∀ c parameters, site.Offers c → P (site.execution c parameters)) :
    Does P (fun _ => True) (s.dispatch site l lexed number) := by
  have hrun : Does P (fun _ => True)
      (Execution.run site.host site.tree.environment l >>= s.report) := by
    refine (does_execute hl hexecution).bind fun r _ => ?_
    cases r with
    | ok _ => exact does_pure trivial
    | error fault => exact (Shell.does_printError _).bind fun _ _ => does_pure trivial
  unfold Session.dispatch
  split
  · exact does_pure trivial
  · exact hrun
  · exact hrun
  · exact does_pure trivial
  · exact does_pure trivial
  · exact (does_complainOfWord _ _ _).bind fun _ _ => does_pure trivial

/-- **A line starts only the commands that it asks and the one that it executes.** -/
theorem does_command (s : Session) (lexed : Line.Lexed) (number : Option Int)
    (hprobe : ∀ c parameters, site.Offers c → P (site.probe c parameters))
    (hexecution : ∀ c parameters, site.Offers c → P (site.execution c parameters)) :
    Does P (fun _ => True) (s.command site lexed number) := by
  unfold Session.command
  split
  · exact does_pure trivial
  refine (does_resolveLine s lexed fun _ => hprobe).bind fun r hr => ?_
  split
  · exact (Shell.does_printError _).bind fun _ _ => does_pure trivial
  · exact (does_complainOfWord _ _ _).bind fun _ _ => does_pure trivial
  · exact does_pure trivial
  · have hdispatch := does_dispatch s (hr _ rfl _ rfl) lexed number hexecution
    dsimp only
    split
    · exact (Shell.does_printError _).bind fun _ _ => hdispatch
    · exact hdispatch

end Walking

end ConfigShell
