import Mathlib.Data.List.Forall2
import ConfigShell.Proofs.Alike
import ConfigShell.Proofs.Tree.Leading
/-!
# What a walk does not depend on

A node keeps the word that led to it and what would complete that word. Both are there for reports
and suggestions: where further words lead, what is asked and what is executed depends on neither.
The `bare` form of a node is the node without them. Walks that stand at landings with the same bare
form take words of the same bytes, with their first equals sign in the same place, alike
(`Walk.alike_words`), wherever in a line the words stand.
-/

namespace ConfigShell

open Shell (Alike alike_pure alike_throw alike_print alike_printError alike_launch)

/-! ## Bare nodes -/

/-- A label with its name alone. -/
def Label.bare (l : Label) : Label := { name := l.name }

def Container.bare (c : Container) : Container := { c with toLabel := c.toLabel.bare }

def Command.bare (c : Command) : Command := { c with toLabel := c.toLabel.bare }

def Parameter.bare (p : Parameter) : Parameter :=
  { p with toLabel := p.toLabel.bare, command := p.command.map Command.bare }

def Ambiguity.bare (a : Ambiguity) : Ambiguity := { a with toLabel := a.toLabel.bare }

namespace Node

/-- A node without the word that led to it. -/
def bare : Node → Node
  | container c => .container c.bare
  | command c => .command c.bare
  | parameter p => .parameter p.bare
  | builtin b => .builtin b.bare
  | option o owner => .option o.bare (owner.map Command.bare)
  | ambiguous a => .ambiguous a.bare

@[simp]
theorem name_bare (n : Node) : n.bare.name = n.name := by cases n <;> rfl

@[simp]
theorem kind_bare (n : Node) : n.bare.kind = n.kind := by cases n <;> rfl

@[simp]
theorem parameter?_bare (n : Node) : n.bare.parameter? = n.parameter?.map Parameter.bare := by
  cases n <;> rfl

@[simp]
theorem command?_bare (n : Node) : n.bare.command? = n.command?.map Command.bare := by
  cases n <;> rfl

/-- Two nodes of one kind, of parts with the same bare form. -/
inductive Matches : Node → Node → Prop
  | container {c c' : Container} (same : c.bare = c'.bare) : Matches (.container c) (.container c')
  | command {c c' : Command} (same : c.bare = c'.bare) : Matches (.command c) (.command c')
  | parameter {p p' : Parameter} (same : p.bare = p'.bare) : Matches (.parameter p) (.parameter p')
  | builtin (b b' : Label) : Matches (.builtin b) (.builtin b')
  | option (o o' : Label) {owner owner' : Option Command}
      (same : owner.map Command.bare = owner'.map Command.bare) :
      Matches (.option o owner) (.option o' owner')
  | ambiguous (a a' : Ambiguity) : Matches (.ambiguous a) (.ambiguous a')

/-- **Nodes with the same bare form match.** -/
theorem matches_of_bare_eq {n n' : Node} (h : n.bare = n'.bare) : Matches n n' := by
  cases n with
  | container c =>
    cases n' with
    | container c' => exact .container (Node.container.inj h)
    | command | parameter | builtin | option | ambiguous => simp [bare] at h
  | command c =>
    cases n' with
    | command c' => exact .command (Node.command.inj h)
    | container | parameter | builtin | option | ambiguous => simp [bare] at h
  | parameter p =>
    cases n' with
    | parameter p' => exact .parameter (Node.parameter.inj h)
    | container | command | builtin | option | ambiguous => simp [bare] at h
  | builtin b =>
    cases n' with
    | builtin b' => exact .builtin b b'
    | container | command | parameter | option | ambiguous => simp [bare] at h
  | option o owner =>
    cases n' with
    | option o' owner' => exact .option o o' (Node.option.inj h).2
    | container | command | parameter | builtin | ambiguous => simp [bare] at h
  | ambiguous a =>
    cases n' with
    | ambiguous a' => exact .ambiguous a a'
    | container | command | parameter | builtin | option => simp [bare] at h

end Node

namespace Landing

variable {l l' : Landing}

/-- A landing without the words that led to it. -/
def bare (l : Landing) : Landing := ⟨l.node.bare, l.above.map Node.bare⟩

theorem bare_enter (l : Landing) (n : Node) : (l.enter n).bare = l.bare.enter n.bare := rfl

theorem node_bare_eq (h : l.bare = l'.bare) : l.node.bare = l'.node.bare :=
  congrArg Landing.node h

theorem enter_bare_eq (h : l.bare = l'.bare) {n n' : Node} (hn : n.bare = n'.bare) :
    (l.enter n).bare = (l'.enter n').bare := by
  rw [bare_enter, bare_enter, h, hn]

theorem chain_bare (l : Landing) : l.bare.chain = l.chain.map Node.bare := by
  simp [chain, bare]

theorem parent?_bare (l : Landing) : l.bare.parent? = l.parent?.map bare := by
  obtain ⟨node, above⟩ := l
  cases above <;> rfl

theorem path_bare (l : Landing) : l.bare.path = l.path := by
  simp [path, chain_bare, List.filterMap_map]

theorem parameters_bare (l : Landing) : l.bare.parameters = l.parameters.map Parameter.bare := by
  have hnodes : (l.bare.node :: l.bare.above) = (l.node :: l.above).map Node.bare := rfl
  rw [parameters, parameters, hnodes, List.takeWhile_map, List.filterMap_map]
  simp [Function.comp_def, List.map_filterMap]

theorem command?_landing_bare (l : Landing) :
    l.bare.command? = l.command?.map Command.bare := by
  have hnodes : (l.bare.node :: l.bare.above) = (l.node :: l.above).map Node.bare := rfl
  rw [command?, command?, hnodes, List.dropWhile_map, List.head?_map]
  simp only [Function.comp_def, Node.parameter?_bare, Option.isSome_map]
  cases ((l.node :: l.above).dropWhile (·.parameter?.isSome)).head? <;> simp

theorem endsSession_bare (l : Landing) : l.bare.endsSession = l.endsSession := by
  unfold endsSession
  rw [chain_bare]
  match l.chain with
  | [] | [_] => rfl
  | first :: second :: rest =>
    cases second with
    | builtin b =>
      show (first.bare.kind != .builtin && b.name.any rootBuiltins.contains) = _
      rw [Node.kind_bare]
    | container | command | parameter | option | ambiguous => rfl

end Landing

/-! ## Executing -/

namespace Parameter

@[simp]
theorem pair_bare (p : Parameter) : p.bare.pair = p.pair := rfl

theorem words_map_bare (ps : List Parameter) : words (ps.map bare) = words ps := by
  simp [words, List.flatMap_map]

end Parameter

namespace Execution

theorem faulty?_map_bare (ps : List Parameter) : faulty? (ps.map Parameter.bare) = faulty? ps := by
  simp [faulty?, ← List.map_reverse, List.findSome?_map, Function.comp_def, Parameter.bare]

theorem plan_bare (l : Landing) :
    plan l.bare = (plan l).map fun planned => (planned.1.bare, planned.2) := by
  unfold plan
  rw [Landing.command?_landing_bare, Landing.parameters_bare, faulty?_map_bare]
  cases l.command? with
  | none => simp [Landing.bare, Except.map]
  | some c =>
    cases faulty? l.parameters with
    | some fault => rfl
    | none => simp [arguments, Parameter.words_map_bare, Except.map]

/-- What is executed does not depend on the words that led there. -/
theorem run_bare (host : Host) (environment : List (Text × Text)) (l : Landing) :
    run host environment l.bare = run host environment l := by
  unfold run
  rw [plan_bare]
  cases plan l <;> rfl

theorem alike_run (host : Host) (environment : List (Text × Text)) (l : Landing) :
    Alike (· = ·) (run host environment l) (run host environment l) := by
  cases hplan : plan l with
  | error fault =>
    rw [run_of_fault hplan]
    exact alike_pure rfl
  | ok planned =>
    rw [run_of_plan hplan]
    refine (alike_launch host environment _ _ _).bind ?_
    rintro answer _ rfl
    cases answer with
    | error reason => exact alike_pure rfl
    | ok reply =>
      refine (alike_print _ _).bind fun _ _ _ => (alike_printError _ _).bind fun _ _ _ => ?_
      split <;> exact alike_pure rfl

end Execution

/-! ## Asking -/

namespace Probe

theorem accept_bare (p : Parameter) (token : Line.Token) (required : Bool) :
    accept p.bare token required = (accept p token required).map Parameter.bare := by
  unfold accept acceptKeyed acceptBare
  cases hkey : p.key with
  | some typed =>
    have hbare : p.bare.key = some typed := hkey
    simp only [hbare]
    repeat' split
    all_goals rfl
  | none =>
    have hbare : p.bare.key = none := hkey
    simp only [hbare]
    repeat' split
    all_goals simp_all [Parameter.bare]

/-- An intake for a bare parameter. -/
def Intake.bare (i : Intake) : Intake := { i with parameter := i.parameter.bare }

theorem Intake.takeLine_bare (i : Intake) (line : Text) :
    i.bare.takeLine line = (i.takeLine line).bare := by
  unfold takeLine
  cases candidate? line with
  | none => rfl
  | some candidate =>
    obtain ⟨token, required⟩ := candidate
    by_cases hfull : maxCandidates ≤ i.count
    · simp only [bare, hfull, if_true]
      rfl
    · simp only [bare, hfull, if_false, accept_bare]
      cases accept i.parameter token required <;> rfl

theorem Intake.takeEnded_bare (i : Intake) (line : Text) :
    i.bare.takeEnded line = (i.takeEnded line).bare := by
  rw [takeEnded, takeEnded, takeLine_bare, apply_ite bare, apply_ite bare]
  rfl

theorem Intake.feed_bare (i : Intake) (piece : Text) : i.bare.feed piece = (i.feed piece).bare := by
  have hlines (lines : List Text) (i : Intake) :
      lines.foldl takeEnded i.bare = (lines.foldl takeEnded i).bare := by
    induction lines generalizing i with
    | nil => rfl
    | cons line rest ih => rw [List.foldl_cons, List.foldl_cons, takeEnded_bare, ih]
  have hrest (i : Intake) (rest : Text) : i.bare.keepRest rest = (i.keepRest rest).bare := by
    unfold keepRest
    split <;> rfl
  rw [feed, feed]
  show (List.foldl takeEnded i.bare _).keepRest _ = _
  rw [hlines, hrest]
  rfl

theorem receive_bare (p : Parameter) (reply : Reply) :
    receive p.bare reply = (receive p reply).bare := by
  have hcollect : collect p.bare reply.out = (collect p reply.out).bare :=
    congrArg Intake.parameter (Intake.feed_bare { parameter := p } reply.out)
  unfold receive
  rw [hcollect]
  dsimp only
  split <;> rfl

theorem answered_bare (p : Parameter) (r : Except RunFault Reply) :
    answered p.bare r = (answered p r).bare := by
  cases r with
  | error reason => rfl
  | ok reply => exact receive_bare p reply

theorem run_of_noCommand {p : Parameter} (hc : p.command = none) (host : Host)
    (environment : List (Text × Text)) (l : Landing) :
    run host environment l p = throw .noCommand := by
  unfold run
  rw [hc]

/-- **Asking is alike** about parameters with the same bare form, below landings with the same. -/
theorem alike_run (host : Host) (environment : List (Text × Text)) {l l' : Landing}
    (hl : l.bare = l'.bare) {p p' : Parameter} (hp : p.bare = p'.bare) :
    Alike (fun q q' => q.bare = q'.bare) (run host environment l p)
      (run host environment l' p') := by
  have hwords : arguments (l.enter (.parameter p)).parameters =
      arguments (l'.enter (.parameter p')).parameters := by
    have hnode : (Node.parameter p).bare = (Node.parameter p').bare := congrArg Node.parameter hp
    have henter := Landing.enter_bare_eq hl hnode
    have hparameters := congrArg Landing.parameters henter
    rw [Landing.parameters_bare, Landing.parameters_bare] at hparameters
    rw [arguments, arguments, ← Parameter.words_map_bare, hparameters, Parameter.words_map_bare]
  have hcommand : p.command.map Command.bare = p'.command.map Command.bare :=
    congrArg Parameter.command hp
  have hanswered (r : Except RunFault Reply) : (answered p r).bare = (answered p' r).bare := by
    rw [← answered_bare, ← answered_bare, hp]
  cases hc : p.command with
  | none =>
    have hc' : p'.command = none := by simpa [hc] using hcommand.symm
    rw [run_of_noCommand hc, run_of_noCommand hc']
    exact alike_throw _
  | some c =>
    obtain ⟨c', hc', hbare⟩ : ∃ c', p'.command = some c' ∧ c'.bare = c.bare := by
      simpa [hc] using hcommand.symm
    have hexecutable : c'.executable = c.executable := (congrArg Command.executable hbare :)
    have hsysconf : c'.sysconf = c.sysconf := (congrArg Command.sysconf hbare :)
    rw [probe_of_command hc, probe_of_command hc', hwords, hexecutable, hsysconf]
    refine (alike_launch host environment _ _ _).map ?_
    rintro r _ rfl
    exact hanswered r

end Probe

/-! ## Words -/

/-- Words of the same bytes, with their first equals sign in the same place. -/
structure Line.Token.SameWord (t t' : Line.Token) : Prop where
  data : t.data = t'.data
  equals : t.equals = t'.equals

theorem Line.Token.SameWord.splitEquals_eq {t t' : Line.Token} (h : t.SameWord t') :
    t.splitEquals = t'.splitEquals := by
  unfold Line.Token.splitEquals
  rw [h.data, h.equals]

namespace Container

theorem alike_containerAt (tree : CommandTree) (host : Host) {label label' : Label}
    (hlabel : label.bare = label'.bare) (libexec sysconf : Path) (builtins : List Text) :
    Alike (fun c c' => c.bare = c'.bare)
      (tree.containerAt host label libexec sysconf builtins)
      (tree.containerAt host label' libexec sysconf builtins) := by
  have hquiet : Shell.IsQuiet (Listing.ofDirectory host tree.suffixes libexec) :=
    (Shell.isQuiet_require _).bind fun _ => Shell.isQuiet_pure _
  unfold CommandTree.containerAt
  refine hquiet.alike.bind ?_
  rintro listing _ rfl
  refine alike_pure ?_
  simp only [bare, hlabel]

variable {c c' : Container}

theorem bare_command (h : c.bare = c'.bare) (name : Text) (token token' : Option Line.Token) :
    (c.command name token).bare = (c'.command name token').bare := by
  have hlibexec : c.libexec = c'.libexec := (congrArg Container.libexec h :)
  have hsysconf : c.sysconf = c'.sysconf := (congrArg Container.sysconf h :)
  have hfiles : c.files = c'.files := (congrArg Container.files h :)
  simp only [command, Command.bare, Label.bare, hlibexec, hsysconf, hfiles]

/-- **Looking a word up is alike** in containers with the same bare form. -/
theorem alike_lookUp (site : Site) (h : c.bare = c'.bare) (word : Text)
    (token token' : Option Line.Token) :
    Alike (OnBoth fun n n' => n.bare = n'.bare) (c.lookUp site word token)
      (c'.lookUp site word token') := by
  have hbuiltins : c'.builtins = c.builtins := (congrArg Container.builtins h.symm :)
  have hcommands : c'.commands = c.commands := (congrArg Container.commands h.symm :)
  have hcontainers : c'.containers = c.containers := (congrArg Container.containers h.symm :)
  have hlibexec : c'.libexec = c.libexec := (congrArg Container.libexec h.symm :)
  have hsysconf : c'.sysconf = c.sysconf := (congrArg Container.sysconf h.symm :)
  have hcommand (name : Text) : Alike (OnBoth fun n n' => n.bare = n'.bare)
      (pure (.ok (.command (c.command name token))) : Shell (Except WordError Node))
      (pure (.ok (.command (c'.command name token'))) : Shell (Except WordError Node)) :=
    alike_pure (.ok (congrArg Node.command (bare_command h name token token')))
  have hcontainer (name : Text) : Alike (OnBoth fun n n' => n.bare = n'.bare)
      (do return .ok (← Node.container <$> site.tree.container site.host c name token) :
        Shell (Except WordError Node))
      (do return .ok (← Node.container <$> site.tree.container site.host c' name token') :
        Shell (Except WordError Node)) := by
    have hmade : Alike (fun below below' => below.bare = below'.bare)
        (site.tree.container site.host c name token)
        (site.tree.container site.host c' name token') := by
      unfold CommandTree.container
      rw [hlibexec, hsysconf]
      have hlabel : Label.bare { name := some name, token := token } =
          Label.bare { name := some name, token := token' } := rfl
      exact alike_containerAt _ _ hlabel _ _ _
    have hnode : Alike (fun n n' => n.bare = n'.bare)
        (Node.container <$> site.tree.container site.host c name token)
        (Node.container <$> site.tree.container site.host c' name token') :=
      hmade.map fun below below' hbelow => congrArg Node.container hbelow
    exact hnode.bind fun n n' hn => alike_pure (.ok hn)
  unfold lookUp
  simp only [ambiguity, hbuiltins, hcommands, hcontainers]
  split
  · exact alike_pure (.ok rfl)
  split
  · exact hcommand word
  split
  · exact hcontainer word
  split
  · exact alike_pure (.error _ _)
  · exact alike_pure (.ok rfl)
  · exact hcommand _
  · exact hcontainer _
  · exact alike_pure (.ok rfl)

end Container

namespace Parameter

/-- What a word means below a command depends on its bytes and its first equals sign. -/
theorem ofWord_bare_eq {c c' : Command} (hc : c.bare = c'.bare) {t t' : Line.Token}
    (ht : t.SameWord t') :
    (ofWord c t.data (some t)).bare = (ofWord c' t'.data (some t')).bare := by
  simp only [ofWord, Option.getD_some, ht.splitEquals_eq, bare, Label.bare, Option.map_some, hc,
    ht.data]

theorem bare_bare (p : Parameter) : p.bare.bare = p.bare := by
  have hcommand : Command.bare ∘ Command.bare = Command.bare := rfl
  simp only [bare, Label.bare, Option.map_map, hcommand]

theorem matchValue_bare (p : Parameter) (key word : Text) (token token' : Option Line.Token) :
    (p.bare.matchValue key word token').bare = (p.matchValue key word token).bare := by
  have hvalue : p.bare.value = p.value := rfl
  have hvalues : p.bare.values = p.values := rfl
  unfold matchValue
  simp only [hvalue, hvalues]
  split
  · exact congrArg Node.parameter p.bare_bare
  split
  · exact congrArg Node.parameter p.bare_bare
  · rename_i value _
    exact congrArg (fun q : Parameter => Node.parameter
      { q with value := value, name := some (key ++ "=" ++ value) }) p.bare_bare
  · rfl

theorem completeKey_bare (p : Parameter) (key : Text) (required : Bool) :
    (p.bare.completeKey key required).bare = (p.completeKey key required).bare :=
  congrArg (fun q : Parameter =>
    { q with isRequired := required, key := some key, value := [], name := some key }) p.bare_bare

theorem matchWord_bare (p : Parameter) (word : Text) (token token' : Option Line.Token) :
    (p.bare.matchWord word token').bare = (p.matchWord word token).bare := by
  have hkeys : p.bare.keys = p.keys := rfl
  have hrequired : p.bare.requiredKeys = p.requiredKeys := rfl
  have hvalues : p.bare.values = p.values := rfl
  unfold matchWord
  simp only [hkeys, hrequired, hvalues]
  split
  · exact congrArg (fun q : Parameter => Node.parameter { q with isRequired := true }) p.bare_bare
  split
  · exact congrArg Node.parameter p.bare_bare
  split
  · exact congrArg Node.parameter p.bare_bare
  · exact congrArg Node.parameter (p.completeKey_bare _ _)
  · exact congrArg Node.parameter (p.completeKey_bare _ _)
  · rename_i value _ _ _
    exact congrArg (fun q : Parameter => Node.parameter
      { q with value := value, name := some value }) p.bare_bare
  · rfl

/-- Matching against the candidates does not depend on the token. -/
theorem matchCandidates_bare_eq {p p' : Parameter} (h : p.bare = p'.bare) (word : Text)
    (token token' : Option Line.Token) :
    (p.matchCandidates word token).bare = (p'.matchCandidates word token').bare := by
  have hkey : p'.key = p.key := (congrArg Parameter.key h.symm :)
  unfold matchCandidates
  rw [hkey]
  split
  · rw [← p.matchValue_bare _ _ _ none, h, p'.matchValue_bare]
  · rw [← p.matchWord_bare _ _ none, h, p'.matchWord_bare]

end Parameter

namespace Landing

variable {l l' : Landing} {t t' : Line.Token}

theorem alike_resolveParameter (site : Site) (hl : l.bare = l'.bare) {c c' : Command}
    (hc : c.bare = c'.bare) (ht : t.SameWord t') (validate : Bool) :
    Alike (fun next next' => next.bare = next'.bare)
      (l.resolveParameter site c t.data (some t) validate)
      (l'.resolveParameter site c' t'.data (some t') validate) := by
  have hp := Parameter.ofWord_bare_eq hc ht
  have hfault : (Parameter.ofWord c t.data (some t)).fault =
      (Parameter.ofWord c' t'.data (some t')).fault := (congrArg Parameter.fault hp :)
  have hmatched {p p' : Parameter} (h : p.bare = p'.bare) :
      Alike (fun next next' => next.bare = next'.bare)
        (pure (l.enter (p.matchCandidates t.data (some t))) : Shell Landing)
        (pure (l'.enter (p'.matchCandidates t'.data (some t'))) : Shell Landing) := by
    rw [← ht.data]
    exact alike_pure (enter_bare_eq hl (Parameter.matchCandidates_bare_eq h _ _ _))
  unfold resolveParameter
  dsimp only
  rw [hfault]
  split
  · exact alike_pure (enter_bare_eq hl (congrArg Node.parameter hp))
  cases validate with
  | false => exact hmatched hp
  | true => exact (Probe.alike_run _ _ hl hp).bind fun p p' h => hmatched h

/-- The way up is alike. -/
theorem alike_parent? (hl : l.bare = l'.bare) (e e' : WordError) :
    Alike (OnBoth fun next next' => next.bare = next'.bare)
      (match l.parent? with
        | some up => pure (.ok up)
        | none => pure (.error e) : Shell (Except WordError Landing))
      (match l'.parent? with
        | some up => pure (.ok up)
        | none => pure (.error e') : Shell (Except WordError Landing)) := by
  have hup := congrArg parent? hl
  rw [parent?_bare, parent?_bare] at hup
  cases h : l.parent? with
  | none =>
    have h' : l'.parent? = none := by simpa [h] using hup.symm
    rw [h']
    exact alike_pure (.error _ _)
  | some up =>
    obtain ⟨up', h', hbare⟩ : ∃ up', l'.parent? = some up' ∧ up'.bare = up.bare := by
      simpa [h] using hup.symm
    rw [h']
    exact alike_pure (.ok hbare.symm)

/-- In a container only the bytes of a word matter, and no command is asked about it. -/
theorem alike_resolve_container (site : Site) (hl : l.bare = l'.bare) {c c' : Container}
    (hc : l.node = .container c) (hc' : l'.node = .container c') (word : Text)
    (token token' : Option Line.Token) (validate validate' : Bool) :
    Alike (OnBoth fun next next' => next.bare = next'.bare)
      (l.resolve site word token validate) (l'.resolve site word token' validate') := by
  have hsame : c.bare = c'.bare := by
    have hnode := node_bare_eq hl
    rw [hc, hc'] at hnode
    exact Node.container.inj hnode
  unfold resolve
  rw [hc, hc']
  dsimp only
  split
  · exact alike_parent? hl _ _
  · refine (Container.alike_lookUp site hsame word token token').map ?_
    rintro _ _ (⟨hn⟩ | ⟨e, e'⟩)
    · exact .ok (enter_bare_eq hl hn)
    · exact .error e e'

/-- **A word leads on alike** from landings with the same bare form. -/
theorem alike_resolve (site : Site) (hl : l.bare = l'.bare) (ht : t.SameWord t')
    (validate : Bool) :
    Alike (OnBoth fun next next' => next.bare = next'.bare)
      (l.resolve site t.data (some t) validate) (l'.resolve site t'.data (some t') validate) := by
  have hparameter {c c' : Command} (hc : c.bare = c'.bare) :
      Alike (OnBoth fun next next' => next.bare = next'.bare)
        (Except.ok (ε := WordError) <$> l.resolveParameter site c t.data (some t) validate)
        (Except.ok (ε := WordError) <$> l'.resolveParameter site c' t'.data (some t') validate) :=
    (alike_resolveParameter site hl hc ht validate).map fun _ _ h => .ok h
  have hnamed : Label.bare { name := some t.data, token := some t } =
      Label.bare { name := some t'.data, token := some t' } := by
    simp only [Label.bare, ht.data]
  have hmatches := Node.matches_of_bare_eq (node_bare_eq hl)
  generalize hn : l.node = n at hmatches
  generalize hn' : l'.node = n' at hmatches
  cases hmatches with
  | container hc =>
    rw [← ht.data]
    exact alike_resolve_container site hl hn hn' t.data _ _ _ _
  | command hc =>
    unfold resolve
    rw [hn, hn']
    exact hparameter hc
  | @parameter p p' hp =>
    have hcommand : p.command.map Command.bare = p'.command.map Command.bare :=
      congrArg Parameter.command hp
    unfold resolve
    rw [hn, hn']
    dsimp only
    cases h : p.command with
    | none =>
      have h' : p'.command = none := by simpa [h] using hcommand.symm
      rw [h']
      exact alike_throw _
    | some c =>
      obtain ⟨c', h', hbare⟩ : ∃ c', p'.command = some c' ∧ c'.bare = c.bare := by
        simpa [h] using hcommand.symm
      rw [h']
      exact hparameter hbare.symm
  | builtin b b' =>
    unfold resolve
    rw [hn, hn']
    exact alike_pure (.ok (enter_bare_eq hl (congrArg Node.builtin hnamed)))
  | option o o' howner =>
    unfold resolve
    rw [hn, hn']
    refine alike_pure (.ok (enter_bare_eq hl ?_))
    simp only [Node.bare, hnamed, howner]
  | ambiguous a a' =>
    unfold resolve
    rw [hn, hn']
    exact alike_pure (.error _ _)

end Landing

/-- Two walks have led to landings with the same bare form, to the end of their words or both not
to the end. -/
structure Walk.SameLanding (w w' : Walk) : Prop where
  landing : w.landing.bare = w'.landing.bare
  refused : w.refused.isSome = w'.refused.isSome

/-- **Words are walked alike** from landings with the same bare form. -/
theorem Walk.alike_words (site : Site) (validate : Bool) {tokens tokens' : List Line.Token}
    (htokens : List.Forall₂ Line.Token.SameWord tokens tokens') {l l' : Landing}
    (hl : l.bare = l'.bare) :
    Alike Walk.SameLanding (Walk.words site validate l tokens)
      (Walk.words site validate l' tokens') := by
  induction htokens generalizing l l' with
  | nil => exact alike_pure ⟨hl, rfl⟩
  | cons ht _ ih =>
    unfold Walk.words
    refine (Landing.alike_resolve site hl ht validate).bind ?_
    rintro _ _ (⟨hnext⟩ | ⟨e, e'⟩)
    · exact (ih hnext).bind fun w w' hw => alike_pure ⟨hw.landing, hw.refused⟩
    · exact alike_pure ⟨hl, rfl⟩

end ConfigShell
