import ConfigShell.Proofs.Tree.Walking
/-!
# Where words lead

A saved path is a row of names and a line a row of tokens; a walk takes them one after another
through the same resolver. `Walk.Leads` is such a walk, word by word, and `Landing.Takes` says all
that one word can do: lead up, to something a container finds, to a parameter, or on below a
builtin. A property of landings that every such word keeps holds wherever a walk leads
(`Walk.Leads.invariant`).
-/

namespace ConfigShell

open Shell (perform perform_bind_eq_ok_iff perform_map ComesTo comesTo_pure comesTo_throw
  comesTo_true OnSuccess onSuccess_ok onSuccess_error IsQuiet isQuiet_pure isQuiet_throw)

variable {site : Site} {l next : Landing} {validate : Bool} {token : Option Line.Token}
  {journal journal' journal'' : Journal}

/-! ## Making containers -/

theorem perform_containerAt (tree : CommandTree) (host : Host) (label : Label)
    (libexec sysconf : Path) (builtins : List Text) (journal : Journal) :
    perform (tree.containerAt host label libexec sysconf builtins) journal =
      if libexec.isPassable then
        let listing := Listing.ofEntries tree.suffixes (host.entries libexec)
        (.ok { toLabel := label, libexec := libexec, sysconf := sysconf
               containers := listing.containers, commands := listing.commands
               files := listing.files, builtins := builtins }, journal)
      else (.error .zeroByte, journal) := by
  unfold CommandTree.containerAt Listing.ofDirectory Shell.require
  cases libexec.isPassable <;> rfl

theorem isQuiet_containerAt (tree : CommandTree) (host : Host) (label : Label)
    (libexec sysconf : Path) (builtins : List Text) :
    IsQuiet (tree.containerAt host label libexec sysconf builtins) := by
  unfold CommandTree.containerAt Listing.ofDirectory
  exact ((Shell.isQuiet_require _).bind fun _ => isQuiet_pure _).bind fun _ => isQuiet_pure _

/-! ## One word -/

namespace Container

/-- What a word can be in a container: a builtin or a command listed there, a container of a name
that no builtin or command there has, or ambiguous. -/
inductive Finds (site : Site) (c : Container) (word : Text) (token : Option Line.Token) :
    Node → Prop
  | builtin {name : Text} (listed : name ∈ c.builtins) :
      Finds site c word token (.builtin { name := some name, token := token })
  | command {name : Text} (listed : name ∈ c.commands) :
      Finds site c word token (.command (c.command name token))
  | container {name : Text} {below : Container} {journal : Journal}
      (listed : name ∈ c.containers) (noCommand : name ∉ c.commands) (noBuiltin : name ∉ c.builtins)
      (made : perform (site.tree.container site.host c name token) journal = (.ok below, journal)) :
      Finds site c word token (.container below)
  | ambiguous : Finds site c word token (.ambiguous (c.ambiguity word token))

variable {c : Container} {word : Text}

/-- The container that a word finds is made there and then. -/
theorem comesTo_finds_container {name : Text} (listed : name ∈ c.containers)
    (noCommand : name ∉ c.commands) (noBuiltin : name ∉ c.builtins) :
    ComesTo (OnSuccess (Finds site c word token)) (do
      return (.ok (← Node.container <$> site.tree.container site.host c name token) :
        Except WordError Node)) := by
  have hmade : ComesTo (Finds site c word token)
      (Node.container <$> site.tree.container site.host c name token) := by
    intro journal n hn
    rw [perform_map] at hn
    have hquiet := (isQuiet_containerAt site.tree site.host { name := some name, token := token }
      (c.libexec.child name) (c.sysconf.child name) []).perform_eq journal journal
    cases hbelow : (perform (site.tree.container site.host c name token) journal).1 with
    | error e => rw [hbelow] at hn; cases hn
    | ok below =>
      rw [hbelow] at hn
      cases hn
      exact .container listed noCommand noBuiltin (hquiet.trans (Prod.ext hbelow rfl))
  exact hmade.bind fun n hn => comesTo_pure (onSuccess_ok hn)

/-- **What a word finds in a container.** A word that is no name there may begin one, and then no
builtin or command begins with it if that is a container. -/
theorem comesTo_lookUp (c : Container) (word : Text) (token : Option Line.Token) :
    ComesTo (OnSuccess (Finds site c word token)) (c.lookUp site word token) := by
  have hbegun {names : List Text} {name : Text} (hone : Names.beginningWith word names = [name]) :
      name ∈ names ∧ Text.beginsWith name word = true :=
    List.mem_filter.mp (hone ▸ List.mem_singleton_self name)
  have hnone {names : List Text} {name : Text} (h : Names.beginningWith word names = [])
      (hname : Text.beginsWith name word = true) : name ∉ names :=
    fun hmem => List.filter_eq_nil_iff.mp h name hmem hname
  unfold lookUp
  split
  · exact comesTo_pure (onSuccess_ok (.builtin (by simp_all)))
  split
  · exact comesTo_pure (onSuccess_ok (.command (by simp_all)))
  split
  · exact comesTo_finds_container (by simp_all) (by simp_all) (by simp_all)
  dsimp only
  split
  · exact comesTo_pure (onSuccess_error _)
  · rename_i hone _ _
    exact comesTo_pure (onSuccess_ok (.builtin (hbegun hone).1))
  · rename_i hone _
    exact comesTo_pure (onSuccess_ok (.command (hbegun hone).1))
  · rename_i hbuiltins hcommands hone
    obtain ⟨listed, hname⟩ := hbegun hone
    exact comesTo_finds_container listed (hnone hcommands hname) (hnone hbuiltins hname)
  · exact comesTo_pure (onSuccess_ok .ambiguous)

theorem isQuiet_lookUp (c : Container) (word : Text) (token : Option Line.Token) :
    IsQuiet (c.lookUp site word token) := by
  have hcontainer (name : Text) : IsQuiet (do
      return (.ok (← Node.container <$> site.tree.container site.host c name token) :
        Except WordError Node)) :=
    ((isQuiet_containerAt _ _ _ _ _ _).map _).bind fun _ => isQuiet_pure _
  unfold lookUp
  dsimp only
  repeat' split
  all_goals first
    | exact isQuiet_pure _
    | exact hcontainer _

end Container

namespace Parameter

/-- Nothing is known about a word before its command has been asked. -/
theorem matchCandidates_ofWord (command : Command) (word : Text) (token : Option Line.Token) :
    (ofWord command word token).matchCandidates word token =
      .parameter (ofWord command word token) := by
  unfold matchCandidates
  split <;> rfl

end Parameter

theorem Node.kind_eq_container_iff {n : Node} : n.kind = .container ↔ ∃ c, n = .container c := by
  cases n <;> simp [kind]

/-- The command whose parameters the words below the node are. -/
def Node.parametersOf? : Node → Option Command
  | .command c => some c
  | .parameter p => p.command
  | _ => none

namespace Landing

/-- All that a word can lead to. Only a container is left again, and only a command that has been
asked can leave it open what a word means. -/
inductive Takes (site : Site) (l : Landing) (word : Text) (token : Option Line.Token)
    (validate : Bool) : Landing → Prop
  | up {c : Container} {up : Landing} (inContainer : l.node = .container c)
      (parent : l.parent? = some up) : Takes site l word token validate up
  | found {c : Container} {n : Node} (inContainer : l.node = .container c)
      (finds : c.Finds site word token n) : Takes site l word token validate (l.enter n)
  | parameter {command : Command} {p : Parameter} (below : l.node.parametersOf? = some command)
      (same : p.command = some command) : Takes site l word token validate (l.enter (.parameter p))
  | unclear {command : Command} {a : Ambiguity} (below : l.node.parametersOf? = some command)
      (asked : validate = true) : Takes site l word token validate (l.enter (.ambiguous a))
  | builtin {b : Label} (below : l.node = .builtin b) :
      Takes site l word token validate (l.enter (.builtin { name := some word, token := token }))
  | option {o : Label} {command : Option Command} (below : l.node = .option o command) :
      Takes site l word token validate
        (l.enter (.option { name := some word, token := token } command))

theorem Takes.not_ambiguous {word : Text} (h : l.Takes site word token validate next) :
    l.node.kind ≠ .ambiguous := by
  cases h with
  | up inContainer | found inContainer => simp [inContainer, Node.kind]
  | parameter below | unclear below =>
    intro hl
    cases hn : l.node <;> simp_all [Node.kind, Node.parametersOf?]
  | builtin below | option below => simp [below, Node.kind]

/-- Asking about a parameter keeps its command, its label and whether it has a key. -/
theorem comesTo_probe (l : Landing) (p : Parameter) :
    ComesTo (Probe.Keeps p) (Probe.run site.host site.tree.environment l p) := by
  cases hc : p.command with
  | none =>
    unfold Probe.run
    rw [hc]
    exact comesTo_throw _
  | some c =>
    rw [probe_of_command hc]
    exact (comesTo_true _).map fun answer _ => Probe.keeps_answered p answer

theorem comesTo_resolveParameter {command : Command} (below : l.node.parametersOf? = some command)
    (word : Text) :
    ComesTo (Takes site l word token validate)
      (l.resolveParameter site command word token validate) := by
  unfold resolveParameter
  dsimp only
  split
  · exact comesTo_pure (.parameter below rfl)
  cases validate with
  | false =>
    refine comesTo_pure ?_
    rw [Parameter.matchCandidates_ofWord]
    exact .parameter below rfl
  | true =>
    refine (comesTo_probe l _).bind fun p hp => comesTo_pure ?_
    rcases matchCandidates_cases p word token with ⟨p', hp', hsame⟩ | ⟨a, ha⟩
    · rw [hp']
      exact .parameter below (hsame.trans hp.command)
    · rw [ha]
      exact .unclear below rfl

/-- **What a word leads to**, in one of the ways of `Takes`. -/
theorem comesTo_resolve (l : Landing) (word : Text) (token : Option Line.Token) (validate : Bool) :
    ComesTo (OnSuccess (Takes site l word token validate))
      (l.resolve site word token validate) := by
  unfold resolve
  split
  · rename_i c hc
    split
    · split
      · rename_i up hup
        exact comesTo_pure (onSuccess_ok (.up hc hup))
      · exact comesTo_pure (onSuccess_error _)
    · refine (Container.comesTo_lookUp c word token).map fun r hr => ?_
      cases r with
      | error e => exact onSuccess_error e
      | ok n => exact onSuccess_ok (.found hc (hr n rfl))
  · rename_i c hc
    exact (comesTo_resolveParameter (by rw [hc]; rfl) word).map fun next hnext => onSuccess_ok hnext
  · rename_i p hp
    split
    · rename_i c hc
      have below : l.node.parametersOf? = some c := by rw [hp]; exact hc
      exact (comesTo_resolveParameter below word).map fun next hnext => onSuccess_ok hnext
    · exact comesTo_throw _
  · rename_i b hb
    exact comesTo_pure (onSuccess_ok (.builtin hb))
  · rename_i o command ho
    exact comesTo_pure (onSuccess_ok (.option ho))
  · exact comesTo_pure (onSuccess_error _)

/-- A word is resolved without doing anything as long as no command is asked about it. -/
theorem isQuiet_resolve (l : Landing) (word : Text) (token : Option Line.Token) :
    IsQuiet (l.resolve site word token false) := by
  have hparameter (command : Command) :
      IsQuiet (l.resolveParameter site command word token false) := by
    unfold resolveParameter
    dsimp only
    split <;> exact isQuiet_pure _
  unfold resolve
  split
  · split
    · split <;> exact isQuiet_pure _
    · exact (Container.isQuiet_lookUp _ _ _).map _
  · exact (hparameter _).map _
  · split
    · exact (hparameter _).map _
    · exact isQuiet_throw _
  all_goals exact isQuiet_pure _

/-- Only words below a command are asked about. -/
theorem resolve_validate (h : l.node.parametersOf? = none) (word : Text)
    (token : Option Line.Token) (validate : Bool) :
    l.resolve site word token validate = l.resolve site word token false := by
  unfold resolve
  cases hn : l.node with
  | command c => rw [hn] at h; cases h
  | parameter p =>
    have hp : p.command = none := by rw [hn] at h; exact h
    simp [hp]
  | _ => rfl

end Landing

/-! ## Walks -/

namespace Walk

/-- A word of a walk. -/
structure Word where
  text : Text
  /-- Where it is typed. -/
  token : Option Line.Token := none
  /-- A command is asked about it. -/
  validate : Bool := false

namespace Word

/-- A name of a saved path. -/
def saved (name : Text) : Word := { text := name }

/-- A typed word. -/
def typed (validate : Bool) (token : Line.Token) : Word :=
  { text := token.data, token := some token, validate := validate }

end Word

/-- The words lead from one landing to another, whatever is done on the way. -/
inductive Leads (site : Site) : Landing → Journal → List Word → Landing → Journal → Prop
  | here (l : Landing) (journal : Journal) : Leads site l journal [] l journal
  | on {l next last : Landing} {journal journal' journal'' : Journal} {word : Word}
      {rest : List Word}
      (first : perform (l.resolve site word.text word.token word.validate) journal =
        (.ok (.ok next), journal'))
      (others : Leads site next journal' rest last journal'') :
      Leads site l journal (word :: rest) last journal''

/-- The words that a line is walked by: the saved path, unless the line starts at the top, and then
the words typed. -/
def wordsOf (path : List Text) (lexed : Line.Lexed) (validate : Bool) : List Word :=
  let (fromTop, typed) := splitRoot lexed.tokens
  (if fromTop then [] else path).map .saved ++ typed.map (.typed validate)

/-- More words at the end of a line change nothing about where it starts. -/
theorem splitRoot_append {tokens : List Line.Token} (h : tokens ≠ []) (rest : List Line.Token) :
    splitRoot (tokens ++ rest) = ((splitRoot tokens).1, (splitRoot tokens).2 ++ rest) := by
  cases tokens with
  | nil => exact absurd rfl h
  | cons token tokens =>
    unfold splitRoot
    dsimp only [List.cons_append]
    split
    · split <;> rfl
    · rfl

/-- Only a slash alone leaves no words. -/
theorem splitRoot_of_nil {tokens : List Line.Token} (hne : tokens ≠ [])
    (h : (splitRoot tokens).2 = []) : splitRoot tokens = (true, []) := by
  unfold splitRoot at h ⊢
  split at h
  · exact absurd rfl hne
  · split at h
    · rename_i hroot
      rw [if_pos hroot]
      exact congrArg (true, ·) h
    · cases h

variable {last : Landing} {words words' : List Word}

namespace Leads

theorem nil_iff : Leads site l journal [] last journal' ↔ last = l ∧ journal' = journal := by
  constructor
  · rintro ⟨⟩
    exact ⟨rfl, rfl⟩
  · rintro ⟨rfl, rfl⟩
    exact .here _ _

theorem cons_iff {word : Word} :
    Leads site l journal (word :: words) last journal'' ↔
      ∃ next journal', perform (l.resolve site word.text word.token word.validate) journal =
          (.ok (.ok next), journal') ∧ Leads site next journal' words last journal'' := by
  constructor
  · rintro ⟨⟩
    exact ⟨_, _, ‹_›, ‹_›⟩
  · rintro ⟨next, journal', first, others⟩
    exact .on first others

theorem append_iff : Leads site l journal (words ++ words') last journal'' ↔
    ∃ next journal', Leads site l journal words next journal' ∧
      Leads site next journal' words' last journal'' := by
  induction words generalizing l journal with
  | nil =>
    simp only [List.nil_append, nil_iff]
    constructor
    · intro h
      exact ⟨l, journal, ⟨rfl, rfl⟩, h⟩
    · rintro ⟨_, _, ⟨rfl, rfl⟩, h⟩
      exact h
  | cons word rest ih =>
    simp only [List.cons_append, cons_iff, ih]
    constructor
    · rintro ⟨a, ja, ha, b, jb, hb, h⟩
      exact ⟨b, jb, ⟨a, ja, ha, hb⟩, h⟩
    · rintro ⟨b, jb, ⟨a, ja, ha, hb⟩, h⟩
      exact ⟨a, ja, ha, b, jb, hb, h⟩

/-- **What every word keeps holds wherever words lead.** -/
theorem invariant {I : Landing → Prop}
    (hword : ∀ {l next word token validate}, I l → l.Takes site word token validate next → I next)
    (h : Leads site l journal words last journal') (hl : I l) : I last := by
  induction h with
  | here => exact hl
  | @on l next _ journal _ _ word _ first _ ih =>
    have htakes := l.comesTo_resolve word.text word.token word.validate journal _
      (by rw [first]) next rfl
    exact ih (hword hl htakes)

end Leads

/-! ## Saved paths and lines as walks -/

theorem replay_eq_ok_iff {path : List Text} :
    perform (replay site l path) journal = (.ok (.ok last), journal') ↔
      Leads site l journal (path.map .saved) last journal' := by
  induction path generalizing l journal with
  | nil =>
    rw [List.map_nil, Leads.nil_iff]
    constructor
    · rintro ⟨⟩
      exact ⟨rfl, rfl⟩
    · rintro ⟨rfl, rfl⟩
      rfl
  | cons name rest ih =>
    rw [replay, perform_bind_eq_ok_iff, List.map_cons, Leads.cons_iff]
    constructor
    · rintro ⟨r, journal', hr, h⟩
      cases r with
      | error e => cases h
      | ok next => exact ⟨next, journal', hr, ih.mp h⟩
    · rintro ⟨next, journal', hnext, h⟩
      exact ⟨.ok next, journal', hnext, ih.mpr h⟩

theorem words_cons_eq_ok_iff {token : Line.Token} {tokens : List Line.Token}
    {steps : List (Line.Token × Node)} :
    perform (Walk.words site validate l (token :: tokens)) journal =
        (.ok { landing := last, steps := steps }, journal'') ↔
      ∃ next journal' others,
        perform (l.resolve site token.data (some token) validate) journal =
          (.ok (.ok next), journal') ∧
        perform (Walk.words site validate next tokens) journal' =
          (.ok { landing := last, steps := others }, journal'') ∧
        steps = (token, next.node) :: others := by
  rw [Walk.words, perform_bind_eq_ok_iff]
  constructor
  · rintro ⟨r, journal', hr, h⟩
    cases r with
    | error e => cases h
    | ok next =>
      obtain ⟨⟨landing, others, refused⟩, journal₂, hwalk, h⟩ := perform_bind_eq_ok_iff.mp h
      cases h
      exact ⟨next, journal', others, hr, hwalk, rfl⟩
  · rintro ⟨next, journal', others, hnext, hwalk, rfl⟩
    exact ⟨.ok next, journal', hnext, perform_bind_eq_ok_iff.mpr ⟨_, _, hwalk, rfl⟩⟩

/-- The words of a line are walked to the end just where they lead on. -/
theorem words_eq_ok_iff {tokens : List Line.Token} :
    (∃ steps, perform (Walk.words site validate l tokens) journal =
        (.ok { landing := last, steps := steps }, journal')) ↔
      Leads site l journal (tokens.map (.typed validate)) last journal' := by
  induction tokens generalizing l journal with
  | nil =>
    rw [List.map_nil, Leads.nil_iff]
    constructor
    · rintro ⟨steps, ⟨⟩⟩
      exact ⟨rfl, rfl⟩
    · rintro ⟨rfl, rfl⟩
      exact ⟨[], rfl⟩
  | cons token rest ih =>
    simp only [words_cons_eq_ok_iff, List.map_cons, Leads.cons_iff]
    constructor
    · rintro ⟨steps, next, journal', others, hnext, hwalk, -⟩
      exact ⟨next, journal', hnext, ih.mp ⟨others, hwalk⟩⟩
    · rintro ⟨next, journal', hnext, h⟩
      obtain ⟨others, hwalk⟩ := ih.mpr h
      exact ⟨_, next, journal', others, hnext, hwalk, rfl⟩

/-- The steps of a walk to the end are its words in order, and only the end may be ambiguous: from
there no word leads on. -/
theorem steps_of_words {tokens : List Line.Token} {steps : List (Line.Token × Node)}
    (h : perform (Walk.words site validate l tokens) journal =
      (.ok { landing := last, steps := steps }, journal')) :
    steps.map (·.1) = tokens ∧
      (last.node.kind ≠ .ambiguous → ∀ step ∈ steps, step.2.kind ≠ .ambiguous) := by
  induction tokens generalizing l journal steps with
  | nil =>
    cases h
    exact ⟨rfl, fun _ => List.forall_mem_nil _⟩
  | cons token rest ih =>
    obtain ⟨next, journal₁, others, hnext, hwalk, rfl⟩ := words_cons_eq_ok_iff.mp h
    obtain ⟨htokens, hclear⟩ := ih hwalk
    refine ⟨by rw [List.map_cons, htokens], fun hlast => ?_⟩
    refine List.forall_mem_cons.mpr ⟨?_, hclear hlast⟩
    cases rest with
    | nil => cases hwalk; exact hlast
    | cons token' rest =>
      obtain ⟨next', journal₂, others', hnext', -⟩ := words_cons_eq_ok_iff.mp hwalk
      have htakes := next.comesTo_resolve token'.data (some token') validate journal₁ _
        (by rw [hnext']) next' rfl
      exact htakes.not_ambiguous

/-- A walk begins at a container with nothing above it. -/
theorem exists_container_of_top (h : perform (top site) journal = (.ok l, journal')) :
    ∃ c, l = ⟨.container c, []⟩ ∧
      perform (site.tree.top site.host) journal = (.ok c, journal') := by
  obtain ⟨c, journal₁, hc, h⟩ := perform_bind_eq_ok_iff.mp h
  cases h
  exact ⟨c, rfl, hc⟩

theorem isQuiet_top : IsQuiet (top site) :=
  (isQuiet_containerAt _ _ _ _ _ _).bind fun _ => isQuiet_pure _

theorem isQuiet_replay (l : Landing) (path : List Text) : IsQuiet (replay site l path) := by
  induction path generalizing l with
  | nil => exact isQuiet_pure _
  | cons name rest ih =>
    refine (l.isQuiet_resolve name none).bind fun r => ?_
    split
    · exact isQuiet_pure _
    · exact ih _

theorem isQuiet_start (path : List Text) (fromTop : Bool) : IsQuiet (start site path fromTop) :=
  isQuiet_top.bind fun _ => isQuiet_replay _ _

theorem isQuiet_words (l : Landing) (tokens : List Line.Token) :
    IsQuiet (Walk.words site false l tokens) := by
  induction tokens generalizing l with
  | nil => exact isQuiet_pure _
  | cons token rest ih =>
    refine (l.isQuiet_resolve token.data (some token)).bind fun r => ?_
    split
    · exact isQuiet_pure _
    · exact (ih _).bind fun _ => isQuiet_pure _

theorem isQuiet_line (path : List Text) (lexed : Line.Lexed) (probeNext : Bool) :
    IsQuiet (line site path lexed false probeNext) := by
  refine (isQuiet_start path _).bind fun r => ?_
  split
  · exact isQuiet_pure _
  · exact (isQuiet_words _ _).bind fun _ => isQuiet_pure _

theorem start_eq_ok_iff {path : List Text} {fromTop : Bool} :
    perform (start site path fromTop) journal = (.ok (.ok last), journal') ↔
      ∃ t, perform (top site) journal = (.ok t, journal) ∧
        Leads site t journal ((if fromTop then [] else path).map .saved) last journal' := by
  rw [start, perform_bind_eq_ok_iff]
  constructor
  · rintro ⟨t, journal₁, ht, h⟩
    obtain rfl := isQuiet_top.journal_eq ht -- listing the top does nothing
    exact ⟨t, ht, replay_eq_ok_iff.mp h⟩
  · rintro ⟨t, ht, h⟩
    exact ⟨t, journal, ht, replay_eq_ok_iff.mpr h⟩

theorem line_eq_ok_iff {path : List Text} {lexed : Line.Lexed} {walk : Walk} :
    perform (line site path lexed validate) journal = (.ok (.ok walk), journal'') ↔
      ∃ first journal',
        perform (start site path (splitRoot lexed.tokens).1) journal =
          (.ok (.ok first), journal') ∧
        perform (Walk.words site validate first (splitRoot lexed.tokens).2) journal' =
          (.ok walk, journal'') := by
  simp only [line, Bool.false_and, Bool.false_eq_true, if_false, List.append_nil]
  rw [perform_bind_eq_ok_iff]
  constructor
  · rintro ⟨r, journal₁, hr, h⟩
    cases r with
    | error name => cases h
    | ok first =>
      obtain ⟨walk, journal₂, hwalk, h⟩ := perform_bind_eq_ok_iff.mp h
      cases h
      exact ⟨first, journal₁, hr, hwalk⟩
  · rintro ⟨first, journal₁, hstart, hwords⟩
    exact ⟨.ok first, journal₁, hstart, perform_bind_eq_ok_iff.mpr ⟨_, _, hwords, rfl⟩⟩

theorem exists_landing_of_settle {r : Except Text Walk} {resolution : Resolution}
    (h : settle r = .ok resolution) : ∃ l, resolution.landing = some l := by
  unfold settle at h
  repeat' split at h
  all_goals cases h
  exact ⟨_, rfl⟩

theorem settle_eq_ok_iff {r : Except Text Walk} {steps : List (Line.Token × Node)} :
    settle r = .ok { landing := some last, steps := steps } ↔
      r = .ok { landing := last, steps := steps } := by
  constructor
  · intro h
    match r, h with
    | .error name, h => cases h
    | .ok ⟨landing, steps, some e⟩, h => cases h
    | .ok ⟨landing, steps, none⟩, h => cases h; rfl
  · rintro rfl
    rfl

end Walk

/-- The saved path, unless the line starts at the top, and then the words typed lead here. -/
def Session.LeadsTo (site : Site) (s : Session) (fromTop : Bool) (typed : List Line.Token)
    (journal : Journal) (l : Landing) (journal' : Journal) : Prop :=
  ∃ top, perform (Walk.top site) journal = (.ok top, journal) ∧
    Walk.Leads site top journal
      ((if fromTop then [] else s.path).map .saved ++ typed.map (.typed true)) l journal'

/-- A line that is no comment resolves to a landing, if to anything. -/
theorem Session.exists_landing {s : Session} {lexed : Line.Lexed} (h : lexed.isComment = false)
    {resolution : Resolution}
    (hr : perform (s.resolve site lexed validate) journal = (.ok (.ok resolution), journal')) :
    ∃ l, resolution.landing = some l := by
  rw [Session.resolve, h] at hr
  simp only [Bool.false_eq_true, if_false, perform_map, Prod.mk.injEq] at hr
  cases hline : (perform (Walk.line site s.path lexed validate) journal).1 with
  | error e => rw [hline] at hr; cases hr.1
  | ok r =>
    rw [hline] at hr
    exact Walk.exists_landing_of_settle (Except.ok.inj hr.1)

theorem Session.resolve_eq_line {s : Session} {lexed : Line.Lexed}
    {steps : List (Line.Token × Node)} :
    perform (s.resolve site lexed validate) journal =
        (.ok (.ok { landing := some l, steps := steps }), journal') ↔
      lexed.isComment = false ∧ perform (Walk.line site s.path lexed validate) journal =
        (.ok (.ok { landing := l, steps := steps }), journal') := by
  rw [Session.resolve]
  cases lexed.isComment with
  | true =>
    refine ⟨?_, fun h => nomatch h.1⟩
    rintro ⟨⟩
  | false =>
    simp only [Bool.false_eq_true, if_false, true_and, perform_map]
    cases perform (Walk.line site s.path lexed validate) journal with
    | mk outcome journal₁ =>
      cases outcome with
      | error e => simp [Except.map]
      | ok r => simp [Except.map, Walk.settle_eq_ok_iff]

/-- **A line resolves to a landing just where its words lead there** from the top of the tree. -/
theorem Session.resolve_eq_ok_iff {s : Session} {lexed : Line.Lexed} :
    (∃ steps, perform (s.resolve site lexed validate) journal =
        (.ok (.ok { landing := some l, steps := steps }), journal')) ↔
      lexed.isComment = false ∧ ∃ t, perform (Walk.top site) journal = (.ok t, journal) ∧
        Walk.Leads site t journal (Walk.wordsOf s.path lexed validate) l journal' := by
  simp only [resolve_eq_line, exists_and_left, Walk.line_eq_ok_iff, Walk.wordsOf,
    Walk.Leads.append_iff, ← Walk.words_eq_ok_iff]
  refine and_congr_right fun _ => ?_
  constructor
  · rintro ⟨steps, first, journal₁, hstart, hwords⟩
    obtain ⟨t, ht, hfirst⟩ := Walk.start_eq_ok_iff.mp hstart
    exact ⟨t, ht, first, journal₁, hfirst, steps, hwords⟩
  · rintro ⟨t, ht, first, journal₁, hfirst, steps, hwords⟩
    exact ⟨steps, first, journal₁, Walk.start_eq_ok_iff.mpr ⟨t, ht, hfirst⟩, hwords⟩

/-- A line that resolves does so word for word, and none but the last is ambiguous. -/
theorem Session.steps_of_resolve {s : Session} {lexed : Line.Lexed}
    {steps : List (Line.Token × Node)}
    (h : perform (s.resolve site lexed validate) journal =
      (.ok (.ok { landing := some l, steps := steps }), journal')) :
    steps.map (·.1) = (Walk.splitRoot lexed.tokens).2 ∧
      (l.node.kind ≠ .ambiguous → ∀ step ∈ steps, step.2.kind ≠ .ambiguous) := by
  obtain ⟨-, hline⟩ := resolve_eq_line.mp h
  obtain ⟨first, journal₁, -, hwords⟩ := Walk.line_eq_ok_iff.mp hline
  exact Walk.steps_of_words hwords

/-! ## Looking at a line -/

/-- Resolving a line without asking commands does nothing. -/
theorem Session.isQuiet_resolve (s : Session) (lexed : Line.Lexed) :
    IsQuiet (s.resolve site lexed) := by
  unfold Session.resolve
  split
  · exact isQuiet_pure _
  · exact (Walk.isQuiet_line _ _ _).map _

theorem Session.isQuiet_colourise (s : Session) (lexed : Line.Lexed) :
    IsQuiet (s.colourise site lexed) := by
  unfold Session.colourise
  split
  · exact isQuiet_pure _
  · refine (Walk.isQuiet_line _ _ _).bind fun r => ?_
    split <;> exact isQuiet_pure _

end ConfigShell
