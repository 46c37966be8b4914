import ConfigShell.Proofs.Tree.Unasked
/-!
# What is asked below a command

Below a command every word is a parameter of it, and its command is asked about each word in turn,
with the parameters before it as they have become by then: completed, or under another key. An
attempt to ask need not start the command (`Host.Attempts`). `Site.Asks` says what one word comes to
and `Site.AsksAll` what a row of them does, each word with its own parameter; a walk below a command
goes on in this way (`Landing.Below.leads`), and every walk that ends there has come to the command
before, without asking anything (`Walk.Leads.exists_command`).
-/

namespace ConfigShell

open Shell (perform perform_bind_eq_ok_iff perform_map)

variable {site : Site} {l next last : Landing} {c : Command} {above : List Node}
  {ps : List Parameter} {journal journal' : Journal} {words : List Walk.Word}

/-! ## Attempts -/

/-- What comes of an attempt to make a call in a directory, and the calls made by then. Nothing is
started where the directory cannot be used or the program does not start. -/
inductive Host.Attempts (host : Host) (sysconf : Path) (call : Call) (calls : List Call) :
    Except RunFault Reply → List Call → Prop
  | noSysconf {reason : Errno} (unknown : host.isDirectory sysconf = .error reason) :
      Attempts host sysconf call calls (.error (.noSysconf reason)) calls
  | notDirectory (other : host.isDirectory sysconf = .ok false) :
      Attempts host sysconf call calls (.error .sysconfNotDirectory) calls
  | zeroByte (directory : host.isDirectory sysconf = .ok true)
      (unpassable : call.isPassable = false) :
      Attempts host sysconf call calls (.error (.notStarted .zeroByte)) calls
  | refused {reason : Errno} (directory : host.isDirectory sysconf = .ok true)
      (passable : call.isPassable = true) (refused : host.reply calls call = .error reason) :
      Attempts host sysconf call calls (.error (.notStarted (.refused reason))) calls
  | started {reply : Reply} (directory : host.isDirectory sysconf = .ok true)
      (passable : call.isPassable = true) (replied : host.reply calls call = .ok reply) :
      Attempts host sysconf call calls (.ok reply) (calls ++ [call])

theorem Host.attempts_of_launch {host : Host} {environment : List (Text × Text)} {sysconf : Path}
    {file : Text} {arguments : List Text} {answer : Except RunFault Reply}
    (h : perform (host.launch environment sysconf file arguments) journal =
      (.ok answer, journal')) :
    host.Attempts sysconf ⟨file, arguments, sysconf.toText, environment⟩ journal.calls answer
      journal'.calls := by
  rw [Host.launch] at h
  obtain ⟨_, journal₁, hrequire, hlaunched⟩ := perform_bind_eq_ok_iff.mp h
  obtain rfl := (Shell.isQuiet_require sysconf).journal_eq hrequire
  clear h hrequire
  cases hdirectory : host.isDirectory sysconf with
  | error reason =>
    rw [hdirectory] at hlaunched
    cases hlaunched
    exact .noSysconf hdirectory
  | ok isDirectory =>
    rw [hdirectory] at hlaunched
    cases isDirectory with
    | false =>
      cases hlaunched
      exact .notDirectory hdirectory
    | true =>
      obtain ⟨started, journal₂, hstart, hended⟩ := perform_bind_eq_ok_iff.mp hlaunched
      rw [Shell.perform_start] at hstart
      split at hstart
      · rename_i passable
        split at hstart
        · rename_i reason hreply
          cases hstart
          cases hended
          exact .refused hdirectory passable hreply
        · rename_i reply hreply
          cases hstart
          cases hended
          exact .started hdirectory passable hreply
      · rename_i unpassable
        cases hstart
        cases hended
        exact .zeroByte hdirectory (by simpa using unpassable)

/-- The directory of an attempt that breaks down cannot even be asked for, and nothing is done. -/
theorem Host.unpassable_of_launch {host : Host} {environment : List (Text × Text)} {sysconf : Path}
    {file : Text} {arguments : List Text} {e : Breakdown}
    (h : perform (host.launch environment sysconf file arguments) journal = (.error e, journal')) :
    sysconf.isPassable = false ∧ journal' = journal := by
  rw [Host.launch] at h
  cases hpassable : sysconf.isPassable with
  | false =>
    have hrequire : perform (Shell.require sysconf) journal = (.error .zeroByte, journal) := by
      rw [Shell.require, hpassable]
      rfl
    rw [Shell.perform_bind_of_error hrequire] at h
    cases h
    exact ⟨rfl, rfl⟩
  | true =>
    have hrequire : perform (Shell.require sysconf) journal = (.ok (), journal) := by
      rw [Shell.require, hpassable]
      rfl
    rw [Shell.perform_bind_of_ok hrequire] at h
    -- all that is done then comes to an answer
    split at h
    · cases h
    · cases h
    · rw [Shell.perform_bind, Shell.perform_start] at h
      split at h
      · rename_i started journal₁ hstart
        cases started <;> cases h
      · rename_i e' journal₁ hstart
        split at hstart
        · split at hstart <;> cases hstart
        · cases hstart

/-! ## Standing below a command -/

/-- The nodes down to the landing end with the command and its parameters. -/
structure Landing.Below (l : Landing) (c : Command) (above : List Node) (ps : List Parameter) :
    Prop where
  chain : l.chain = above ++ .command c :: ps.map .parameter
  owned : ∀ p ∈ ps, p.command = some c

namespace Landing

theorem nodes_of_chain (h : l.chain = above ++ .command c :: ps.map .parameter) :
    l.node :: l.above = (ps.map Node.parameter).reverse ++ .command c :: above.reverse := by
  have hreverse := congrArg List.reverse h
  simpa [Landing.chain] using hreverse

/-- The command that the parameters belong to is the one they stand below. -/
theorem command?_of_chain (h : l.chain = above ++ .command c :: ps.map .parameter) :
    l.command? = some c := by
  have hparameters : ∀ n ∈ (ps.map Node.parameter).reverse, n.parameter?.isSome = true := by
    simp +contextual [Node.parameter?]
  rw [command?, nodes_of_chain h, List.dropWhile_append_of_pos hparameters]
  rfl

theorem parameters_of_chain (h : l.chain = above ++ .command c :: ps.map .parameter) :
    l.parameters = ps := by
  have hparameters : ∀ n ∈ (ps.map Node.parameter).reverse, n.parameter?.isSome = true := by
    simp +contextual [Node.parameter?]
  rw [parameters, nodes_of_chain h, List.takeWhile_append_of_pos hparameters,
    List.takeWhile_cons_of_neg (by simp [Node.parameter?]), List.append_nil, List.filterMap_reverse,
    List.reverse_reverse, List.filterMap_map]
  exact List.filterMap_some

namespace Below

theorem enter (h : l.Below c above ps) {p : Parameter} (hp : p.command = some c) :
    (l.enter (.parameter p)).Below c above (ps ++ [p]) := by
  constructor
  · rw [chain_enter, h.chain]
    simp
  · intro q hq
    rcases List.mem_append.mp hq with hq | hq
    · exact h.owned q hq
    · rw [List.mem_singleton.mp hq]
      exact hp

theorem parametersOf? (h : l.Below c above ps) : l.node.parametersOf? = some c := by
  have hnodes := nodes_of_chain h.chain
  rcases List.eq_nil_or_concat ps with rfl | ⟨before, p, rfl⟩
  · have hnode : l.node = .command c := (List.cons.inj hnodes).1
    rw [hnode]
    rfl
  · have hnode : l.node = .parameter p := by
      simp only [List.concat_eq_append, List.map_append, List.reverse_append] at hnodes
      exact (List.cons.inj hnodes).1
    rw [hnode]
    exact h.owned p (by simp)

end Below

end Landing

/-! ## Asking about words -/

/-- The parameter a word is for the command before the command has been asked. -/
def Walk.Word.parameter (word : Walk.Word) (c : Command) : Parameter :=
  .ofWord c word.text word.token

namespace Site

variable (site : Site)

/-- What a word comes to after the parameters `before` it, and the calls made by then. A word with a
hidden equals sign in its key and a name of a saved path are not asked about. Any other word is,
once, with the parameters before it as they have become and the word as it is typed. -/
inductive Asks (c : Command) (before : List Parameter) (calls : List Call) (word : Walk.Word) :
    Parameter → List Call → Prop
  | hidden (fault : (word.parameter c).fault = some .hiddenEquals) :
      Asks c before calls word (word.parameter c) calls
  | saved (clear : (word.parameter c).fault = none) (unasked : word.validate = false) :
      Asks c before calls word (word.parameter c) calls
  | asked {answer : Except RunFault Reply} {calls' : List Call} {p : Parameter}
      (clear : (word.parameter c).fault = none) (asked : word.validate = true)
      (attempt : site.host.Attempts c.sysconf (site.probe c (before ++ [word.parameter c])) calls
        answer calls')
      (matched : (Probe.answered (word.parameter c) answer).matchCandidates word.text word.token =
        .parameter p) : Asks c before calls word p calls'

/-- What words one after another come to, each its own parameter, and the calls made by then. -/
inductive AsksAll (c : Command) :
    List Parameter → List Call → List Walk.Word → List Parameter → List Call → Prop
  | done (before : List Parameter) (calls : List Call) : AsksAll c before calls [] [] calls
  | word {before ps : List Parameter} {calls calls' calls'' : List Call} {word : Walk.Word}
      {rest : List Walk.Word} {p : Parameter} (first : site.Asks c before calls word p calls')
      (others : AsksAll c (before ++ [p]) calls' rest ps calls'') :
      AsksAll c before calls (word :: rest) (p :: ps) calls''

end Site

theorem Walk.Word.fault_parameter (word : Walk.Word) (c : Command) :
    (word.parameter c).fault = none ∨ (word.parameter c).fault = some .hiddenEquals := by
  unfold parameter Parameter.ofWord
  dsimp only
  split
  · exact .inr rfl
  · exact .inl rfl

namespace Landing.Below

/-- **One word below a command** comes to a parameter of it, or is ambiguous. -/
theorem resolve (h : l.Below c above ps) {word : Walk.Word}
    (hresolved : perform (l.resolve site word.text word.token word.validate) journal =
      (.ok (.ok next), journal')) :
    (∃ p, site.Asks c ps journal.calls word p journal'.calls ∧ next.Below c above (ps ++ [p])) ∨
      next.node.kind = .ambiguous := by
  rw [resolve_below h.parametersOf?, ← bind_pure_comp] at hresolved
  obtain ⟨next', journal₁, hparameter, hnext⟩ := perform_bind_eq_ok_iff.mp hresolved
  cases hnext
  have howned : (word.parameter c).command = some c := rfl
  have hmade : l.resolveParameter site c word.text word.token word.validate =
      if (word.parameter c).fault.isSome then pure (l.enter (.parameter (word.parameter c)))
      else do
        let p ← if word.validate then
            Probe.run site.host site.tree.environment l (word.parameter c)
          else pure (word.parameter c)
        return l.enter (p.matchCandidates word.text word.token) := rfl
  rw [hmade] at hparameter
  rcases word.fault_parameter c with clear | hidden
  · rw [clear] at hparameter
    cases hvalidate : word.validate with
    | false =>
      rw [hvalidate] at hparameter
      cases hparameter
      have hsame : (word.parameter c).matchCandidates word.text word.token =
          .parameter (word.parameter c) := Parameter.matchCandidates_ofWord _ _ _
      rw [hsame]
      exact .inl ⟨_, .saved clear hvalidate, h.enter howned⟩
    | true =>
      rw [hvalidate] at hparameter
      obtain ⟨p, journal₂, hprobe, hmatched⟩ := perform_bind_eq_ok_iff.mp hparameter
      cases hmatched
      rw [probe_of_command howned, parameters_of_chain (h.enter howned).chain,
        ← bind_pure_comp] at hprobe
      obtain ⟨answer, journal₃, hlaunch, hanswered⟩ := perform_bind_eq_ok_iff.mp hprobe
      cases hanswered
      have hattempt := Host.attempts_of_launch hlaunch
      have hcommand : (Probe.answered (word.parameter c) answer).command = some c :=
        (Probe.keeps_answered _ _).command.trans howned
      rcases matchCandidates_cases (Probe.answered (word.parameter c) answer) word.text word.token
        with ⟨p', hp', hsame⟩ | ⟨a, ha⟩
      · rw [hp']
        exact .inl ⟨p', .asked clear hvalidate hattempt hp', h.enter (hsame.trans hcommand)⟩
      · rw [ha]
        exact .inr rfl
  · rw [hidden] at hparameter
    cases hparameter
    exact .inl ⟨_, .hidden hidden, h.enter howned⟩

/-- **Words below a command** come to parameters of it one after another, or the last one is
ambiguous. -/
theorem leads (h : l.Below c above ps) (hleads : Walk.Leads site l journal words last journal') :
    (∃ qs, site.AsksAll c ps journal.calls words qs journal'.calls ∧
      last.Below c above (ps ++ qs)) ∨ last.node.kind = .ambiguous := by
  induction hleads generalizing ps with
  | here l journal => exact .inl ⟨[], .done _ _, by rwa [List.append_nil]⟩
  | @on l next last journal journal' journal'' word rest first others ih =>
    rcases h.resolve first with ⟨p, hasks, hnext⟩ | hambiguous
    · refine (ih hnext).imp_left ?_
      rintro ⟨qs, hall, hlast⟩
      exact ⟨p :: qs, .word hasks hall, by simpa using hlast⟩
    · -- no word leads on from there
      cases others with
      | here => exact .inr hambiguous
      | @on _ next' _ _ _ _ word' _ first' =>
        have htakes := next.comesTo_resolve word'.text word'.token word'.validate _ _
          (by rw [first']) next' rfl
        exact absurd hambiguous htakes.not_ambiguous

end Landing.Below

/-! ## Coming to a command -/

/-- A word that comes to a command or a parameter from elsewhere comes to a command that it finds in
a container. -/
theorem Site.IsPlaced.exists_command {word : Text} {token : Option Line.Token} {validate : Bool}
    (h : site.IsPlaced l) (htakes : l.Takes site word token validate next)
    (hl : ¬ l.node.IsCommandOrParameter) (hnext : next.node.IsCommandOrParameter) :
    ∃ c, next = l.enter (.command c) := by
  have hbelow {command : Command} (below : l.node.parametersOf? = some command) : False :=
    hl (Node.isCommandOrParameter_of_parametersOf? (by rw [below]; rfl))
  have hkind {n : Node} (hn : n.kind ≠ .command ∧ n.kind ≠ .parameter) :
      ¬ n.IsCommandOrParameter := not_or.mpr hn
  cases htakes with
  | up inContainer parent =>
    -- above a container there are containers only
    obtain ⟨names, hstands⟩ := h _ inContainer
    obtain ⟨names', hup⟩ := hstands.parent parent
    obtain ⟨c, hc, -⟩ := hup.exists_container
    exact absurd hnext (hkind (by simp [hc, Node.kind]))
  | found inContainer finds =>
    cases finds with
    | command listed => exact ⟨_, rfl⟩
    | builtin | container | ambiguous =>
      exact absurd hnext (hkind (by simp [Landing.enter, Node.kind]))
  | parameter below same => exact (hbelow below).elim
  | unclear below asked => exact (hbelow below).elim
  | builtin below => exact absurd hnext (hkind (by simp [Landing.enter, Node.kind]))
  | option below => exact absurd hnext (hkind (by simp [Landing.enter, Node.kind]))

/-- **A walk that ends at a command or a parameter comes to the command before**, and up to there
nothing is done. -/
theorem Walk.Leads.exists_command (h : Walk.Leads site l journal words last journal')
    (placed : site.IsPlaced l) (hl : ¬ l.node.IsCommandOrParameter)
    (hlast : last.node.IsCommandOrParameter) :
    ∃ (c : Command) (up : Landing) (before after : List Walk.Word), words = before ++ after ∧
      Walk.Leads site l journal before (up.enter (.command c)) journal ∧
      Walk.Leads site (up.enter (.command c)) journal after last journal' := by
  induction h with
  | here => exact absurd hlast hl
  | @on l next last journal journal₁ _ word rest first others ih =>
    have hnone : l.node.parametersOf? = none := by
      cases hparameters : l.node.parametersOf? with
      | none => rfl
      | some command =>
        exact absurd (Node.isCommandOrParameter_of_parametersOf? (by rw [hparameters]; rfl)) hl
    have htakes := l.comesTo_resolve word.text word.token word.validate journal _
      (by rw [first]) next rfl
    obtain rfl : journal₁ = journal := by
      rw [l.resolve_validate hnone] at first
      exact (l.isQuiet_resolve word.text word.token).journal_eq first
    by_cases hnext : next.node.IsCommandOrParameter
    · obtain ⟨c, rfl⟩ := placed.exists_command htakes hl hnext
      exact ⟨c, l, [word], rest, rfl, .on first (.here _ _), others⟩
    · obtain ⟨c, up, before, after, rfl, hbefore, hafter⟩ := ih (placed.takes htakes) hnext hlast
      exact ⟨c, up, word :: before, after, rfl, .on first hbefore, hafter⟩

end ConfigShell
