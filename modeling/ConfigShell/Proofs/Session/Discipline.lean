import ConfigShell.Proofs.Session.Outcomes
/-!
# What a line may do

Looking at a line, to colour or to resolve it, does nothing; completing it asks commands. Carrying
it out asks commands and then executes one at most, and only where every word has led on to a
command or a parameter without a fault (`Session.starts_command`). The session moves to the
container that a line has led to, and to nothing else, and it ends just where the walk takes one of
the builtins of the top (`Session.terminates_iff`). Together that is `line_discipline`.
-/

namespace ConfigShell

open Shell (perform StartsOnly)

variable {site : Site} {l next last first : Landing} {n second : Node} {journal journal' : Journal}
  {words : List Walk.Word} {s : Session} {lexed : Line.Lexed} {number : Option Int}

/-! ## Taking a builtin -/

namespace Landing

theorem chain_of_parent {up : Landing} (h : l.parent? = some up) :
    l.chain = up.chain ++ [l.node] := by
  obtain ⟨node, above⟩ := l
  cases above with
  | nil => cases h
  | cons node' above => cases h; simp [chain]

/-- A word leads up by one node or down by one. -/
theorem Takes.up_or_enter {word : Text} {token : Option Line.Token} {validate : Bool}
    (h : l.Takes site word token validate next) :
    l.parent? = some next ∨ ∃ n, next = l.enter n := by
  cases h with
  | up inContainer parent => exact .inl parent
  | found | parameter | unclear | builtin | option => exact .inr ⟨_, rfl⟩

/-- So what is below the top has been entered from there, if the word before does not stand below
it, too. -/
theorem Takes.entered {word : Text} {token : Option Line.Token} {validate : Bool}
    (h : l.Takes site word token validate next) {top : Node} (hnext : [top, n] <+: next.chain) :
    [top, n] <+: l.chain ∨ l = ⟨top, []⟩ ∧ next = l.enter n := by
  rcases h.up_or_enter with hup | ⟨n', rfl⟩
  · exact .inl (hnext.trans ⟨[l.node], (chain_of_parent hup).symm⟩)
  · obtain ⟨node, above⟩ := l
    rw [chain_enter] at hnext
    cases above with
    | nil =>
      obtain ⟨rfl, rfl⟩ : top = node ∧ n = n' := by simpa [chain] using hnext
      exact .inr ⟨rfl, rfl⟩
    | cons node' above =>
      refine .inl (List.prefix_of_prefix_length_le hnext (List.prefix_append _ _) ?_)
      simp [chain]

/-- At the top a builtin is found in the container there. -/
theorem Takes.exists_container {word : Text} {token : Option Line.Token} {validate : Bool}
    {top : Node} {b : Label} (h : Takes site ⟨top, []⟩ word token validate next)
    (hnext : next = enter ⟨top, []⟩ (.builtin b)) (htop : top.kind ≠ .builtin) :
    ∃ c, top = .container c := by
  cases h with
  | up _ parent => cases parent
  | found inContainer => exact ⟨_, inContainer⟩
  | builtin below => exact absurd (congrArg Node.kind below) htop
  | parameter | unclear | option => cases hnext

end Landing

namespace Walk.Leads

/-- **What stands below the top has been entered from there**, by one of the words. -/
theorem exists_entry (h : Leads site l journal words last journal') {top : Node}
    (hlast : [top, n] <+: last.chain) :
    [top, n] <+: l.chain ∨ ∃ before word after j₀ j₁, words = before ++ word :: after ∧
      Leads site l journal before ⟨top, []⟩ j₀ ∧
      perform (Landing.resolve site ⟨top, []⟩ word.text word.token word.validate) j₀ =
        (.ok (.ok (Landing.enter ⟨top, []⟩ n)), j₁) := by
  induction h with
  | here => exact .inl hlast
  | @on l next _ journal journal' _ word rest hfirst _ ih =>
    rcases ih hlast with hnext | ⟨before, word', after, j₀, j₁, rfl, hbefore, hword'⟩
    · have htakes := l.comesTo_resolve word.text word.token word.validate journal _
        (by rw [hfirst]) next rfl
      rcases htakes.entered hnext with hl | ⟨rfl, rfl⟩
      · exact .inl hl
      · exact .inr ⟨[], word, rest, journal, journal', rfl, .here _ _, hfirst⟩
    · exact .inr ⟨word :: before, word', after, j₀, j₁, rfl, .on hfirst hbefore, hword'⟩

/-- Below a builtin all words lead on. -/
theorem exists_below_builtin (site : Site) {b : Label} (hl : l.node = .builtin b)
    (words : List Word) :
    ∃ last b', last.node = .builtin b' ∧ l.chain <+: last.chain ∧
      ∀ journal, Leads site l journal words last journal := by
  induction words generalizing l b with
  | nil => exact ⟨l, b, hl, List.prefix_rfl, fun journal => .here _ _⟩
  | cons word rest ih =>
    let below : Label := { name := some word.text, token := word.token }
    have hword (journal : Journal) :
        perform (l.resolve site word.text word.token word.validate) journal =
          (.ok (.ok (l.enter (.builtin below))), journal) := by
      unfold Landing.resolve
      rw [hl]
      rfl
    obtain ⟨last, b', hlast, hchain, hleads⟩ := ih (l := l.enter (.builtin below)) rfl
    refine ⟨last, b', hlast, ?_, fun journal => .on (hword journal) (hleads journal)⟩
    rw [Landing.chain_enter] at hchain
    exact (List.prefix_append _ _).trans hchain

end Walk.Leads

namespace Landing

theorem endsSession_iff : l.endsSession = true ↔
    ∃ top b, [top, Node.builtin b] <+: l.chain ∧ top.kind ≠ .builtin ∧
      ∃ name ∈ rootBuiltins, b.name = some name := by
  unfold endsSession
  split
  · rename_i top b rest hchain
    have hprefix : [top, .builtin b] <+: l.chain := ⟨rest, hchain.symm⟩
    simp only [Bool.and_eq_true, bne_iff_ne, Option.any_eq_true, List.contains_iff_mem]
    constructor
    · rintro ⟨htop, name, hb, hname⟩
      exact ⟨top, b, hprefix, htop, name, hname, hb⟩
    · rintro ⟨top', b', ⟨rest', hrest'⟩, htop, name, hname, hb⟩
      obtain ⟨rfl, rfl, -⟩ : top' = top ∧ b' = b ∧ rest' = rest := by simpa [hchain] using hrest'
      exact ⟨htop, name, hb, hname⟩
  · rename_i hchain
    refine ⟨nofun, ?_⟩
    rintro ⟨top, b, ⟨rest, hrest⟩, -⟩
    exact (hchain top b rest hrest.symm).elim

end Landing

namespace Session

/-- On its way, saved path included, the walk stands at the top of the tree, and the next word
leads to one of the builtins there. -/
def TakesExit (site : Site) (s : Session) (lexed : Line.Lexed) (journal : Journal) : Prop :=
  ∃ c before word after j₀ j₁ b, Walk.wordsOf s.path lexed true = before ++ word :: after ∧
    (∃ t, perform (Walk.top site) journal = (.ok t, journal) ∧
      Walk.Leads site t journal before ⟨.container c, []⟩ j₀) ∧
    perform (Landing.resolve site ⟨.container c, []⟩ word.text word.token word.validate) j₀ =
      (.ok (.ok (Landing.enter ⟨.container c, []⟩ (.builtin b))), j₁) ∧
    ∃ name ∈ rootBuiltins, b.name = some name

/-- What the resolution of a line has led to is what is acted on. -/
theorem CarriedOut.dispatched {result : Except Breakdown (Outcome × Session) × Journal}
    {steps : List (Line.Token × Node)} (h : CarriedOut site s lexed journal result)
    (words : lexed.isEmpty = false)
    (resolved : perform (s.resolve site lexed true) journal =
      (.ok (.ok { landing := some l, steps := steps }), journal')) :
    ∃ traced, traced.calls = journal'.calls ∧ Dispatched site s l traced result := by
  cases h with
  | empty isEmpty => rw [words] at isEmpty; cases isEmpty
  | broken _ resolved' => rw [resolved] at resolved'; cases resolved'
  | refused _ resolved' => rw [resolved] at resolved'; cases resolved'
  | landed _ resolved' calls dispatched =>
    rw [resolved] at resolved'
    cases resolved'
    exact ⟨_, calls, dispatched⟩

/-- A line that ends the session has taken a builtin of the top. -/
theorem CarriedOut.takesExit {s' : Session}
    (h : CarriedOut site s lexed journal (.ok (.terminate, s'), journal')) :
    lexed.isEmpty = false ∧ s.TakesExit site lexed journal := by
  cases h with
  | @landed l _ _ _ _ words resolved calls dispatched =>
    refine ⟨words, ?_⟩
    cases dispatched with
    | executed _ _ same => exact absurd rfl (same _ _ rfl).1
    | told belowBuiltin ends =>
      have hends : l.endsSession = true := by
        cases hl : l.endsSession with
        | true => rfl
        | false => simp [hl] at ends
      obtain ⟨top, b, hchain, htop, name, hname, hb⟩ := Landing.endsSession_iff.mp hends
      obtain ⟨-, t, ht, hleads⟩ := resolve_eq_ok_iff.mp ⟨_, resolved⟩
      rcases hleads.exists_entry hchain with
        hstart | ⟨before, word, after, j₀, j₁, hwords, hbefore, hword⟩
      · obtain ⟨c, rfl, -⟩ := Walk.exists_container_of_top ht
        exact absurd hstart.length_le (by simp [Landing.chain])
      · have htakes := Landing.comesTo_resolve ⟨top, []⟩ word.text word.token word.validate j₀ _
          (by rw [hword]) _ rfl
        obtain ⟨c, rfl⟩ := htakes.exists_container rfl htop
        exact ⟨c, before, word, after, j₀, j₁, b, hwords, ⟨t, ht, hbefore⟩, hword, name, hname, hb⟩

/-- A line that takes a builtin of the top stands below it in the end. -/
theorem TakesExit.exists_resolved (h : s.TakesExit site lexed journal)
    (words : lexed.isEmpty = false) :
    ∃ l b steps after, l.node = .builtin b ∧ l.endsSession = true ∧
      perform (s.resolve site lexed true) journal =
        (.ok (.ok { landing := some l, steps := steps }), after) := by
  obtain ⟨c, before, word, after, j₀, j₁, b, hwords, ⟨t, ht, hbefore⟩, hword, hname⟩ := h
  -- whatever follows the builtin leads on below it
  obtain ⟨last, b', hlast, hchain, hafter⟩ :=
    Walk.Leads.exists_below_builtin site (l := Landing.enter ⟨.container c, []⟩ (.builtin b)) rfl
      after
  have hleads : Walk.Leads site t journal (Walk.wordsOf s.path lexed true) last j₁ := by
    rw [hwords]
    exact Walk.Leads.append_iff.mpr ⟨_, _, hbefore, .on hword (hafter j₁)⟩
  obtain ⟨steps, resolved⟩ :=
    resolve_eq_ok_iff.mpr ⟨Line.Lexed.isComment_of_words words, t, ht, hleads⟩
  have hends : last.endsSession = true :=
    Landing.endsSession_iff.mpr ⟨.container c, b, hchain, by simp [Node.kind], hname⟩
  exact ⟨last, b', steps, j₁, hlast, hends, resolved⟩

/-- **The session ends just where the walk takes a builtin of the top.** -/
theorem terminates_iff :
    (∃ s' after, perform (s.command site lexed number) journal = (.ok (.terminate, s'), after)) ↔
      lexed.isEmpty = false ∧ s.TakesExit site lexed journal := by
  have hcarried := carriedOut site s lexed number journal
  constructor
  · rintro ⟨s', after, h⟩
    rw [h] at hcarried
    exact hcarried.takesExit
  · rintro ⟨words, htakes⟩
    obtain ⟨l, b, steps, after, hnode, hends, resolved⟩ := htakes.exists_resolved words
    obtain ⟨traced, -, dispatched⟩ := hcarried.dispatched words resolved
    cases h : perform (s.command site lexed number) journal with
    | mk result last =>
      rw [h] at dispatched
      cases dispatched with
      | moved atContainer => rw [hnode] at atContainer; cases atContainer
      | executed atCommand => simp [hnode, Node.kind] at atCommand
      | told _ ends =>
        rw [hends] at ends
        exact ⟨s, traced, by rw [ends]; rfl⟩
      | unclear atAmbiguity => rw [hnode] at atAmbiguity; cases atAmbiguity

/-- A line of words that leads to a container. -/
def MovesTo (site : Site) (s : Session) (lexed : Line.Lexed) (journal : Journal) (l : Landing) :
    Prop :=
  lexed.isEmpty = false ∧ l.node.kind = .container ∧ ∃ steps resolved,
    perform (s.resolve site lexed true) journal =
      (.ok (.ok { landing := some l, steps := steps }), resolved)

/-- **A session moves only to the container that a line has led to.** -/
theorem moves_command {outcome : Outcome} {s' : Session}
    (h : perform (s.command site lexed number) journal = (.ok (outcome, s'), journal')) :
    (s' = s ∧ ∀ l, ¬ s.MovesTo site lexed journal l) ∨
      outcome = .goOn ∧ ∃ l, s.MovesTo site lexed journal l ∧ s' = { s with path := l.path } := by
  have hcarried := carriedOut site s lexed number journal
  rw [h] at hcarried
  cases hcarried with
  | empty isEmpty => exact .inl ⟨rfl, fun l hl => by simp [hl.1] at isEmpty⟩
  | refused _ resolved =>
    refine .inl ⟨rfl, ?_⟩
    rintro l ⟨-, -, steps, journal₁, resolved'⟩
    rw [resolved] at resolved'
    cases resolved'
  | @landed l steps _ _ _ words resolved calls dispatched =>
    -- where the line has led to is no container in the other three cases
    have hstays (hl : l.node.kind ≠ .container) : ∀ l', ¬ s.MovesTo site lexed journal l' := by
      rintro l' ⟨-, hl', steps', journal₁, resolved'⟩
      rw [resolved] at resolved'
      cases resolved'
      exact hl hl'
    cases dispatched with
    | moved atContainer =>
      exact .inr ⟨rfl, l, ⟨words, by rw [atContainer]; rfl, steps, _, resolved⟩, rfl⟩
    | executed atCommand _ same =>
      refine .inl ⟨(same _ _ rfl).2, hstays ?_⟩
      rcases atCommand with hl | hl <;> simp [hl]
    | told belowBuiltin =>
      refine .inl ⟨rfl, hstays ?_⟩
      rcases belowBuiltin with hl | hl <;> simp [hl]
    | unclear atAmbiguity => exact .inl ⟨rfl, hstays (by simp [atAmbiguity, Node.kind])⟩

end Session

/-! ## What is started -/

namespace Call

/-- The program is asked what may come next. -/
def IsProbe (c : Call) : Prop := c.arguments.head? = some "-c"

/-- The program is executed. -/
def IsExecution (c : Call) : Prop := c.arguments.head? = some "--"

end Call

theorem fault_of_plan {c : Command} {arguments : List Text}
    (h : Execution.plan l = .ok (c, arguments)) : ∀ p ∈ l.parameters, p.fault = none := by
  have hfaulty : Execution.faulty? l.parameters = none := by
    unfold Execution.plan at h
    split at h
    · cases h
    · split at h
      · cases h
      · assumption
  intro p hp
  have hnone := List.findSome?_eq_none_iff.mp hfaulty p (List.mem_reverse.mpr hp)
  simpa using hnone

namespace Session

theorem startsOnly_complete (s : Session) (lexed : Line.Lexed) :
    StartsOnly Call.IsProbe (s.complete site lexed) :=
  (does_complete s lexed fun _ _ _ => rfl).starts

theorem probes_resolve (site : Site) (s : Session) (lexed : Line.Lexed) (journal : Journal) :
    ∃ probes, (perform (s.resolve site lexed true) journal).2.calls = journal.calls ++ probes ∧
      ∀ call ∈ probes, call.IsProbe :=
  (does_resolveLine s lexed fun _ _ _ _ => rfl).starts journal

/-- The line resolves, with these calls to ask commands, to a command or a parameter. No word of it
is ambiguous, and no parameter has a fault. -/
def ExecutesAt (site : Site) (s : Session) (lexed : Line.Lexed) (journal : Journal)
    (probes : List Call) (l : Landing) : Prop :=
  (l.node.kind = .command ∨ l.node.kind = .parameter) ∧ (∀ p ∈ l.parameters, p.fault = none) ∧
    ∃ steps resolved, perform (s.resolve site lexed true) journal =
        (.ok (.ok { landing := some l, steps := steps }), resolved) ∧
      resolved.calls = journal.calls ++ probes ∧
      steps.map (·.1) = (Walk.splitRoot lexed.tokens).2 ∧ ∀ step ∈ steps, step.2.kind ≠ .ambiguous

/-- **A line asks commands, and at the end it executes one at most**, where all its words have led
on. -/
theorem starts_command (s : Session) (lexed : Line.Lexed) (number : Option Int)
    (journal : Journal) :
    ∃ probes executions, (perform (s.command site lexed number) journal).2.calls =
        journal.calls ++ probes ++ executions ∧
      (∀ call ∈ probes, call.IsProbe) ∧
      (executions = [] ∨ ∃ call l, executions = [call] ∧ call.IsExecution ∧
        s.ExecutesAt site lexed journal probes l) := by
  obtain ⟨probes, hcalls, hprobes⟩ := probes_resolve site s lexed journal
  have hcarried := carriedOut site s lexed number journal
  cases h : perform (s.command site lexed number) journal with
  | mk result after =>
    rw [h] at hcarried
    have hprobed (same : after.calls = journal.calls ++ probes) :
        ∃ probes executions, after.calls = journal.calls ++ probes ++ executions ∧
          (∀ call ∈ probes, call.IsProbe) ∧
          (executions = [] ∨ ∃ call l, executions = [call] ∧ call.IsExecution ∧
            s.ExecutesAt site lexed journal probes l) :=
      ⟨probes, [], by rw [same, List.append_nil], hprobes, .inl rfl⟩
    cases hcarried with
    | empty => exact ⟨[], [], by simp, by simp, .inl rfl⟩
    | broken _ resolved =>
      rw [resolved] at hcalls
      exact hprobed hcalls
    | refused _ resolved same =>
      rw [resolved] at hcalls
      exact hprobed (same.trans hcalls)
    | @landed l steps resolution traced _ _ resolved same dispatched =>
      rw [resolved] at hcalls
      cases dispatched with
      | moved => exact hprobed (same.trans hcalls)
      | told => exact hprobed (same.trans hcalls)
      | unclear _ same' => exact hprobed (same'.trans (same.trans hcalls))
      | executed atCommand calls =>
        rcases calls with same' | ⟨c, hplan, hexecution⟩
        · exact hprobed (same'.trans (same.trans hcalls))
        · obtain ⟨htokens, hclear⟩ := steps_of_resolve resolved
          have hl : l.node.kind ≠ .ambiguous := by rcases atCommand with hl | hl <;> simp [hl]
          refine ⟨probes, [site.execution c l.parameters], ?_, hprobes, .inr ⟨_, l, rfl, rfl, ?_⟩⟩
          · rw [hexecution, same, hcalls]
          · exact ⟨atCommand, fault_of_plan hplan, steps, resolution, resolved, hcalls, htokens,
              hclear hl⟩

end Session

/-- **What a line may do.** Colouring and resolving a line do nothing at all, and completing it asks
commands; none of the three has a session to give back. Carrying it out asks commands and then
executes one at most, where every word has led on without being ambiguous and no parameter has a
fault. The session moves where the line has led to a container and the outcome is to go on, and
stays as it is otherwise. It ends just where the walk, standing at the top, takes a builtin. -/
theorem line_discipline (site : Site) (s : Session) (lexed : Line.Lexed) (number : Option Int)
    (journal : Journal) :
    (perform (s.colourise site lexed) journal).2 = journal ∧
    (perform (s.resolve site lexed) journal).2 = journal ∧
    StartsOnly Call.IsProbe (s.complete site lexed) ∧
    (∃ probes executions, (perform (s.command site lexed number) journal).2.calls =
        journal.calls ++ probes ++ executions ∧
      (∀ call ∈ probes, call.IsProbe) ∧
      (executions = [] ∨ ∃ call l, executions = [call] ∧ call.IsExecution ∧
        s.ExecutesAt site lexed journal probes l)) ∧
    (∀ outcome s' after,
      perform (s.command site lexed number) journal = (.ok (outcome, s'), after) →
      (s' = s ∧ ∀ l, ¬ s.MovesTo site lexed journal l) ∨
        outcome = .goOn ∧ ∃ l, s.MovesTo site lexed journal l ∧ s' = { s with path := l.path }) ∧
    ((∃ s' after, perform (s.command site lexed number) journal = (.ok (.terminate, s'), after)) ↔
      lexed.isEmpty = false ∧ s.TakesExit site lexed journal) :=
  ⟨congrArg Prod.snd ((s.isQuiet_colourise lexed).perform_eq journal journal),
    congrArg Prod.snd ((s.isQuiet_resolve lexed).perform_eq journal journal),
    s.startsOnly_complete lexed, s.starts_command lexed number journal,
    fun _ _ _ => Session.moves_command, Session.terminates_iff⟩

end ConfigShell
