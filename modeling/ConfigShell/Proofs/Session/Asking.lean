import ConfigShell.Proofs.Session.Alike
import ConfigShell.Proofs.Tree.Asked
/-!
# Asking and executing see the same parameters

A line that ends at a command or a parameter has come to the command first. From there on each word
has a parameter of its own, and what a command is asked and what it is executed with are made of the
same row of parameters: asked about a word it gets the parameters before that word as they are in
the end, and executed it gets all of them (`Session.parameters_of_command`). A parameter with a fault
prevents that, and the deepest one is reported.
-/

namespace ConfigShell

open Shell (perform perform_bind_of_ok value? value?_eq_some_iff)

variable {site : Site} {l : Landing} {c : Command} {s : Session} {lexed : Line.Lexed}
  {journal resolved : Journal} {steps : List (Line.Token × Node)} {number : Option Int}

/-! ## Executing -/

/-- A fault with none deeper is the one that prevents the execution. -/
theorem plan_of_fault {shallower deeper : List Parameter} {p : Parameter} {fault : ParameterFault}
    (hc : l.command? = some c) (hl : l.parameters = shallower ++ p :: deeper)
    (hp : p.fault = some fault) (hdeeper : ∀ q ∈ deeper, q.fault = none) :
    Execution.plan l = .error (.parameter fault p.complaint) := by
  have hnone : deeper.reverse.findSome?
      (fun q => q.fault.map (ExecutionFault.parameter · q.complaint)) = none := by
    rw [List.findSome?_eq_none_iff]
    intro q hq
    rw [hdeeper q (List.mem_reverse.mp hq)]
    rfl
  have hfaulty : Execution.faulty? l.parameters = some (.parameter fault p.complaint) := by
    rw [Execution.faulty?, hl, List.reverse_append, List.reverse_cons, List.append_assoc,
      List.findSome?_append, hnone, Option.none_or, List.singleton_append, List.findSome?_cons, hp]
    rfl
  unfold Execution.plan
  rw [hc, hfaulty]

namespace Session

/-- What is written when a line is traced. -/
def trace (s : Session) (l : Landing) : Text :=
  if s.isTracing then Text.spellStrays l.outline else []

/-- A line that ends at a command or a parameter is executed and reported on, after it has been
traced. -/
theorem perform_command_of_execution (words : lexed.isEmpty = false)
    (hresolve : perform (s.resolve site lexed true) journal =
      (.ok (.ok { landing := some l, steps := steps }), resolved))
    (hl : l.node.IsCommandOrParameter) :
    perform (s.command site lexed number) journal =
      perform (Execution.run site.host site.tree.environment l >>= s.report)
        { resolved with err := resolved.err ++ s.trace l } := by
  have hdispatch : s.dispatch site l lexed number =
      Execution.run site.host site.tree.environment l >>= s.report := by
    unfold dispatch
    cases hn : l.node with
    | command c => rfl
    | parameter p => rfl
    | container | builtin | option | ambiguous =>
      rw [hn] at hl
      rcases hl with hl | hl <;> cases hl
  rw [command_eq_act site s words, perform_bind_of_ok hresolve]
  unfold act trace
  dsimp only
  rw [hdispatch]
  cases s.isTracing with
  | true => rfl
  | false =>
    simp only [Bool.false_eq_true, if_false, List.append_nil]

/-- Where nothing can be executed, the fault is reported, and nothing else is done. -/
theorem perform_command_of_fault {fault : ExecutionFault} (words : lexed.isEmpty = false)
    (hresolve : perform (s.resolve site lexed true) journal =
      (.ok (.ok { landing := some l, steps := steps }), resolved))
    (hl : l.node.IsCommandOrParameter) (hplan : Execution.plan l = .error fault) :
    perform (s.command site lexed number) journal =
      (.ok (.error, s), { resolved with
        err := resolved.err ++ s.trace l ++ (Text.spellStrays fault.report ++ "\n") }) := by
  rw [perform_command_of_execution words hresolve hl, Execution.run_of_fault hplan]
  rfl

/-- What can be executed is attempted, once, unless its directory cannot even be asked for. -/
theorem attempts_command (words : lexed.isEmpty = false)
    (hresolve : perform (s.resolve site lexed true) journal =
      (.ok (.ok { landing := some l, steps := steps }), resolved))
    (hl : l.node.IsCommandOrParameter) (hc : l.command? = some c)
    (clear : ∀ p ∈ l.parameters, p.fault = none) (number : Option Int) :
    let result := perform (s.command site lexed number) journal
    (∃ answer, site.host.Attempts c.sysconf (site.execution c l.parameters) resolved.calls answer
      result.2.calls) ∨ c.sysconf.isPassable = false ∧ result.2.calls = resolved.calls := by
  have hfaulty : Execution.faulty? l.parameters = none := by
    rw [Execution.faulty?, List.findSome?_eq_none_iff]
    intro p hp
    rw [clear p (List.mem_reverse.mp hp)]
    rfl
  have hplan : Execution.plan l = .ok (c, Execution.arguments l.parameters) := by
    unfold Execution.plan
    rw [hc, hfaulty]
  -- after the attempt nothing is started
  have hreport (r : Except ExecutionFault Unit) : Shell.StartsNothing (s.report r) := by
    cases r with
    | ok _ => exact (Shell.isQuiet_pure _).startsNothing
    | error fault =>
      exact (Shell.startsNothing_printError _).bind fun _ => (Shell.isQuiet_pure _).startsNothing
  have hended (answer : Except RunFault Reply) :
      Shell.StartsNothing (Execution.ended answer >>= s.report) :=
    (Execution.startsNothing_ended answer).bind hreport
  dsimp only
  rw [perform_command_of_execution words hresolve hl]
  rw [Execution.run_of_plan hplan, bind_assoc]
  generalize htraced : { resolved with err := resolved.err ++ s.trace l } = traced
  have hcalls : traced.calls = resolved.calls := by rw [← htraced]
  rw [← hcalls]
  cases hlaunch : perform (site.host.launch site.tree.environment c.sysconf c.executable.toText
      (Execution.arguments l.parameters)) traced with
  | mk outcome launched =>
    cases outcome with
    | ok answer =>
      refine .inl ⟨answer, ?_⟩
      rw [perform_bind_of_ok hlaunch, hended answer launched]
      exact Host.attempts_of_launch hlaunch
    | error e =>
      refine .inr ?_
      rw [Shell.perform_bind_of_error hlaunch]
      obtain ⟨hpassable, rfl⟩ := Host.unpassable_of_launch hlaunch
      exact ⟨hpassable, rfl⟩

/-- A line that ends at a command or a parameter comes to the command before, with the words after
it to be asked about if the saved path is unshadowed. -/
theorem exists_command (hresolve : perform (s.resolve site lexed true) journal =
      (.ok (.ok { landing := some l, steps := steps }), resolved))
    (hl : l.node.IsCommandOrParameter) :
    ∃ (c : Command) (up t : Landing) (before after : List Walk.Word),
      Walk.wordsOf s.path lexed true = before ++ after ∧
      perform (Walk.top site) journal = (.ok t, journal) ∧
      Walk.Leads site t journal before (up.enter (.command c)) journal ∧
      Walk.Leads site (up.enter (.command c)) journal after l resolved ∧
      (site.Unshadowed s.path → ∀ word ∈ after, word.validate = true) := by
  obtain ⟨-, hline⟩ := resolve_eq_line.mp hresolve
  obtain ⟨first, journal₁, hstart, hwords⟩ := Walk.line_eq_ok_iff.mp hline
  obtain rfl := (Walk.isQuiet_start s.path _).journal_eq hstart
  obtain ⟨t, ht, hsaved⟩ := Walk.start_eq_ok_iff.mp hstart
  have htyped := Walk.words_eq_ok_iff.mp ⟨steps, hwords⟩
  have hplaced := Site.isPlaced_top ht
  by_cases hfirst : first.node.IsCommandOrParameter
  · obtain ⟨c₀, rfl, -⟩ := Walk.exists_container_of_top ht
    obtain ⟨c, up, before, after, hpath, hbefore, hafter⟩ := hsaved.exists_command hplaced
      (not_or.mpr ⟨nofun, nofun⟩) hfirst
    refine ⟨c, up, _, before, after ++ _, ?_, ht, hbefore,
      Walk.Leads.append_iff.mpr ⟨_, _, hafter, htyped⟩, fun hunshadowed => ?_⟩
    · rw [← List.append_assoc, ← hpath]
      rfl
    · -- an unshadowed path leads to a container
      obtain ⟨names, here, hstands, hhere⟩ :=
        hunshadowed.exists_stands (Walk.splitRoot lexed.tokens).1
      rw [hhere] at hstart
      obtain ⟨⟨rfl⟩, -⟩ := Prod.mk.inj hstart
      obtain ⟨c', hc', -⟩ := hstands.exists_container
      rw [hc'] at hfirst
      rcases hfirst with h | h <;> cases h
  · obtain ⟨c, up, before, after, htokens, hbefore, hafter⟩ := htyped.exists_command
      (hsaved.invariant (fun h htakes => h.takes htakes) hplaced) hfirst hl
    refine ⟨c, up, t, _ ++ before, after, ?_, ht,
      Walk.Leads.append_iff.mpr ⟨_, _, hsaved, hbefore⟩, hafter, fun _ word hword => ?_⟩
    · rw [List.append_assoc, ← htokens]
      rfl
    · have hmem := List.mem_append_right before hword
      rw [← htokens] at hmem
      obtain ⟨token, -, rfl⟩ := List.mem_map.mp hmem
      rfl

/-- **Asking and executing see the same parameters.** A line that ends at a command or a parameter
has come to a command before, by words that start nothing. The rest of its words each have a
parameter of that command, in order, and are asked about in turn; a name of a saved path is not, but
there is none among them if the path is unshadowed. Without a fault among them the command is
executed with these parameters, or this is attempted; with one, nothing is executed and the deepest
fault is reported. -/
theorem parameters_of_command (words : lexed.isEmpty = false)
    (hresolve : perform (s.resolve site lexed true) journal =
      (.ok (.ok { landing := some l, steps := steps }), resolved))
    (hl : l.node.IsCommandOrParameter) (number : Option Int) :
    ∃ (c : Command) (above : List Node) (t : Landing) (before after : List Walk.Word),
      Walk.wordsOf s.path lexed true = before ++ after ∧
      perform (Walk.top site) journal = (.ok t, journal) ∧
      Walk.Leads site t journal before ⟨.command c, above.reverse⟩ journal ∧
      l.chain = above ++ .command c :: l.parameters.map .parameter ∧
      (∀ p ∈ l.parameters, p.command = some c) ∧
      (∀ (up : Landing) (ps : List Parameter), ps <+: l.parameters →
        up.chain = above ++ .command c :: ps.map .parameter →
          up.command? = some c ∧ up.parameters = ps) ∧
      site.AsksAll c [] journal.calls after l.parameters resolved.calls ∧
      (site.Unshadowed s.path → ∀ word ∈ after, word.validate = true) ∧
      let result := perform (s.command site lexed number) journal
      ((∀ p ∈ l.parameters, p.fault = none) →
        (∃ answer, site.host.Attempts c.sysconf (site.execution c l.parameters) resolved.calls
          answer result.2.calls) ∨
        c.sysconf.isPassable = false ∧ result.2.calls = resolved.calls) ∧
      ∀ shallower p deeper fault, l.parameters = shallower ++ p :: deeper →
        p.fault = some fault → (∀ q ∈ deeper, q.fault = none) →
        result = (.ok (.error, s), { resolved with
          err := resolved.err ++ s.trace l ++
            (Text.spellStrays (ExecutionFault.parameter fault p.complaint).report ++ "\n") }) := by
  obtain ⟨c, up, t, before, after, hwords, ht, hbefore, hafter, hasked⟩ :=
    exists_command hresolve hl
  have hbelow : (up.enter (.command c)).Below c up.chain [] :=
    ⟨by rw [Landing.chain_enter, List.map_nil], by simp⟩
  have habove : up.enter (.command c) = ⟨.command c, up.chain.reverse⟩ := by
    rw [Landing.chain, List.reverse_reverse]
    rfl
  rcases hbelow.leads hafter with ⟨ps, hasks, hlast⟩ | hambiguous
  · rw [List.nil_append] at hlast
    have hparameters := Landing.parameters_of_chain hlast.chain
    have hcommand := Landing.command?_of_chain hlast.chain
    refine ⟨c, up.chain, t, before, after, hwords, ht, habove ▸ hbefore, ?_⟩
    rw [hparameters]
    refine ⟨hlast.chain, hlast.owned, fun up' ps' _ hchain => ?_, hasks, hasked, ?_, ?_⟩
    · exact ⟨Landing.command?_of_chain hchain, Landing.parameters_of_chain hchain⟩
    · intro clear
      rw [← hparameters] at clear ⊢
      exact attempts_command words hresolve hl hcommand clear number
    · intro shallower p deeper fault hps hp hdeeper
      have hplan := plan_of_fault hcommand (hparameters.trans hps) hp hdeeper
      exact perform_command_of_fault words hresolve hl hplan
  · rcases hl with hl | hl <;> simp [hl] at hambiguous

/-- A machine with one command, which knows two keys. -/
def answering : Site where
  host := { Host.bare with
    entries := fun p => if p = "/tree" then [⟨"ping", .file, true⟩] else []
    isDirectory := fun _ => .ok true
    reply := fun _ call => .ok
      { out := if call.arguments.head? = some "-c" then "-count=\n*host=\n" else [] } }
  tree := { libexec := "/tree", sysconf := "/conf" }

/-- The abbreviated key of the first word is asked about as it is typed, and is handed on as it has
become. -/
theorem parameters_answering :
    let line : Line.Lexed := .ofWords ["ping", "co=3", "host=x"]
    let result := perform (command answering {} line) {}
    result.2.calls.map (·.arguments) =
        ([["-c", "co", "3"], ["-c", "count", "3", "host", "x"], ["--", "count", "3", "host", "x"]] :
          List (List Text)) ∧
      ∃ (l : Landing) (resolved : Journal) (c : Command) (after : List Walk.Word),
        answering.AsksAll c [] [] after l.parameters resolved.calls ∧
        (∀ p ∈ l.parameters, p.command = some c) ∧
        ((∃ answer, answering.host.Attempts c.sysconf (answering.execution c l.parameters)
          resolved.calls answer result.2.calls) ∨
          c.sysconf.isPassable = false ∧ result.2.calls = resolved.calls) := by
  intro line result
  refine ⟨by decide +kernel, ?_⟩
  have hled : (value? (resolve answering {} line true) {}).map (fun resolution =>
      resolution.landing.map fun l => (l.node.kind, l.parameters.map (·.fault))) =
        some (some (.parameter, [none, none])) := by decide +kernel
  obtain ⟨⟨landing, steps⟩, hvalue, hlanding⟩ := Option.map_eq_some_iff.mp hled
  obtain ⟨l, rfl, hl⟩ := Option.map_eq_some_iff.mp hlanding
  obtain ⟨hkind, hfaults⟩ := Prod.mk.inj hl
  obtain ⟨resolved, hresolve⟩ := value?_eq_some_iff.mp hvalue
  have clear : ∀ p ∈ l.parameters, p.fault = none := by
    intro p hp
    have hmem := List.mem_map_of_mem (f := (·.fault)) hp
    rw [hfaults] at hmem
    simpa using hmem
  obtain ⟨c, above, t, before, after, -, -, -, -, howned, -, hasks, -, hexecuted, -⟩ :=
    parameters_of_command rfl hresolve (.inr hkind) none
  exact ⟨l, resolved, c, after, hasks, howned, hexecuted clear⟩

end Session

end ConfigShell
