import ConfigShell.Proofs.Session.Alike
import ConfigShell.Proofs.Tree.Unasked
/-!
# A line can be cut after a container

Words that lead to a container do nothing on the way, and the saved path they leave leads back to a
container that differs only in the word it is named by. So the rest of the line does as the second
of two lines what it does as the end of one (`Session.cut_after_container`), unless its first word
starts at the top.
-/

namespace ConfigShell

open Shell (perform perform_bind perform_bind_of_ok perform_map Alike)

variable {site : Site} {l l' first last : Landing} {s : Session} {names : List Text}
  {journal journal' : Journal}

/-! ## Standing at the same place -/

namespace Site

theorem IsContainer.bare_eq {c c' : Container} (h : site.IsContainer names c)
    (h' : site.IsContainer names c') : c.bare = c'.bare := by
  have hname := h.name.trans h'.name.symm
  have hlibexec := h.libexec.trans h'.libexec.symm
  have hsysconf := h.sysconf.trans h'.sysconf.symm
  have hcontainers := h.containers.trans h'.containers.symm
  have hcommands := h.commands.trans h'.commands.symm
  have hfiles := h.files.trans h'.files.symm
  have hbuiltins := h.builtins.trans h'.builtins.symm
  unfold Container.bare Label.bare
  rw [hname, hlibexec, hsysconf, hcontainers, hcommands, hfiles, hbuiltins]

theorem Stands.exists_top (h : site.Stands [] l) :
    ∃ c, l = ⟨.container c, []⟩ ∧ site.IsContainer [] c := by
  generalize hnames : ([] : List Text) = names at h
  cases h with
  | top isContainer => exact ⟨_, rfl, isContainer⟩
  | under => simp at hnames

theorem Stands.exists_above {name : Text} (h : site.Stands (names ++ [name]) l) :
    ∃ up c, l = up.enter (.container c) ∧ site.Stands names up ∧
      site.IsContainer (names ++ [name]) c := by
  generalize hnames : names ++ [name] = names' at h
  cases h with
  | top => simp at hnames
  | under above shows isContainer =>
    obtain ⟨rfl, rfl⟩ : names = _ ∧ name = _ := by simpa using hnames
    exact ⟨_, _, rfl, above, isContainer⟩

/-- **Walks that stand at the same names stand alike.** -/
theorem Stands.bare_eq (h : site.Stands names l) (h' : site.Stands names l') :
    l.bare = l'.bare := by
  induction h generalizing l' with
  | top isContainer =>
    obtain ⟨c', rfl, isContainer'⟩ := h'.exists_top
    simp only [Landing.bare, Node.bare, isContainer.bare_eq isContainer', List.map_nil]
  | under above shows isContainer ih =>
    obtain ⟨up', c', rfl, above', isContainer'⟩ := h'.exists_above
    have hnode := congrArg Node.container (isContainer.bare_eq isContainer')
    exact Landing.enter_bare_eq (ih above') hnode

end Site

/-! ## The words of both parts -/

namespace Walk

variable {validate : Bool} {tokens rest : List Line.Token} {steps : List (Line.Token × Node)}

/-- Where some words have led, the words after them go on. -/
theorem perform_words_append
    (h : perform (Walk.words site validate l tokens) journal =
      (.ok { landing := last, steps := steps }, journal')) (rest : List Line.Token) :
    perform (Walk.words site validate l (tokens ++ rest)) journal =
      perform ((fun walk : Walk => { walk with steps := steps ++ walk.steps }) <$>
        Walk.words site validate last rest) journal' := by
  induction tokens generalizing l journal steps with
  | nil =>
    cases h
    exact (congrArg (perform · _) (id_map _)).symm
  | cons token tokens ih =>
    obtain ⟨next, journal₁, others, hnext, hwords, rfl⟩ := words_cons_eq_ok_iff.mp h
    rw [List.cons_append, Walk.words, perform_bind_of_ok hnext, perform_bind, ih hwords]
    simp only [perform_map]
    cases perform (Walk.words site validate last rest) journal' with
    | mk outcome journal'' => cases outcome <;> rfl

/-- Words that lead to a container do nothing on the way, and lead there at any time. -/
theorem perform_words_to_container
    (h : perform (Walk.words site true l tokens) journal =
      (.ok { landing := last, steps := steps }, journal')) (hlast : last.node.kind = .container) :
    ∀ journal, perform (Walk.words site true l tokens) journal =
      (.ok { landing := last, steps := steps }, journal) := by
  have hleads : Leads site l journal (tokens.map (.typed true)) last journal' :=
    words_eq_ok_iff.mp ⟨steps, h⟩
  -- below a command no word leads back to a container
  have hbelow {n : Node} (hn : n.kind = .container) :
      ¬ (n.parametersOf?.isSome ∨ n.kind = .ambiguous) := by
    cases n <;> simp_all [Node.kind, Node.parametersOf?]
  cases hl : l.node.parametersOf? with
  | some command =>
    have hstays := hleads.invariant (fun hl htakes => htakes.below hl) (.inl (by simp [hl]))
    exact absurd hstays (hbelow hlast)
  | none =>
    rcases words_unasked tokens hl with hsame | hcommand
    · obtain ⟨outcome, hquiet⟩ : Shell.IsQuiet (Walk.words site false l tokens) :=
        isQuiet_words l tokens
      rw [hsame, hquiet] at h
      intro journal
      rw [hsame, hquiet]
      exact Prod.ext (congrArg Prod.fst h :) rfl
    · exact absurd (hcommand.asked _ _ _ hleads) (hbelow hlast)

/-- A line is walked from where it starts. -/
theorem perform_line {path : List Text} {lexed : Line.Lexed}
    (hstart : ∀ journal, perform (start site path (splitRoot lexed.tokens).1) journal =
      (.ok (.ok first), journal)) (journal : Journal) :
    perform (Walk.line site path lexed validate) journal =
      perform (Except.ok <$> Walk.words site validate first (splitRoot lexed.tokens).2) journal := by
  simp only [Walk.line, Bool.false_and, Bool.false_eq_true, if_false, List.append_nil]
  rw [perform_bind_of_ok (hstart journal)]
  rfl

theorem splitRoot_unrooted (h : tokens.head?.any hasRootSlash = false) :
    splitRoot tokens = (false, tokens) := by
  cases tokens with
  | nil => rfl
  | cons token tokens =>
    have hroot : hasRootSlash token = false := h
    unfold splitRoot
    simp only [hroot, Bool.false_eq_true, if_false]

end Walk

/-! ## The two lines -/

theorem Line.Lexed.tokens_ne_nil_of_words {lexed : Lexed} (h : lexed.isEmpty = false) :
    lexed.tokens ≠ [] := by
  rintro hnil
  simp [isEmpty, hnil] at h

namespace Session

variable {lexed before after whole : Line.Lexed} {s' : Session}

/-- Where a line leads to a container, it does so at any time and without anything being done. -/
theorem MovesTo.exists_walk (h : s.MovesTo site lexed journal l) : ∃ first steps,
    (∀ journal, perform (Walk.start site s.path (Walk.splitRoot lexed.tokens).1) journal =
      (.ok (.ok first), journal)) ∧
    ∀ journal, perform (Walk.words site true first (Walk.splitRoot lexed.tokens).2) journal =
      (.ok { landing := l, steps := steps }, journal) := by
  obtain ⟨-, hkind, steps, resolved, hresolve⟩ := h
  obtain ⟨-, hline⟩ := resolve_eq_line.mp hresolve
  obtain ⟨first, journal₁, hstart, hwords⟩ := Walk.line_eq_ok_iff.mp hline
  refine ⟨first, steps, fun journal' => ?_, Walk.perform_words_to_container hwords hkind⟩
  rw [(Walk.isQuiet_start s.path _).perform_eq journal' journal, hstart]

/-- A line that leads to a container moves the session there and starts nothing. -/
theorem MovesTo.perform_command (h : s.MovesTo site lexed journal l) (number : Option Int) :
    ∃ journal', perform (s.command site lexed number) journal =
      (.ok (.goOn, { s with path := l.path }), journal') ∧ journal'.calls = journal.calls := by
  obtain ⟨first, steps, hstart, hwords⟩ := h.exists_walk
  obtain ⟨words, hkind, -⟩ := h
  have hresolve : perform (s.resolve site lexed true) journal =
      (.ok (.ok { landing := some l, steps := steps }), journal) :=
    resolve_eq_line.mpr ⟨Line.Lexed.isComment_of_words words,
      Walk.line_eq_ok_iff.mpr ⟨first, journal, hstart journal, hwords journal⟩⟩
  obtain ⟨traced, hcalls, dispatched⟩ :=
    (carriedOut site s lexed number journal).dispatched words hresolve
  generalize perform (s.command site lexed number) journal = result at dispatched ⊢
  cases dispatched with
  | moved => exact ⟨traced, rfl, hcalls⟩
  | executed atCommand => rcases atCommand with hl | hl <;> simp [hl] at hkind
  | told belowBuiltin => rcases belowBuiltin with hl | hl <;> simp [hl] at hkind
  | unclear atAmbiguity => rw [atAmbiguity] at hkind; cases hkind

/-- **The end of a line is walked alike** as a line of its own, after the words before it have led
to a container. -/
theorem MovesTo.alike_line (h : s.MovesTo site before journal l)
    (tokens : whole.tokens = before.tokens ++ after.tokens)
    (unrooted : after.tokens.head?.any Walk.hasRootSlash = false) :
    Alike (OnBoth Walk.SameLanding) (Walk.line site l.path after true)
      (Walk.line site s.path whole true) := by
  obtain ⟨first, steps, hstart, hwords⟩ := h.exists_walk
  have hsplit : Walk.splitRoot whole.tokens = ((Walk.splitRoot before.tokens).1,
      (Walk.splitRoot before.tokens).2 ++ after.tokens) := by
    rw [tokens, Walk.splitRoot_append (Line.Lexed.tokens_ne_nil_of_words h.1)]
  have hunrooted := Walk.splitRoot_unrooted unrooted
  -- where the whole line starts, and where the saved path leads
  have hwhole (journal : Journal) :
      perform (Walk.start site s.path (Walk.splitRoot whole.tokens).1) journal =
        (.ok (.ok first), journal) := by
    rw [hsplit]
    exact hstart journal
  obtain ⟨here, hhere, hreplay⟩ := h.stands.unshadowed.start
  have hsecond (journal : Journal) :
      perform (Walk.start site l.path (Walk.splitRoot after.tokens).1) journal =
        (.ok (.ok here), journal) := by
    rw [hunrooted]
    exact hreplay journal
  have hsame : List.Forall₂ Line.Token.SameWord after.tokens after.tokens :=
    List.forall₂_same.mpr fun t _ => ⟨rfl, rfl⟩
  have hrest := Walk.alike_words site true hsame (hhere.bare_eq h.stands)
  have hmapped : Alike (OnBoth Walk.SameLanding)
      (Except.ok (ε := Text) <$> Walk.words site true here after.tokens)
      (Except.ok (ε := Text) <$> (fun walk : Walk => { walk with steps := steps ++ walk.steps }) <$>
        Walk.words site true l after.tokens) := by
    rw [← comp_map]
    exact hrest.map fun w w' hw => .ok ⟨hw.landing, hw.refused⟩
  intro journal₁ journal₂ hcalls
  have hend : perform (Walk.line site s.path whole true) journal₂ =
      perform (Except.ok (ε := Text) <$>
        (fun walk : Walk => { walk with steps := steps ++ walk.steps }) <$>
          Walk.words site true l after.tokens) journal₂ := by
    rw [Walk.perform_line hwhole, hsplit, perform_map, Walk.perform_words_append (hwords journal₂),
      ← perform_map]
  rw [hend, Walk.perform_line hsecond, hunrooted]
  exact hmapped journal₁ journal₂ hcalls

/-- Where one of two lines that resolve alike leads to a container, so does the other. -/
theorem MovesTo.of_alike (h : s.MovesTo site lexed journal l) (words : after.isEmpty = false)
    (halike : Alike (OnBoth SameEnd) (s'.resolve site after true) (s.resolve site lexed true))
    (hcalls : journal'.calls = journal.calls) :
    ∃ l', s'.MovesTo site after journal' l' ∧ l'.path = l.path := by
  obtain ⟨-, hkind, steps, resolved, hresolve⟩ := h
  obtain ⟨-, hmeets⟩ := halike journal' journal hcalls
  cases hafter : perform (s'.resolve site after true) journal' with
  | mk outcome resolved' =>
    rw [hresolve, hafter] at hmeets
    cases hmeets with
    | ok related =>
      cases related with
      | @ok r _ hend =>
        obtain ⟨landing, steps'⟩ := r
        obtain ⟨l', last, hlanding, hlast, hbare⟩ := hend
        obtain rfl : landing = some l' := hlanding
        obtain rfl : l = last := Option.some.inj hlast
        refine ⟨l', ⟨words, ?_, steps', resolved', hafter⟩, ?_⟩
        · rw [← hkind, ← l'.node.kind_bare, Landing.node_bare_eq hbare, l.node.kind_bare]
        · rw [← l'.path_bare, hbare, l.path_bare]

/-- **A line can be cut after a container.** Its beginning, carried out as a line of its own, moves
the session to that container and starts nothing. Then the rest, unless it starts at the top, has
the outcome of the whole line and starts the same programs; and where the whole line leads to a
container, both ways lead the session there. -/
theorem cut_after_container (h : s.MovesTo site before journal l)
    (tokens : whole.tokens = before.tokens ++ after.tokens) (comment : whole.isComment = false)
    (words : after.isEmpty = false) (unrooted : after.tokens.head?.any Walk.hasRootSlash = false)
    (number number₁ number₂ : Option Int) :
    ∃ journal', perform (s.command site before number₁) journal =
        (.ok (.goOn, { s with path := l.path }), journal') ∧ journal'.calls = journal.calls ∧
      let second := perform (command site { s with path := l.path } after number₂) journal'
      let once := perform (s.command site whole number) journal
      second.1.map (·.1) = once.1.map (·.1) ∧ second.2.calls = once.2.calls ∧
        ∀ l', s.MovesTo site whole journal l' →
          second.1 = .ok (.goOn, { s with path := l'.path }) ∧
            once.1 = .ok (.goOn, { s with path := l'.path }) := by
  obtain ⟨journal', hfirst, hcalls⟩ := h.perform_command number₁
  have hwhole : whole.isEmpty = false := by
    have hne := Line.Lexed.tokens_ne_nil_of_words h.1
    simp [Line.Lexed.isEmpty, comment, tokens, hne]
  have hline := h.alike_line tokens unrooted
  have hcommand :=
    alike_command { s with path := l.path } s words hwhole hline rfl number₂ number
  obtain ⟨hsame, hmeets⟩ := hcommand journal' journal hcalls
  refine ⟨journal', hfirst, hcalls, ?_⟩
  dsimp only
  refine ⟨?_, hsame, fun l' hl' => ?_⟩
  · exact hmeets.map_eq fun r r' h => h.outcome
  · have hresolve := alike_resolve_of_line (s := { s with path := l.path })
      (Line.Lexed.isComment_of_words words) comment hline
    obtain ⟨l₂, hl₂, hpath⟩ := hl'.of_alike words hresolve hcalls
    obtain ⟨journal₂, hsecond, -⟩ := hl₂.perform_command number₂
    obtain ⟨journal₃, honce, -⟩ := hl'.perform_command number
    rw [hsecond, honce, hpath]
    exact ⟨rfl, rfl⟩

/-- Two abbreviated words, cut after the first: the second names a container below it, and would be
a builtin at the top. -/
theorem cut_nested_after_network : ∃ journal',
    perform (command nested {} (.ofWords ["net"])) {} =
      (.ok (.goOn, { path := ["network"] }), journal') ∧ journal'.calls = [] ∧
    let second := perform (command nested { path := ["network"] } (.ofWords ["ex"])) journal'
    let once := perform (command nested {} (.ofWords ["net", "ex"])) {}
    second.1.map (·.1) = once.1.map (·.1) ∧ second.2.calls = once.2.calls ∧
      second.1 = .ok (.goOn, { path := ["network", "exit"] }) ∧
        once.1 = .ok (.goOn, { path := ["network", "exit"] }) := by
  have hmoves (words : List Text)
      (h : (destination? nested {} (.ofWords words) {}).isSome = true) :
      ∃ l, MovesTo nested {} (.ofWords words) {} l := by
    obtain ⟨c, hc⟩ := Option.isSome_iff_exists.mp h
    obtain ⟨l, hl, -⟩ := destination?_eq_some_iff.mp hc
    exact ⟨l, hl⟩
  have hpath {words : List Text} {l : Landing} (hl : MovesTo nested {} (.ofWords words) {} l) :
      l.path = (after nested {} (.ofWords words) none {}).path := by
    rw [hl.after_eq]
  obtain ⟨l, hl⟩ := hmoves ["net"] (by decide +kernel)
  obtain ⟨l', hl'⟩ := hmoves ["net", "ex"] (by decide +kernel)
  have hnetwork : l.path = [("network" : Text)] := (hpath hl).trans (by decide +kernel)
  have hexit : l'.path = [("network" : Text), "exit"] := (hpath hl').trans (by decide +kernel)
  have htokens : (Line.Lexed.ofWords ["net", "ex"]).tokens =
      (Line.Lexed.ofWords ["net"]).tokens ++ (Line.Lexed.ofWords ["ex"]).tokens := rfl
  obtain ⟨journal', hfirst, hcalls, houtcome, hsame, hmoved⟩ :=
    cut_after_container hl htokens rfl rfl (by decide +kernel) none none none
  specialize hmoved l' hl'
  rw [hnetwork] at hfirst houtcome hsame hmoved
  rw [hexit] at hmoved
  exact ⟨journal', hfirst, hcalls, houtcome, hsame, hmoved.1, hmoved.2⟩

end Session

end ConfigShell
