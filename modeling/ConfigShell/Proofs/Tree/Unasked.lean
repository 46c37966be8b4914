import ConfigShell.Proofs.Tree.Standing
/-!
# Walking without asking

Carrying a line out asks commands about its words; looking at a line does not. Up to the first
command both walks are the same, and a walk that has come to a command stays below it: without
asking every further word is taken for a parameter, and with asking a word may be refused or left
open, but leads to nothing else. So a line that is looked at leads where it leads when it is
carried out, unless it comes to a command on both ways (`Session.resolve_unasked`).
-/

namespace ConfigShell

open Shell (perform perform_map perform_bind_of_ok)

variable {site : Site} {l last first : Landing} {journal journal' : Journal} {s : Session}
  {lexed : Line.Lexed} {validate : Bool}

/-- A command, or a parameter of one. -/
def Node.IsCommandOrParameter (n : Node) : Prop := n.kind = .command ∨ n.kind = .parameter

theorem Node.isCommandOrParameter_of_parametersOf? {n : Node} (h : n.parametersOf?.isSome) :
    n.IsCommandOrParameter := by
  cases n with
  | command => exact .inl rfl
  | parameter => exact .inr rfl
  | container | builtin | option | ambiguous => cases h

/-! ## Below a command -/

namespace Landing

/-- Below a command a word is taken for a parameter of it. -/
theorem resolve_below {command : Command} (h : l.node.parametersOf? = some command) (word : Text)
    (token : Option Line.Token) (validate : Bool) :
    l.resolve site word token validate =
      Except.ok <$> l.resolveParameter site command word token validate := by
  unfold resolve
  cases hn : l.node with
  | command c =>
    rw [hn] at h
    cases h
    rfl
  | parameter p =>
    rw [hn] at h
    have hp : p.command = some command := h
    simp only [hp]
  | container | builtin | option | ambiguous => rw [hn] at h; cases h

/-- Where nothing is asked, every word below a command is a parameter. -/
theorem perform_resolve_below {command : Command} (h : l.node.parametersOf? = some command)
    (word : Text) (token : Option Line.Token) (journal : Journal) :
    perform (l.resolve site word token) journal =
      (.ok (.ok (l.enter (.parameter (.ofWord command word token)))), journal) := by
  have hparameter : l.resolveParameter site command word token false =
      pure (l.enter (.parameter (.ofWord command word token))) := by
    unfold resolveParameter
    dsimp only
    split
    · rfl
    · simp [Parameter.matchCandidates_ofWord]
  rw [resolve_below h, hparameter]
  rfl

/-- A word below a command leads to a parameter of it or to something ambiguous. -/
theorem Takes.below {next : Landing} {word : Text} {token : Option Line.Token}
    (h : l.Takes site word token validate next)
    (hl : l.node.parametersOf?.isSome ∨ l.node.kind = .ambiguous) :
    next.node.parametersOf?.isSome ∨ next.node.kind = .ambiguous := by
  rcases hl with hl | hl
  · cases h with
    | parameter below same => exact .inl (by simp [enter, Node.parametersOf?, same])
    | unclear below => exact .inr rfl
    | up inContainer | found inContainer => rw [inContainer] at hl; cases hl
    | builtin below | option below => rw [below] at hl; cases hl
  · exact absurd hl h.not_ambiguous

end Landing

namespace Walk

/-- A word in front of words that lead on without anything being done. -/
theorem perform_words_cons {next : Landing} {token : Line.Token} {tokens : List Line.Token}
    {steps : List (Line.Token × Node)}
    (hnext : ∀ journal, perform (l.resolve site token.data (some token)) journal =
      (.ok (.ok next), journal))
    (hwords : ∀ journal, perform (Walk.words site false next tokens) journal =
      (.ok { landing := last, steps := steps }, journal)) (journal : Journal) :
    perform (Walk.words site false l (token :: tokens)) journal =
      (.ok { landing := last, steps := (token, next.node) :: steps }, journal) :=
  words_cons_eq_ok_iff.mpr ⟨next, journal, steps, hnext journal, hwords journal, rfl⟩

/-- Where nothing is asked, all words below a command lead on. -/
theorem exists_words_below (tokens : List Line.Token) (h : l.node.parametersOf?.isSome) :
    ∃ last steps, last.node.parametersOf?.isSome ∧ ∀ journal,
      perform (Walk.words site false l tokens) journal =
        (.ok { landing := last, steps := steps }, journal) := by
  induction tokens generalizing l with
  | nil => exact ⟨l, [], h, fun _ => rfl⟩
  | cons token rest ih =>
    obtain ⟨command, hcommand⟩ := Option.isSome_iff_exists.mp h
    obtain ⟨last, steps, hlast, hwords⟩ :=
      ih (l := l.enter (.parameter (.ofWord command token.data (some token)))) rfl
    exact ⟨last, _, hlast, perform_words_cons (Landing.perform_resolve_below hcommand _ _) hwords⟩

/-- The words come to a command. Without asking they lead on to one or to a parameter; with asking
they may lead to something ambiguous as well, or may not lead on. -/
structure ComesToCommand (site : Site) (l : Landing) (tokens : List Line.Token) : Prop where
  unasked : ∃ last steps, last.node.parametersOf?.isSome ∧ ∀ journal,
    perform (Walk.words site false l tokens) journal =
      (.ok { landing := last, steps := steps }, journal)
  asked : ∀ last journal journal', Leads site l journal (tokens.map (.typed true)) last journal' →
    last.node.parametersOf?.isSome ∨ last.node.kind = .ambiguous

theorem comesToCommand_below (tokens : List Line.Token) (h : l.node.parametersOf?.isSome) :
    ComesToCommand site l tokens where
  unasked := exists_words_below tokens h
  asked _ _ _ hleads := hleads.invariant (fun hl htakes => htakes.below hl) (.inl h)

/-- What comes of a word that is not below a command comes of it with asking, too. -/
theorem ComesToCommand.cons {next : Landing} {token : Line.Token} {tokens : List Line.Token}
    (h : ComesToCommand site next tokens) (hl : l.node.parametersOf? = none)
    (hnext : ∀ journal, perform (l.resolve site token.data (some token)) journal =
      (.ok (.ok next), journal)) : ComesToCommand site l (token :: tokens) where
  unasked := by
    obtain ⟨last, steps, hlast, hwords⟩ := h.unasked
    exact ⟨last, _, hlast, perform_words_cons hnext hwords⟩
  asked last journal journal' hleads := by
    obtain ⟨next', journal₁, hword, hothers⟩ := Leads.cons_iff.mp hleads
    have hsame : l.resolve site token.data (some token) true =
        l.resolve site token.data (some token) := l.resolve_validate hl _ _ _
    rw [Word.typed, hsame, hnext] at hword
    cases hword
    exact h.asked last _ _ hothers

/-- **Asking makes no difference to a walk that does not come to a command.** -/
theorem words_unasked (tokens : List Line.Token) (h : l.node.parametersOf? = none) :
    (∀ journal, perform (Walk.words site true l tokens) journal =
      perform (Walk.words site false l tokens) journal) ∨ ComesToCommand site l tokens := by
  induction tokens generalizing l with
  | nil => exact .inl fun _ => rfl
  | cons token rest ih =>
    have hsame : l.resolve site token.data (some token) true =
        l.resolve site token.data (some token) := l.resolve_validate h _ _ _
    obtain ⟨outcome, hresolve⟩ : Shell.IsQuiet (l.resolve site token.data (some token)) :=
      l.isQuiet_resolve _ _
    match outcome, hresolve with
    | .error e, hresolve =>
      refine .inl fun journal => ?_
      rw [Walk.words, Walk.words, hsame, Shell.perform_bind_of_error (hresolve journal),
        Shell.perform_bind_of_error (hresolve journal)]
    | .ok (.error e), hresolve =>
      refine .inl fun journal => ?_
      rw [Walk.words, Walk.words, hsame, perform_bind_of_ok (hresolve journal),
        perform_bind_of_ok (hresolve journal)]
    | .ok (.ok next), hresolve =>
      cases hnext : next.node.parametersOf? with
      | some command =>
        exact .inr ((comesToCommand_below rest (by rw [hnext]; rfl)).cons h hresolve)
      | none =>
        refine (ih hnext).imp (fun halike journal => ?_) fun hcommand => hcommand.cons h hresolve
        rw [Walk.words, Walk.words, hsame, perform_bind_of_ok (hresolve journal),
          perform_bind_of_ok (hresolve journal)]
        simp only [Shell.perform_bind, halike]

end Walk

/-! ## Lines -/

/-- A line begins at a container, wherever it begins, if the saved path is unshadowed. -/
theorem Site.Unshadowed.exists_stands {path : List Text} (h : site.Unshadowed path)
    (fromTop : Bool) :
    ∃ names first, site.Stands names first ∧ ∀ journal,
      perform (Walk.start site path fromTop) journal = (.ok (.ok first), journal) := by
  cases fromTop with
  | false => exact ⟨path, h.start⟩
  | true => exact ⟨[], (h.beginning List.nil_prefix).start⟩

theorem Site.Unshadowed.exists_start {path : List Text} (h : site.Unshadowed path)
    (fromTop : Bool) :
    ∃ first, first.node.parametersOf? = none ∧ ∀ journal,
      perform (Walk.start site path fromTop) journal = (.ok (.ok first), journal) := by
  obtain ⟨names, first, hstands, hfirst⟩ := h.exists_stands fromTop
  obtain ⟨c, hc, -⟩ := hstands.exists_container
  exact ⟨first, by rw [hc]; rfl, hfirst⟩

namespace Session

/-- From where a line begins, its resolution is the walk of its words. -/
theorem perform_resolve (hcomment : lexed.isComment = false)
    (hstart : ∀ journal, perform (Walk.start site s.path (Walk.splitRoot lexed.tokens).1) journal =
      (.ok (.ok first), journal)) (journal : Journal) :
    perform (s.resolve site lexed validate) journal =
      let walked := perform (Walk.words site validate first (Walk.splitRoot lexed.tokens).2) journal
      (walked.1.map fun walk => Walk.settle (.ok walk), walked.2) := by
  rw [resolve, hcomment]
  simp only [Bool.false_eq_true, if_false, perform_map, Walk.line, Bool.false_and, List.append_nil]
  rw [perform_bind_of_ok (hstart journal), Shell.perform_bind]
  cases perform (Walk.words site validate first (Walk.splitRoot lexed.tokens).2) journal with
  | mk outcome journal' => cases outcome <;> rfl

/-- The line comes to a command. Without asking it resolves to one or to a parameter; with asking it
may resolve to something ambiguous as well, or may not resolve. -/
structure ComesToCommand (site : Site) (s : Session) (lexed : Line.Lexed) : Prop where
  unasked : ∃ l steps, l.node.IsCommandOrParameter ∧ ∀ journal,
    perform (s.resolve site lexed) journal =
      (.ok (.ok { landing := some l, steps := steps }), journal)
  asked : ∀ l steps journal journal', perform (s.resolve site lexed true) journal =
      (.ok (.ok { landing := some l, steps := steps }), journal') →
    l.node.IsCommandOrParameter ∨ l.node.kind = .ambiguous

/-- **Asking makes no difference to a line that does not come to a command.** -/
theorem resolve_unasked (h : site.Unshadowed s.path) (hcomment : lexed.isComment = false) :
    (∀ journal, perform (s.resolve site lexed true) journal =
      perform (s.resolve site lexed) journal) ∨ s.ComesToCommand site lexed := by
  obtain ⟨first, hfirst, hstart⟩ := h.exists_start (Walk.splitRoot lexed.tokens).1
  rcases Walk.words_unasked (Walk.splitRoot lexed.tokens).2 hfirst with hsame | hcommand
  · left
    intro journal
    rw [perform_resolve hcomment hstart, perform_resolve hcomment hstart, hsame]
  · right
    constructor
    · obtain ⟨last, steps, hlast, hwords⟩ := hcommand.unasked
      refine ⟨last, steps, Node.isCommandOrParameter_of_parametersOf? hlast, fun journal => ?_⟩
      rw [perform_resolve hcomment hstart, hwords]
      rfl
    · intro l steps journal journal' hresolve
      obtain ⟨-, hline⟩ := resolve_eq_line.mp hresolve
      obtain ⟨first', journal₁, hstart', hwords⟩ := Walk.line_eq_ok_iff.mp hline
      rw [hstart] at hstart'
      cases hstart'
      exact (hcommand.asked l _ _ (Walk.words_eq_ok_iff.mp ⟨steps, hwords⟩)).imp_left
        Node.isCommandOrParameter_of_parametersOf?

/-- An unshadowed saved path is not stale. -/
theorem resolve_ne_stalePath (h : site.Unshadowed s.path) (name : Text) :
    (perform (s.resolve site lexed validate) journal).1 ≠ .ok (.error (.stalePath name)) := by
  cases hcomment : lexed.isComment with
  | true => simp [resolve, hcomment, Shell.perform_pure]
  | false =>
    obtain ⟨first, -, hstart⟩ := h.exists_start (Walk.splitRoot lexed.tokens).1
    rw [perform_resolve hcomment hstart]
    dsimp only
    cases (perform (Walk.words site validate first (Walk.splitRoot lexed.tokens).2) journal).1 with
    | error e => simp [Except.map]
    | ok walk => cases hrefused : walk.refused <;> simp [Except.map, Walk.settle, hrefused]

end Session

end ConfigShell
