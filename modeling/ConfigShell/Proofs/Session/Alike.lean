import ConfigShell.Proofs.Session.SavedPath
import ConfigShell.Proofs.Tree.Bare
/-!
# Lines that do alike

Where two lines are walked alike, they are carried out alike: they start the same programs, have
the same outcome, and move their sessions to the same place or not at all
(`Session.alike_command`). What they report may differ, since a report shows the line and where in
it the word stands.
-/

namespace ConfigShell

open Shell (perform Alike alike_pure alike_printError)

variable {site : Site} {l l' : Landing} {s s' : Session} {lexed lexed' : Line.Lexed}

namespace Session

/-- What is done with the resolution of a line. -/
def act (site : Site) (s : Session) (lexed : Line.Lexed) (number : Option Int) :
    Except WalkError Resolution → Shell (Outcome × Session)
  | .error (.stalePath name) => do
    Shell.complain (stalePathMessage name)
    return (.error, s)
  | .error (.word e) => do
    complainOfWord lexed number e
    return (.error, s)
  | .ok { landing := none, .. } => return (.goOn, s)
  | .ok { landing := some l, .. } => do
    if s.isTracing then Shell.printError (Text.spellStrays l.outline)
    s.dispatch site l lexed number

/-- A line of words is resolved and then acted on. -/
theorem command_eq_act (site : Site) (s : Session) (words : lexed.isEmpty = false)
    (number : Option Int) :
    s.command site lexed number = s.resolve site lexed true >>= s.act site lexed number := by
  unfold command
  rw [words]
  refine bind_congr fun r => ?_
  match r with
  | .error (.stalePath name) => rfl
  | .error (.word e) => rfl
  | .ok { landing := none, .. } => rfl
  | .ok { landing := some l, .. } => rfl

/-- What becomes of two sessions is the same: the outcomes are, and either both stay or both move to
the same place. -/
structure SameMove (s s' : Session) (r r' : Outcome × Session) : Prop where
  outcome : r.1 = r'.1
  moved : r.2 = s ∧ r'.2 = s' ∨
    ∃ path, r.2 = { s with path := path } ∧ r'.2 = { s' with path := path }

theorem SameMove.stay (s s' : Session) (outcome : Outcome) :
    SameMove s s' (outcome, s) (outcome, s') := ⟨rfl, .inl ⟨rfl, rfl⟩⟩

/-- What two sessions that were the same become is the same. -/
theorem SameMove.eq {r r' : Outcome × Session} (h : SameMove s s r r') : r = r' := by
  obtain ⟨houtcome, ⟨hr, hr'⟩ | ⟨path, hr, hr'⟩⟩ := h
  · exact Prod.ext houtcome (hr.trans hr'.symm)
  · exact Prod.ext houtcome (hr.trans hr'.symm)

theorem alike_complainOfWord (lexed lexed' : Line.Lexed) (number number' : Option Int)
    (e e' : WordError) :
    Alike (fun _ _ => True) (complainOfWord lexed number e) (complainOfWord lexed' number' e') :=
  alike_printError _ _

/-- **Acting is alike** at landings with the same bare form. -/
theorem alike_dispatch (site : Site) (s s' : Session) (hl : l.bare = l'.bare)
    (lexed lexed' : Line.Lexed) (number number' : Option Int) :
    Alike (SameMove s s') (s.dispatch site l lexed number)
      (s'.dispatch site l' lexed' number') := by
  have hpath : l.path = l'.path := by rw [← l.path_bare, hl, l'.path_bare]
  have hends : l.endsSession = l'.endsSession := by
    rw [← l.endsSession_bare, hl, l'.endsSession_bare]
  have hrun : Alike (SameMove s s')
      (Execution.run site.host site.tree.environment l >>= s.report)
      (Execution.run site.host site.tree.environment l' >>= s'.report) := by
    rw [← Execution.run_bare _ _ l, hl, Execution.run_bare]
    refine (Execution.alike_run _ _ l').bind ?_
    rintro r _ rfl
    cases r with
    | ok _ => exact alike_pure (.stay s s' _)
    | error fault => exact (alike_printError _ _).bind fun _ _ _ => alike_pure (.stay s s' _)
  have hmatches := Node.matches_of_bare_eq (Landing.node_bare_eq hl)
  unfold dispatch
  generalize l.node = n at hmatches ⊢
  generalize l'.node = n' at hmatches ⊢
  cases hmatches with
  | container hc => exact alike_pure ⟨rfl, .inr ⟨l'.path, by rw [hpath], rfl⟩⟩
  | command hc => exact hrun
  | parameter hp => exact hrun
  | builtin b b' | option o o' howner =>
    dsimp only
    rw [hends]
    exact alike_pure (.stay s s' _)
  | ambiguous a a' =>
    exact (alike_complainOfWord _ _ _ _ _ _).bind fun _ _ _ => alike_pure (.stay s s' _)

/-- Both lines have led to a landing, and the two have the same bare form. -/
def SameEnd (r r' : Resolution) : Prop :=
  ∃ l l', r.landing = some l ∧ r'.landing = some l' ∧ l.bare = l'.bare

/-- Lines that are walked alike resolve alike. -/
theorem alike_resolve_of_line (hcomment : lexed.isComment = false)
    (hcomment' : lexed'.isComment = false) {validate : Bool}
    (hline : Alike (OnBoth Walk.SameLanding) (Walk.line site s.path lexed validate)
      (Walk.line site s'.path lexed' validate)) :
    Alike (OnBoth SameEnd) (s.resolve site lexed validate) (s'.resolve site lexed' validate) := by
  unfold resolve
  rw [hcomment, hcomment']
  refine hline.map ?_
  rintro _ _ (⟨hsame⟩ | ⟨name, name'⟩)
  · rename_i w w'
    have hrefused := hsame.refused
    cases h : w.refused with
    | none =>
      have h' : w'.refused = none := by simpa [h] using hrefused
      simp only [Walk.settle, h, h']
      exact .ok ⟨_, _, rfl, rfl, hsame.landing⟩
    | some e =>
      obtain ⟨e', h'⟩ : ∃ e', w'.refused = some e' := by simpa [h, Option.isSome_iff_exists] using
        hrefused
      simp only [Walk.settle, h, h']
      exact .error _ _
  · exact .error _ _

theorem alike_act (site : Site) (tracing : s.isTracing = s'.isTracing)
    (number number' : Option Int) {r r' : Except WalkError Resolution} (h : OnBoth SameEnd r r') :
    Alike (SameMove s s') (s.act site lexed number r) (s'.act site lexed' number' r') := by
  have hrefused (r r' : WalkError) :
      Alike (SameMove s s') (s.act site lexed number (.error r))
        (s'.act site lexed' number' (.error r')) := by
    cases r <;> cases r' <;>
      exact (alike_printError _ _).bind fun _ _ _ => alike_pure (.stay s s' _)
  cases h with
  | error e e' => exact hrefused e e'
  | @ok r r' hend =>
    obtain ⟨landing, steps⟩ := r
    obtain ⟨landing', steps'⟩ := r'
    obtain ⟨l, l', hlanding, hlanding', hl⟩ := hend
    obtain rfl : landing = some l := hlanding
    obtain rfl : landing' = some l' := hlanding'
    have hdispatch := alike_dispatch site s s' hl lexed lexed' number number'
    unfold act
    rw [tracing]
    dsimp only
    split
    · exact (alike_printError _ _).bind fun _ _ _ => hdispatch
    · exact hdispatch

/-- **Lines that are walked alike are carried out alike.** -/
theorem alike_command (s s' : Session) (words : lexed.isEmpty = false)
    (words' : lexed'.isEmpty = false)
    (hline : Alike (OnBoth Walk.SameLanding) (Walk.line site s.path lexed true)
      (Walk.line site s'.path lexed' true)) (tracing : s.isTracing = s'.isTracing)
    (number number' : Option Int) :
    Alike (SameMove s s') (s.command site lexed number) (s'.command site lexed' number') := by
  rw [command_eq_act site s words, command_eq_act site s' words']
  have hresolve := alike_resolve_of_line (Line.Lexed.isComment_of_words words)
    (Line.Lexed.isComment_of_words words') hline
  exact hresolve.bind fun r r' h => alike_act site tracing number number' h

end Session

end ConfigShell
