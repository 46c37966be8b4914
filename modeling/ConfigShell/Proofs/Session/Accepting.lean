import ConfigShell.Proofs.Line.Rooted
import ConfigShell.Proofs.Session.Offering
import ConfigShell.Proofs.Tree.Again
/-!
# Accepting a completion

Where a word has led to a container, a command or a builtin, its completion is the name of that. Put
in place of the word, the name leads to the same place again (`Session.accepted_leads_back`): the
words before it go through containers, and there only their bytes matter, and a name leads where
every beginning of it leads that is not ambiguous. The one word that this is not true of is the one
that goes up, since it is no beginning of the name it is completed to.
-/

namespace ConfigShell

open Shell (perform value? value?_eq_some_iff toOption_eq_some_iff)

variable {site : Site} {s : Session} {l l' first first' : Landing} {c : Container} {name : Text}
  {token : Option Line.Token} {validate : Bool} {t : Line.Token} {journal journal' : Journal}

/-! ## Going up -/

/-- The names on the way down to a container are not those of going up. -/
theorem Site.Stands.name_ne_up {names : List Text} (h : site.Stands names l)
    (hname : l.node.name = some name) : name ≠ ".." := by
  rintro rfl
  obtain ⟨c, hl, isContainer⟩ := h.exists_container
  have hlast : names.getLast? = some ("..":Text) := by
    rw [← isContainer.name, ← hname, hl]
    rfl
  have hvisible := h.unshadowed.reaches.visible _ (List.mem_of_getLast? hlast)
  exact hvisible rfl

/-- **The name of what is further up leads elsewhere.** -/
theorem Landing.not_samePlace_of_parent (hup : first.parent? = some l)
    (hfirst : first.node = .container c) (hbare : first'.bare = first.bare)
    (hname : name ≠ "..") (h : first'.ResolvesTo site name token validate (.ok l')) :
    ¬ l.SamePlace l' := by
  rintro ⟨-, hnames⟩
  obtain ⟨c', hfirst'⟩ := exists_container_of_bare hfirst hbare
  obtain ⟨n, rfl⟩ := h.exists_enter hfirst' hname
  have hlength := congrArg List.length hnames
  have hdeep : first'.chain.length = first.chain.length := by
    have hchain := congrArg (fun l => l.chain.length) hbare
    simpa [chain_bare] using hchain
  rw [List.length_map, List.length_map, chain_enter, List.length_append, hdeep,
    chain_of_parent hup, List.length_append, List.length_singleton,
    List.length_singleton] at hlength
  omega

/-! ## The line that results -/

namespace Session

variable {text : Text} {lexed replaced : Line.Lexed} {before before' : List Line.Token}
  {t' : Line.Token} {resolution : Resolution} {completion : Completion}

/-- What completes a listed node is its name and a blank. -/
theorem exists_name_of_completion (hkind : l.IsListed) (hwrites : completion.Writes l.node t)
    (hmem : completion ∈ Completion.ofNode l.node (some t)) :
    ∃ name, name ≠ [] ∧ l.node.name = some name ∧ completion.afterEquals = false ∧
      completion.text = Line.escapeWord name ++ [0x20] := by
  obtain ⟨⟨name, isKey, hsuggested, htext⟩, -⟩ := hwrites
  have hlabel : Completion.ofNode l.node (some t) = Completion.ofLabel l.node ∧
      ∀ afterEquals, l.node.suggested afterEquals =
        if afterEquals then [] else l.node.name.toList.map (·, false) := by
    obtain ⟨hkind, -⟩ := hkind
    cases hnode : l.node with
    | container | command | builtin => exact ⟨rfl, fun afterEquals => by cases afterEquals <;> rfl⟩
    | parameter | option | ambiguous => simp [hnode, Node.kind] at hkind
  rw [hlabel.2] at hsuggested
  cases hequals : completion.afterEquals with
  | true => simp [hequals] at hsuggested
  | false =>
    obtain ⟨hname, rfl⟩ : l.node.name = some name ∧ false = isKey := by
      simpa [hequals] using hsuggested
    refine ⟨name, ?_, hname, rfl, htext⟩
    rintro rfl
    simp [hlabel.1, Completion.ofLabel, hname] at hmem

/-- Where completing a line leads, the words before the last one have led to where that leads on. -/
theorem exists_leadsTo
    (hlast : (Walk.splitRoot lexed.probed.tokens).2 = before ++ [t])
    (hcomplete : perform (s.complete site lexed) journal = (.ok (.ok resolution), journal'))
    (hl : resolution.landing = some l) :
    ∃ first journal₁,
      s.LeadsTo site (Walk.splitRoot lexed.probed.tokens).1 before journal first journal₁ ∧
      perform (first.resolve site t.data (some t) true) journal₁ = (.ok (.ok l), journal') := by
  obtain ⟨landing, steps⟩ := resolution
  obtain rfl : landing = some l := hl
  rw [complete_eq_resolve] at hcomplete
  obtain ⟨-, top, htop, hwords⟩ := resolve_eq_ok_iff.mp ⟨steps, hcomplete⟩
  rw [Walk.wordsOf_append hlast] at hwords
  obtain ⟨first, journal₁, hbefore, hword⟩ := Walk.Leads.append_iff.mp hwords
  obtain ⟨next, _, hresolve, hend⟩ := Walk.Leads.cons_iff.mp hword
  obtain ⟨rfl, rfl⟩ := Walk.Leads.nil_iff.mp hend
  exact ⟨first, journal₁, ⟨top, htop, hbefore⟩, hresolve⟩

/-- A line that starts in the same place, with words of the same bytes before its last one, leads
where that leads on. -/
theorem exists_resolve_iff {fromTop : Bool}
    (hleads : s.LeadsTo site fromTop before journal first journal')
    (hfirst : first.node = .container c) (hcomment : replaced.isComment = false)
    (hroot : (Walk.splitRoot replaced.tokens).1 = fromTop)
    (hlast : (Walk.splitRoot replaced.tokens).2 = before' ++ [t'])
    (hsame : before'.map (·.data) = before.map (·.data)) (validate : Bool) :
    ∃ first' : Landing, first'.bare = first.bare ∧ ∀ journal l',
      (∃ steps journal', perform (s.resolve site replaced validate) journal =
        (.ok (.ok { landing := some l', steps := steps }), journal')) ↔
      first'.ResolvesTo site t'.data (some t') validate (.ok l') := by
  obtain ⟨top, htop, hbefore⟩ := hleads
  have hkind : first.node.kind = .container := by rw [hfirst]; rfl
  obtain ⟨first', hbare, hagain⟩ := hbefore.alike hkind rfl
    ((if fromTop then [] else s.path).map .saved ++ before'.map (.typed validate))
    (by simpa [Function.comp_def, Walk.Word.saved, Walk.Word.typed] using hsame)
  have htop' (journal : Journal) : perform (Walk.top site) journal = (.ok top, journal) := by
    rw [Walk.isQuiet_top.perform_eq journal, htop]
  obtain ⟨c', hfirst'⟩ := Landing.exists_container_of_bare hfirst hbare
  refine ⟨first', hbare, fun journal l' => ⟨?_, fun h => ?_⟩⟩
  · rintro ⟨steps, journal', hresolve⟩
    obtain ⟨-, top', htop'', hwords⟩ := resolve_eq_ok_iff.mp ⟨steps, hresolve⟩
    cases (htop' journal).symm.trans htop''
    rw [Walk.wordsOf_append hlast, hroot] at hwords
    obtain ⟨mid, journal₁, hmid, hword⟩ := Walk.Leads.append_iff.mp hwords
    obtain rfl := (hagain journal).unique hmid
    obtain ⟨next, _, hnext, hend⟩ := Walk.Leads.cons_iff.mp hword
    obtain ⟨rfl, rfl⟩ := Walk.Leads.nil_iff.mp hend
    exact (Landing.resolvesTo_of_perform hfirst' hnext).1
  · have hwords :
        Walk.Leads site top journal (Walk.wordsOf s.path replaced validate) l' journal := by
      rw [Walk.wordsOf_append hlast, hroot]
      exact Walk.Leads.append_iff.mpr ⟨first', journal, hagain journal, .on (h journal) (.here _ _)⟩
    obtain ⟨steps, hresolve⟩ := resolve_eq_ok_iff.mpr ⟨hcomment, top, htop' journal, hwords⟩
    exact ⟨steps, journal, hresolve⟩

/-- **A completion that is accepted leads back.** Where the last word of a line has led to a
container, a command or a builtin below containers, what completes it is put in its place, and the
line that results leads to the same place, asked about or not. The word that goes up is the one
exception: its completion is no longer it. -/
theorem accepted_leads_back (hlex : Line.lex text = .ok lexed) (hcomment : lexed.isComment = false)
    (hclosed : lexed.state.isOpen = false) (within : lexed.state.inWord = true)
    (hopens : ¬ lexed.OpensBehindRoot)
    (hcomplete : perform (s.complete site lexed) journal = (.ok (.ok resolution), journal'))
    (hl : resolution.landing = some l) (hlisted : l.IsListed)
    (hmem : completion ∈ resolution.completions) :
    ∃ before, ∃ t : Line.Token, ∃ replaced,
      (Walk.splitRoot lexed.tokens).2 = before ++ [t] ∧
      Line.lex (Signed.take (resolution.replaceFrom lexed completion) text ++ completion.text) =
        .ok replaced ∧
      ∀ validate journal₁,
        (∃ l' steps journal₂, perform (s.resolve site replaced validate) journal₁ =
          (.ok (.ok { landing := some l', steps := steps }), journal₂) ∧ l.SamePlace l') ↔
        t.data ≠ ".." := by
  obtain ⟨hslash, l₁, hl₁, hword⟩ := exists_last_of_complete hcomment hcomplete hmem
  obtain rfl : l₁ = l := Option.some.inj (hl₁.symm.trans hl)
  obtain ⟨before, t, hlast⟩ := Line.exists_last hlex hcomment hslash
  obtain ⟨hstep, hwrites⟩ := hword before t hlast
  obtain ⟨name, hne, hname, hequals, htext⟩ := exists_name_of_completion hlisted hwrites <| by
    rwa [Resolution.completions, hl₁, hstep] at hmem
  -- the word has led on from a container, and it does so at any time
  obtain ⟨first, journal₁, hleads, hresolve⟩ := exists_leadsTo hlast hcomplete hl
  have htakes : first.Takes site t.data (some t) true l₁ :=
    Landing.comesTo_resolve first t.data (some t) true journal₁ _ (by rw [hresolve]) _ rfl
  obtain ⟨c, hfirst⟩ := htakes.exists_container_of_isListed hlisted
  obtain ⟨resolves, -⟩ := Landing.resolvesTo_of_perform hfirst hresolve
  obtain ⟨top, htop, hbefore⟩ := hleads
  have hstands := Site.stands_of_leads journal htop hbefore hfirst
  -- the line that results has the name in its place
  have hprobed : lexed.probed.tokens = lexed.tokens := by simp [Line.Lexed.probed, within]
  rw [hprobed] at hlast hbefore
  obtain ⟨replaced, hreplaced, hplain, hroot, hdata⟩ :=
    Line.exists_replaced hlex hcomment hclosed within hopens hlast hne
  obtain ⟨before', others, hsplit, hsame, hothers⟩ := List.map_eq_append_iff.mp hdata
  obtain ⟨t', rfl, ht'⟩ := List.map_eq_singleton_iff.mp hothers
  refine ⟨before, t, replaced, hlast, ?_, fun validate journal₂ => ?_⟩
  · rw [Resolution.replaceFrom, hstep, hequals, htext]
    exact hreplaced
  obtain ⟨first', hbare, hagain⟩ :=
    exists_resolve_iff ⟨top, htop, hbefore⟩ hfirst hplain hroot hsplit hsame validate
  rw [ht'] at hagain
  constructor
  · rintro ⟨l', steps, journal₃, hresolved, hplace⟩ hup
    have hparent := (hup ▸ resolves).parent_eq hfirst
    obtain ⟨names, hstandsUp⟩ := hstands.parent hparent
    exact Landing.not_samePlace_of_parent hparent hfirst hbare (hstandsUp.name_ne_up hname)
      ((hagain journal₂ l').mp ⟨steps, journal₃, hresolved⟩) hplace
  · intro hup
    have listed := Site.Lists.of_isContainer (hstands.isContainer hfirst)
    obtain ⟨l', hl', hbare'⟩ :=
      resolves.by_name hfirst listed hlisted hup hname hbare (some t') validate
    obtain ⟨steps, journal₃, hresolved⟩ := (hagain journal₂ l').mpr hl'
    exact ⟨l', steps, journal₃, hresolved, .of_bare hbare'⟩

/-- The beginning of a container's name, at the top. -/
theorem accepted_leads_back_nested :
    ∃ lexed resolution completion l replaced, Line.lex "net" = .ok lexed ∧
      (perform (complete nested {} lexed) {}).1 = .ok (.ok resolution) ∧
      resolution.landing = some l ∧ resolution.completions = [completion] ∧
      Line.lex (Signed.take (resolution.replaceFrom lexed completion) "net" ++ completion.text) =
        .ok replaced ∧
      ∃ l' steps journal, perform (resolve nested {} replaced true) {} =
        (.ok (.ok { landing := some l', steps := steps }), journal) ∧ l.SamePlace l' := by
  have hread : ((Line.lex "net").toOption.bind fun lexed =>
      (value? (complete nested {} lexed) {}).bind fun resolution => resolution.landing.map fun l =>
        decide (lexed.isComment = false ∧ lexed.state.isOpen = false ∧
          lexed.state.inWord = true ∧ lexed.tokens.map Walk.hasRootSlash = [false] ∧
          (Walk.splitRoot lexed.tokens).2.map (·.data) = [("net" : Text)] ∧
          resolution.completions.map (·.text) = [("network " : Text)] ∧ l.IsListed)) =
        some true := by decide +kernel
  obtain ⟨lexed, hlex, hresolved⟩ := Option.bind_eq_some_iff.mp hread
  obtain ⟨resolution, hvalue, hlanding⟩ := Option.bind_eq_some_iff.mp hresolved
  obtain ⟨l, hl, hresult⟩ := Option.map_eq_some_iff.mp hlanding
  obtain ⟨journal, hcomplete⟩ := value?_eq_some_iff.mp hvalue
  replace hlex := toOption_eq_some_iff.mp hlex
  obtain ⟨hcomment, hclosed, within, hunrooted, hdata, hcompletions, hlisted⟩ :=
    of_decide_eq_true hresult
  obtain ⟨completion, hone, -⟩ := List.map_eq_singleton_iff.mp hcompletions
  have hopens : ¬ lexed.OpensBehindRoot := by
    rintro ⟨t, -, -, htokens, -, hroot, -⟩
    rw [htokens, List.map_singleton, hroot] at hunrooted
    cases hunrooted
  obtain ⟨before, t, replaced, hsplit, hreplaced, hleads⟩ :=
    accepted_leads_back hlex hcomment hclosed within hopens hcomplete hl hlisted
      (hone ▸ List.mem_singleton_self completion)
  have ht : t.data = "net" := by
    rw [hsplit, List.map_append, List.map_singleton] at hdata
    exact List.singleton_inj.mp (List.append_inj' (hdata.trans (List.nil_append _).symm) rfl).2
  exact ⟨lexed, resolution, completion, l, replaced, hlex, by rw [hcomplete], hl, hone, hreplaced,
    (hleads true {}).mpr (by rw [ht]; decide)⟩

/-- From a container below the top, what completes the word that goes up leads nowhere. -/
theorem not_led_back_nested :
    ∃ lexed resolution completion l replaced t, Line.lex ".." = .ok lexed ∧
      lexed.isComment = false ∧ lexed.state.isOpen = false ∧ lexed.state.inWord = true ∧
      (perform (complete nested { path := ["network", "exit"] } lexed) {}).1 =
        .ok (.ok resolution) ∧
      resolution.landing = some l ∧ l.IsListed ∧ completion ∈ resolution.completions ∧
      Line.lex (Signed.take (resolution.replaceFrom lexed completion) ".." ++ completion.text) =
        .ok replaced ∧
      (perform (resolve nested { path := ["network", "exit"] } replaced true) {}).1 =
        .ok (.error (.word ⟨"network", some t, .notFound⟩)) := by
  have hread : ((Line.lex "..").toOption.bind fun lexed =>
      (value? (complete nested { path := ["network", "exit"] } lexed) {}).bind fun resolution =>
        resolution.landing.map fun l =>
          decide (lexed.isComment = false ∧ lexed.state.isOpen = false ∧
            lexed.state.inWord = true ∧ l.IsListed ∧
            resolution.completions.map (fun c =>
              Signed.take (resolution.replaceFrom lexed c) ".." ++ c.text) =
              [("network " : Text)])) = some true := by
    decide +kernel
  obtain ⟨lexed, hlex, hresolved⟩ := Option.bind_eq_some_iff.mp hread
  obtain ⟨resolution, hvalue, hlanding⟩ := Option.bind_eq_some_iff.mp hresolved
  obtain ⟨l, hl, hresult⟩ := Option.map_eq_some_iff.mp hlanding
  obtain ⟨journal, hcomplete⟩ := value?_eq_some_iff.mp hvalue
  obtain ⟨hcomment, hclosed, within, hlisted, hcompletions⟩ := of_decide_eq_true hresult
  obtain ⟨completion, hone, hput⟩ := List.map_eq_singleton_iff.mp hcompletions
  have hagain : (Line.lex "network ").toOption.map (fun replaced =>
      replaced.tokens.map fun t => decide
        ((perform (resolve nested { path := ["network", "exit"] } replaced true) {}).1 =
          .ok (.error (.word ⟨"network", some t, .notFound⟩)))) = some [true] := by
    decide +kernel
  obtain ⟨replaced, hreplaced, hrefused⟩ := Option.map_eq_some_iff.mp hagain
  obtain ⟨t, -, ht⟩ := List.map_eq_singleton_iff.mp hrefused
  refine ⟨lexed, resolution, completion, l, replaced, t, toOption_eq_some_iff.mp hlex, hcomment,
    hclosed, within, by rw [hcomplete], hl, hlisted,
    hone ▸ List.mem_singleton_self completion, hput ▸ toOption_eq_some_iff.mp hreplaced,
    of_decide_eq_true ht⟩

end Session

end ConfigShell
