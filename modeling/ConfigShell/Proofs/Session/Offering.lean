import ConfigShell.Proofs.Session.Completing
import ConfigShell.Proofs.Session.Cut
import ConfigShell.Proofs.Tree.Abbreviated
/-!
# What is offered in a container

Where the words before the last lead to a container, completing the line offers the entries of that
container that match the last word, each once (`Session.complete_offers`). Whether a word is unique
or ambiguous makes no difference to this, though the candidates are made in different ways: from the
node that the word leads to, or from the names it is ambiguous between. For that, every entry needs
a name that can be offered, and every name has to be listed only once.
-/

namespace ConfigShell

open Shell (perform perform_map perform_bind perform_bind_of_ok)

variable {site : Site} {s : Session} {l next : Landing} {c : Container} {t : Line.Token}
  {lexed : Line.Lexed} {text : Text} {journal journal' : Journal} {e : NodeKind × Text}

/-! ## Names that can be offered, each listed once -/

namespace Listing

variable {suffixes : List Text}

/-- A suffix is cut off a longer name only, so it leaves something. -/
theorem withoutSuffix_ne_nil {name suffix : Text} (hne : suffix ≠ [])
    (h : hasSuffix name suffix = true) : withoutSuffix name suffix ≠ [] := by
  have hlonger : Text.width suffix < Text.width name :=
    of_decide_eq_true (Bool.and_eq_true_iff.mp h).1
  obtain ⟨n, hn⟩ : ∃ n : Nat, (Text.width name : Int) - Text.width suffix = (n + 1 : Nat) :=
    ⟨Text.width name - Text.width suffix - 1, by omega⟩
  rw [withoutSuffix, if_neg (by simpa using hne), Text.takeCharacters, hn, Signed.take_natCast]
  cases name with
  | nil => exact absurd hlonger (Nat.not_lt_zero _)
  | cons b t =>
    rw [Text.characters_cons]
    exact List.cons_ne_nil _ _

theorem ne_nil_of_commandName? {e : DirectoryEntry} {name : Text}
    (hsuffixes : ∀ suffix ∈ suffixes, suffix ≠ []) (he : e.name ≠ [])
    (h : commandName? suffixes e = some name) : name ≠ [] := by
  unfold commandName? at h
  split at h
  · rename_i suffix hfound
    cases h
    exact withoutSuffix_ne_nil (hsuffixes suffix (List.mem_of_find?_eq_some hfound))
      (List.find?_some hfound)
  · split at h
    · cases h
      exact he
    · cases h

end Listing

namespace Site.Lists

theorem nodup (h : site.Lists c) (hnames : site.host.NamesEntries) : c.listed.Nodup := by
  have hgroup (kind : NodeKind) {names : List Text} (hnodup : names.Nodup) :
      (names.map (kind, ·)).Nodup :=
    List.Pairwise.map _ (fun _ _ hne hsame => hne (Prod.mk.inj hsame).2) hnodup
  have hbuiltins : c.builtins.Nodup := by
    rcases h.builtins with hbuiltins | hbuiltins
    · rw [hbuiltins]
      decide
    · rw [hbuiltins]
      exact List.nodup_nil
  have hcommands : c.commands.Nodup := h.commands ▸ Listing.nodup_commands
  have hcontainers : c.containers.Nodup :=
    h.containers ▸ Listing.nodup_containers (hnames.distinct c.libexec)
  rw [Container.listed, List.nodup_append, List.nodup_append]
  refine ⟨⟨hgroup _ hbuiltins, hgroup _ hcommands, ?_⟩, hgroup _ hcontainers, ?_⟩
  · intro e he e' he' hsame
    obtain ⟨name, -, rfl⟩ := List.mem_map.mp he
    obtain ⟨name', -, rfl⟩ := List.mem_map.mp he'
    cases hsame
  · intro e he e' he' hsame
    obtain ⟨name', -, rfl⟩ := List.mem_map.mp he'
    rcases List.mem_append.mp he with he | he
    · obtain ⟨name, -, rfl⟩ := List.mem_map.mp he
      cases hsame
    · obtain ⟨name, -, rfl⟩ := List.mem_map.mp he
      cases hsame

/-- The containers that a walk comes to offer what their directories have. -/
theorem of_isContainer {names : List Text} (h : site.IsContainer names c) : site.Lists c where
  passable := h.libexec ▸ h.passable
  containers := h.libexec ▸ h.containers
  commands := h.libexec ▸ h.commands
  builtins := by
    rw [h.builtins, Site.builtins]
    split
    · exact .inl rfl
    · exact .inr rfl

/-- A word that matches something leads somewhere. -/
theorem exists_resolvesTo (h : site.Lists c) (hnames : site.host.NamesEntries)
    (hl : l.node = .container c) {word : Text} (hup : word ≠ "..") (hne : c.matching word ≠ [])
    (token : Option Line.Token) (validate : Bool) :
    ∃ next, l.ResolvesTo site word token validate (.ok next) := by
  match hmatching : c.matching word with
  | [] => exact absurd hmatching hne
  | [e] =>
    have he := (Container.mem_listed_of_mem_matching (hmatching ▸ List.mem_singleton_self e)).1
    refine ⟨l.enter (c.nodeOf site token e), (Landing.resolvesTo_iff hl hup).mpr ?_⟩
    rw [hmatching]
    exact ⟨h.canEnter hnames he, rfl⟩
  | _ :: _ :: _ =>
    refine ⟨l.enter (.ambiguous (c.ambiguity word token)),
      (Landing.resolvesTo_iff hl hup).mpr ?_⟩
    rw [hmatching]

/-- Every name that is listed can be offered. -/
theorem ne_nil (h : site.Lists c) (hnames : site.host.NamesEntries)
    (hsuffixes : ∀ suffix ∈ site.tree.suffixes, suffix ≠ []) (he : e ∈ c.listed) : e.2 ≠ [] := by
  rcases h.origin he with ⟨-, hbuiltin⟩ | ⟨entry, hentry, -, ⟨-, hname⟩ | ⟨-, hname⟩⟩
  · have hbuiltins : ∀ name ∈ rootBuiltins, name ≠ [] := by decide
    exact hbuiltins _ hbuiltin
  · exact Listing.ne_nil_of_commandName? hsuffixes (hnames.nonempty _ entry hentry) hname
  · exact hname ▸ hnames.nonempty _ entry hentry

end Site.Lists

/-! ## The candidates for an entry -/

/-- The candidate that offers an entry of a container. -/
def Completion.ofEntry (e : NodeKind × Text) : Completion :=
  ⟨Line.escapeWord e.2 ++ [0x20], .node e.1, false⟩

/-- Words written differently are different, so no two entries have the same candidate. -/
theorem Line.escapeWord_inj {word word' : Text} (h : escapeWord word = escapeWord word') :
    word = word' := by
  have hrests : Reading.Rests { state := {} } := ⟨rfl, rfl⟩
  obtain ⟨u, hu⟩ := exists_isEscaped word
  obtain ⟨u', hu'⟩ := exists_isEscaped word'
  obtain ⟨r, w, hread, hw, -, -, -, htoken⟩ := Reading.feedAll_writtenWord u hrests
  obtain ⟨r', w', hread', hw', -, -, -, htoken'⟩ := Reading.feedAll_writtenWord u' hrests
  rw [hu'.source_eq, ← h, ← hu.source_eq, hread] at hread'
  cases hread'
  obtain rfl : w = w' := Option.some.inj (hw.symm.trans hw')
  have hdata : u.decoded = u'.decoded := congrArg Token.data (htoken.symm.trans htoken')
  rw [← hu.decoded_eq, hdata, hu'.decoded_eq]

theorem Completion.ofEntry_inj {e e' : NodeKind × Text}
    (h : Completion.ofEntry e = Completion.ofEntry e') : e = e' := by
  obtain ⟨hwritten, hkind, -⟩ := Completion.mk.inj h
  exact Prod.ext (Category.node.inj hkind) (Line.escapeWord_inj (List.append_cancel_right hwritten))

namespace Container

theorem completions_nodeOf (he : e ∈ c.listed) (hne : e.2 ≠ []) (token : Option Line.Token) :
    Completion.ofNode (c.nodeOf site token e) token = [.ofEntry e] := by
  obtain ⟨kind, name⟩ := e
  cases name with
  | nil => exact absurd rfl hne
  | cons b name => rcases mem_listed.mp he with ⟨rfl, -⟩ | ⟨rfl, -⟩ | ⟨rfl, -⟩ <;> rfl

theorem completions_ambiguity (c : Container) (word : Text) (token : Option Line.Token) :
    (Completion.ofNode (.ambiguous (c.ambiguity word token)) token).Perm
      ((c.listed.filter (Text.beginsWith ·.2 word)).map .ofEntry) := by
  have hgroup (kind : NodeKind) (names : List Text) :
      Completion.group (Names.beginningWith word names) (.node kind) 0x20 =
        ((names.map (kind, ·)).filter (Text.beginsWith ·.2 word)).map .ofEntry := by
    rw [List.filter_map, List.map_map]
    rfl
  have hcandidates : Completion.ofNode (.ambiguous (c.ambiguity word token)) token =
      Completion.group (Names.beginningWith word c.containers) (.node .container) 0x20 ++
        Completion.group (Names.beginningWith word c.commands) (.node .command) 0x20 ++
        Completion.group (Names.beginningWith word c.builtins) (.node .builtin) 0x20 := by
    simp [Completion.ofNode, Completion.ofAmbiguity, ambiguity, Completion.group]
  rw [hcandidates, hgroup, hgroup, hgroup, listed, List.filter_append, List.filter_append,
    List.map_append, List.map_append, List.append_assoc]
  exact List.perm_append_comm.trans (List.perm_append_comm.append_right _)

/-- **The node that a word leads to offers the entries that match the word.** -/
theorem completions_resolvesTo (h : l.ResolvesTo site t.data (some t) true (.ok next))
    (hl : l.node = .container c) (hup : t.data ≠ "..") (hne : ∀ e ∈ c.listed, e.2 ≠ []) :
    (Completion.ofNode next.node (some t)).Perm ((c.matching t.data).map .ofEntry) := by
  by_cases hkind : next.node.kind = .ambiguous
  · obtain ⟨a, ha⟩ : ∃ a, next.node = .ambiguous a := by
      cases hn : next.node with
      | ambiguous a => exact ⟨a, rfl⟩
      | container | command | parameter | builtin | option => simp [hn, Node.kind] at hkind
    obtain ⟨hmany, rfl⟩ := h.of_ambiguous hl hup ha
    rw [ha, matching_of_many hmany]
    exact completions_ambiguity c t.data (some t)
  · obtain ⟨e, hmatching, -, rfl⟩ := h.exists_entry hl hup hkind
    have he := (mem_listed_of_mem_matching (hmatching ▸ List.mem_singleton_self e)).1
    rw [hmatching]
    exact .of_eq (completions_nodeOf he (hne e he) (some t))

end Container

/-! ## The last word of a line -/

/-- The line ends in its first word, and that is the slash that starts at the top and nothing
else. -/
def Line.Lexed.IsBareSlash (lexed : Lexed) : Prop :=
  ∃ t, lexed.state.inWord = true ∧ lexed.tokens = [t] ∧ Walk.hasRootSlash t = true ∧
    t.data = [Path.separator]

theorem Line.Lexed.isBareSlash_of_splitRoot
    (h : Walk.splitRoot lexed.probed.tokens = (true, [])) : lexed.IsBareSlash := by
  cases within : lexed.state.inWord with
  | false =>
    obtain ⟨before, hbefore⟩ := exists_last_outside within
    rw [h] at hbefore
    exact absurd hbefore.symm (List.append_ne_nil_of_right_ne_nil _ (List.cons_ne_nil _ _))
  | true =>
    have hprobed : lexed.probed.tokens = lexed.tokens := by simp [Lexed.probed, within]
    rw [hprobed] at h
    cases htokens : lexed.tokens with
    | nil =>
      rw [htokens] at h
      cases h
    | cons first rest =>
      rw [htokens, Walk.splitRoot] at h
      split at h
      · rename_i rooted
        have hrest := (Prod.mk.inj h).2
        split at hrest
        · rename_i hdata
          exact ⟨first, within, hrest ▸ htokens, rooted, beq_iff_eq.mp hdata⟩
        · cases hrest
      · cases h

/-- **All lines but a bare slash have a last word** for completing. -/
theorem Line.exists_last (hlex : lex text = .ok lexed) (hcomment : lexed.isComment = false)
    (hslash : Walk.splitRoot lexed.probed.tokens ≠ (true, [])) :
    ∃ before t, (Walk.splitRoot lexed.probed.tokens).2 = before ++ [t] := by
  cases within : lexed.state.inWord with
  | false =>
    obtain ⟨before, hbefore⟩ := exists_last_outside within
    exact ⟨before, _, hbefore⟩
  | true =>
    have hprobed : lexed.probed.tokens = lexed.tokens := by simp [Lexed.probed, within]
    have htokens : lexed.tokens ≠ [] := by
      obtain ⟨-, r, hread, rfl⟩ := exists_feedAll_of_lex hlex hcomment
      rcases Reading.rests_or_inWord (Reading.start_default text ▸ hread) with
        ⟨-, ended⟩ | ⟨before, typed, base, steps, rfl, hword⟩
      · exact absurd within (by simp [Reading.finish, ended])
      · rw [Reading.tokens_finish hword.word]
        exact List.append_ne_nil_of_right_ne_nil _ (List.cons_ne_nil _ _)
    rw [hprobed] at hslash ⊢
    rcases List.eq_nil_or_concat (Walk.splitRoot lexed.tokens).2 with hnil | ⟨before, t, ht⟩
    · exact absurd (Walk.splitRoot_of_nil htokens hnil) hslash
    · exact ⟨before, t, by rw [ht, List.concat_eq_append]⟩

/-- The words that a line is walked by, the last one apart. -/
theorem Walk.wordsOf_append {before : List Line.Token}
    (h : (splitRoot lexed.tokens).2 = before ++ [t]) (path : List Text) (validate : Bool) :
    wordsOf path lexed validate =
      ((if (splitRoot lexed.tokens).1 then [] else path).map .saved ++
        before.map (.typed validate)) ++ [.typed validate t] := by
  rw [List.append_assoc, wordsOf]
  simp only [h, List.map_append, List.map_singleton]

namespace Session

open Site (netted nettedTop namesEntries_netted)

variable {before : List Line.Token}

/-- Where the last word leads on, the line is completed by what completes the node it leads to. -/
theorem complete_of_resolvesTo (hcomment : lexed.isComment = false)
    (hlast : (Walk.splitRoot lexed.probed.tokens).2 = before ++ [t])
    (hleads : s.LeadsTo site (Walk.splitRoot lexed.probed.tokens).1 before journal l journal')
    (h : l.ResolvesTo site t.data (some t) true (.ok next)) :
    ∃ resolution, perform (s.complete site lexed) journal = (.ok (.ok resolution), journal') ∧
      resolution.completions = Completion.ofNode next.node (some t) := by
  obtain ⟨top, htop, hwords⟩ := hleads
  have hall :
      Walk.Leads site top journal (Walk.wordsOf s.path lexed.probed true) next journal' := by
    rw [Walk.wordsOf_append hlast]
    exact Walk.Leads.append_iff.mpr ⟨l, journal', hwords, .on (h journal') (.here _ _)⟩
  have hprobed : lexed.probed.isComment = false := hcomment
  obtain ⟨steps, hresolve⟩ := resolve_eq_ok_iff.mpr ⟨hprobed, top, htop, hall⟩
  obtain ⟨hsteps, -⟩ := steps_of_resolve hresolve
  refine ⟨_, (complete_eq_resolve site s lexed).symm ▸ hresolve, ?_⟩
  have hlastStep : steps.getLast?.map (·.1) = some t := by
    rw [← List.getLast?_map, hsteps, hlast, List.getLast?_concat]
  exact congrArg (Completion.ofNode next.node) hlastStep

/-- Where it leads nowhere, the line cannot be completed. -/
theorem complete_of_refused (hcomment : lexed.isComment = false)
    (hlast : (Walk.splitRoot lexed.probed.tokens).2 = before ++ [t])
    (hleads : s.LeadsTo site (Walk.splitRoot lexed.probed.tokens).1 before journal l journal')
    {e : WordError} (h : l.ResolvesTo site t.data (some t) true (.error e)) :
    perform (s.complete site lexed) journal = (.ok (.error (.word e)), journal') := by
  obtain ⟨top, htop, hwords⟩ := hleads
  obtain ⟨first, journal₁, hsaved, htyped⟩ := Walk.Leads.append_iff.mp hwords
  obtain ⟨steps, htyped⟩ := Walk.words_eq_ok_iff.mpr htyped
  have hstart := Walk.start_eq_ok_iff.mpr ⟨top, htop, hsaved⟩
  have hrefused : perform (Walk.words site true l [t]) journal' =
      (.ok { landing := l, refused := some e }, journal') := by
    rw [Walk.words, perform_bind_of_ok (h journal')]
    rfl
  have hline : perform (Walk.line site s.path lexed.probed true) journal =
      (.ok (.ok { landing := l, steps := steps, refused := some e }), journal') := by
    simp only [Walk.line, Bool.false_and, Bool.false_eq_true, if_false, List.append_nil]
    rw [perform_bind_of_ok hstart]
    refine (perform_bind_of_ok ?_ _).trans rfl
    rw [hlast, Walk.perform_words_append htyped, perform_map, hrefused]
    exact congrArg (fun steps => (Except.ok (Walk.mk l steps (some e)), journal'))
      (List.append_nil steps)
  have hplain : lexed.probed.isComment = false := hcomment
  rw [complete_eq_resolve, resolve, hplain]
  simp only [Bool.false_eq_true, if_false]
  rw [perform_map, hline]
  rfl

/-- **Completing in a container** offers the entries that match the last word. -/
theorem complete_of_matching (hnames : site.host.NamesEntries)
    (hsuffixes : ∀ suffix ∈ site.tree.suffixes, suffix ≠ []) (hcomment : lexed.isComment = false)
    (hlast : (Walk.splitRoot lexed.probed.tokens).2 = before ++ [t])
    (hleads : s.LeadsTo site (Walk.splitRoot lexed.probed.tokens).1 before journal l journal')
    (listed : site.Lists c) (hl : l.node = .container c) (hup : t.data ≠ "..")
    (hne : c.matching t.data ≠ []) :
    ∃ resolution, perform (s.complete site lexed) journal = (.ok (.ok resolution), journal') ∧
      resolution.completions.Perm ((c.matching t.data).map .ofEntry) := by
  obtain ⟨next, hnext⟩ := listed.exists_resolvesTo hnames hl hup hne (some t) true
  obtain ⟨resolution, hcomplete, hcompletions⟩ :=
    complete_of_resolvesTo hcomment hlast hleads hnext
  refine ⟨resolution, hcomplete, hcompletions ▸ ?_⟩
  exact Container.completions_resolvesTo hnext hl hup fun e he => listed.ne_nil hnames hsuffixes he

/-- **What is offered in a container.** A line that is no comment and no bare slash has a last word,
which is empty if the line does not end within a word. Where the words before it lead to a
container, an entry of just this name is all that is offered, and otherwise every entry that begins
with the word is, once and as what it is. If there is none, nothing is found. -/
theorem complete_offers (hnames : site.host.NamesEntries)
    (hsuffixes : ∀ suffix ∈ site.tree.suffixes, suffix ≠ []) (hlex : Line.lex text = .ok lexed)
    (hcomment : lexed.isComment = false) (hslash : ¬ lexed.IsBareSlash) (s : Session) :
    ∃ before, ∃ t : Line.Token, (Walk.splitRoot lexed.probed.tokens).2 = before ++ [t] ∧
      ∀ journal l (c : Container) journal',
        s.LeadsTo site (Walk.splitRoot lexed.probed.tokens).1 before journal l journal' →
        l.node = .container c → t.data ≠ ".." →
        (∀ e ∈ c.listed, e.2 = t.data → ∃ resolution, ∃ e' ∈ c.listed, e'.2 = t.data ∧
          perform (s.complete site lexed) journal = (.ok (.ok resolution), journal') ∧
          resolution.completions = [.ofEntry e']) ∧
        ((∀ e ∈ c.listed, e.2 ≠ t.data) →
          ∀ e ∈ c.listed, Text.beginsWith e.2 t.data = true → ∃ resolution,
            perform (s.complete site lexed) journal = (.ok (.ok resolution), journal') ∧
            resolution.completions.Nodup ∧ ∀ completion, completion ∈ resolution.completions ↔
              ∃ e' ∈ c.listed, Text.beginsWith e'.2 t.data = true ∧ completion = .ofEntry e') ∧
        ((∀ e ∈ c.listed, Text.beginsWith e.2 t.data = false) →
          perform (s.complete site lexed) journal =
            (.ok (.error (.word ⟨t.data, some t, .notFound⟩)), journal')) := by
  obtain ⟨before, t, hlast⟩ :=
    Line.exists_last hlex hcomment fun h => hslash (Line.Lexed.isBareSlash_of_splitRoot h)
  refine ⟨before, t, hlast, fun journal l c journal' hleads hl hup => ?_⟩
  obtain ⟨top, htop, hwords⟩ := hleads
  have hstands := Site.stands_of_leads journal htop hwords hl
  have listed := Site.Lists.of_isContainer (hstands.isContainer hl)
  have hoffers (hne : c.matching t.data ≠ []) :=
    complete_of_matching hnames hsuffixes hcomment hlast ⟨top, htop, hwords⟩ listed hl hup hne
  refine ⟨fun e he hname => ?_, fun hunnamed e he hbegins => ?_, fun hnone => ?_⟩
  · rcases c.matching_cases t.data with ⟨e', he', hname', hmatching⟩ | ⟨hunnamed, -⟩
    · obtain ⟨resolution, hcomplete, hcompletions⟩ := hoffers (by simp [hmatching])
      rw [hmatching] at hcompletions
      exact ⟨resolution, e', he', hname', hcomplete, List.perm_singleton.mp hcompletions⟩
    · exact absurd hname (hunnamed e he)
  · have hmatching : c.matching t.data = c.listed.filter (Text.beginsWith ·.2 t.data) := by
      rcases c.matching_cases t.data with ⟨e', he', hname', -⟩ | ⟨-, hmatching⟩
      · exact absurd hname' (hunnamed e' he')
      · exact hmatching
    have hmem : e ∈ c.matching t.data := hmatching ▸ List.mem_filter.mpr ⟨he, hbegins⟩
    obtain ⟨resolution, hcomplete, hcompletions⟩ := hoffers (List.ne_nil_of_mem hmem)
    rw [hmatching] at hcompletions
    have hnodup := (listed.nodup hnames).filter (Text.beginsWith ·.2 t.data)
    refine ⟨resolution, hcomplete, hcompletions.nodup_iff.mpr ?_, fun completion => ?_⟩
    · exact List.Pairwise.map _ (fun _ _ hne hsame => hne (Completion.ofEntry_inj hsame)) hnodup
    · rw [hcompletions.mem_iff, List.mem_map]
      simp only [List.mem_filter, and_assoc, eq_comm]
  · have hmatching : c.matching t.data = [] := by
      refine List.eq_nil_iff_forall_not_mem.mpr fun e he => ?_
      obtain ⟨he, hbegins⟩ := Container.mem_listed_of_mem_matching he
      exact absurd hbegins (by simp [hnone e he])
    refine complete_of_refused hcomment hlast ⟨top, htop, hwords⟩ ?_
    rw [Landing.resolvesTo_iff hl hup, hmatching]

/-- A command and a container that begin with the word are offered, and the word itself is not. -/
theorem complete_offers_netted :
    ∃ lexed resolution, Line.lex "n" = .ok lexed ∧
      perform (complete netted {} lexed) {} = (.ok (.ok resolution), {}) ∧
      resolution.completions.Nodup ∧ ∀ completion, completion ∈ resolution.completions ↔
        completion = .ofEntry (.command, "netmask") ∨
          completion = .ofEntry (.container, "network") := by
  have hread : (Line.lex "n").toOption.map (fun lexed =>
      (lexed.isComment, lexed.tokens.map (·.data), lexed.state.inWord,
        Walk.splitRoot lexed.probed.tokens == (false, lexed.tokens))) =
      some (false, [("n" : Text)], true, true) := by decide +kernel
  obtain ⟨lexed, hlex, hresult⟩ := Option.map_eq_some_iff.mp hread
  replace hlex := Shell.toOption_eq_some_iff.mp hlex
  simp only [Prod.mk.injEq] at hresult
  obtain ⟨hcomment, hdata, within, hsplit⟩ := hresult
  replace hsplit := beq_iff_eq.mp hsplit
  have hslash : ¬ lexed.IsBareSlash := by
    rintro ⟨t, -, htokens, -, hslash⟩
    rw [htokens, List.map_singleton, hslash] at hdata
    exact absurd hdata (by decide)
  obtain ⟨before, t, hlast, hoffers⟩ :=
    complete_offers namesEntries_netted (fun _ h => nomatch h) hlex hcomment hslash {}
  have htop : perform (Walk.top netted) {} = (.ok ⟨.container nettedTop, []⟩, {}) := by
    have hmade : perform (netted.tree.top netted.host) {} = (.ok nettedTop, {}) := by
      rw [Site.top_eq, perform_containerAt, if_pos (by decide +kernel)]
      exact congrArg (fun c : Container => (Except.ok c, ({} : Journal))) (by decide +kernel)
    exact (perform_bind_of_ok hmade _).trans rfl
  rw [hsplit] at hlast hoffers
  have hwords : before.map (·.data) ++ [t.data] = [] ++ [("n" : Text)] := by
    rw [List.nil_append, ← hdata, show lexed.tokens = before ++ [t] from hlast, List.map_append,
      List.map_singleton]
  obtain ⟨hbefore, ht⟩ := List.append_inj' hwords rfl
  obtain rfl := List.map_eq_nil_iff.mp hbefore
  replace ht := List.singleton_inj.mp ht
  have hleads : ({} : Session).LeadsTo netted false [] {} ⟨.container nettedTop, []⟩ {} :=
    ⟨_, htop, .here _ _⟩
  obtain ⟨-, hbegun, -⟩ := hoffers {} _ nettedTop {} hleads rfl (by rw [ht]; decide)
  rw [ht] at hbegun
  obtain ⟨resolution, hcomplete, hnodup, hmem⟩ :=
    hbegun (by decide +kernel) (.command, "netmask") (by decide +kernel) (by decide +kernel)
  refine ⟨lexed, resolution, hlex, hcomplete, hnodup, fun completion => ?_⟩
  have hfilter : nettedTop.listed.filter (Text.beginsWith ·.2 "n") =
      [(NodeKind.command, ("netmask" : Text)), (NodeKind.container, ("network" : Text))] := by
    decide +kernel
  calc completion ∈ resolution.completions
      ↔ ∃ e ∈ nettedTop.listed.filter (Text.beginsWith ·.2 "n"), completion = .ofEntry e := by
        simp only [hmem, List.mem_filter, and_assoc]
    _ ↔ completion = .ofEntry (.command, "netmask") ∨
          completion = .ofEntry (.container, "network") := by
        rw [hfilter]
        simp

end Session

end ConfigShell
