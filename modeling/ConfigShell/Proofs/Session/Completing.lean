import ConfigShell.Proofs.Session.SavedPath
import ConfigShell.Proofs.Tree.Suggested
/-!
# Completing a word

A candidate put into a line where it says completes the word it is for: the line that results can be
read, leaves nothing open and has the words typed before it and then the name of the candidate
(`Session.completed_word`). A line that ends outside a word gets another word. Otherwise the last
word is replaced, except for what stays of it (`Line.Lexed.Keeps`): a key with its equals sign, or the
slash that starts at the top. The byte after that slash may stand behind a quote or within an escape
that the slash is followed by, and then the line is cut there (`Line.Lexed.OpensBehindRoot`) and is
left open or without the word that was meant (`Session.left_open_nested`).
-/

namespace ConfigShell

open Shell (perform value? value?_eq_some_iff toOption_eq_some_iff)

variable {site : Site} {s : Session} {l : Landing} {journal journal' : Journal}
  {resolution : Resolution} {c : Completion}

/-! ## Where a completion goes -/

namespace Line

/-- What a completion of the end of the line leaves of it: the words before the one completed, and
the beginning of that. With `afterEquals` only the value is replaced. -/
inductive Lexed.Keeps (lexed : Lexed) : Bool → List Token → Text → Prop
  | outside (ended : lexed.state.inWord = false) : Keeps lexed false lexed.tokens []
  | word {before : List Token} {t : Token} (within : lexed.state.inWord = true)
      (tokens : lexed.tokens = before ++ [t])
      (unrooted : before = [] → Walk.hasRootSlash t = false) : Keeps lexed false before []
  | root {t : Token} (within : lexed.state.inWord = true) (tokens : lexed.tokens = [t])
      (rooted : Walk.hasRootSlash t = true) : Keeps lexed false [] [Path.separator]
  | value {before : List Token} {t : Token} {i : Int} (within : lexed.state.inWord = true)
      (tokens : lexed.tokens = before ++ [t]) (equals : t.equals = some i) :
      Keeps lexed true before (Signed.take (i + 1) t.data)

/-- The line ends in its first word, which starts at the top, and something is open where the byte
after the slash comes from. -/
def Lexed.OpensBehindRoot (lexed : Lexed) : Prop :=
  ∃ t place cut, lexed.tokens = [t] ∧ lexed.state.inWord = true ∧ Walk.hasRootSlash t = true ∧
    t.offsets[1]? = some place ∧ lex (Signed.take place lexed.source) = .ok cut ∧
    cut.state.isOpen = true

/-- The line as it is resolved for completing it, with an empty word at the end if it ends outside a
word. -/
def Lexed.probed (lexed : Lexed) : Lexed :=
  { lexed with tokens := lexed.tokens ++
      if lexed.state.inWord then [] else [Token.empty lexed.source.length] }

/-- A completion of `t`, the last word that is resolved, goes where the line can be cut to what it
keeps. -/
def Lexed.CutsFor (lexed : Lexed) (t : Token) (afterEquals : Bool) : Prop :=
  ∃ before front, ∃ place : Nat, lexed.Keeps afterEquals before front ∧
    Completion.replaceFrom lexed (some t) afterEquals = place ∧
    CutsTo lexed.source place (before.map (·.data)) front

/-- The last word of a line, with or without the slash that starts at the top. -/
theorem last_splitRoot {before init : List Token} {last t : Token}
    (h : (Walk.splitRoot (before ++ [last])).2 = init ++ [t]) :
    (t = last ∧ (before = [] → Walk.hasRootSlash last = false)) ∨
      before = [] ∧ Walk.hasRootSlash last = true ∧ t = last.dropFirst 1 ∧
        last.data ≠ [Path.separator] := by
  cases before with
  | cons first rest =>
    rw [Walk.splitRoot_append (List.cons_ne_nil first rest)] at h
    have hlast := congrArg List.getLast? h
    simp only [List.getLast?_append, List.getLast?_singleton, Option.some_or] at hlast
    exact .inl ⟨(Option.some.inj hlast).symm, nofun⟩
  | nil =>
    rw [List.nil_append, Walk.splitRoot] at h
    have hone {t' : Token} (h' : [t'] = init ++ [t]) : t = t' := by
      have hlast := congrArg List.getLast? h'
      simpa using hlast.symm
    by_cases hroot : Walk.hasRootSlash last
    · rw [if_pos hroot] at h
      by_cases hslash : last.data = [Path.separator]
      · simp [hslash] at h
      · have hdata : (last.data == [Path.separator]) = false := beq_eq_false_iff_ne.mpr hslash
        rw [hdata] at h
        exact .inr ⟨rfl, hroot, hone h, hslash⟩
    · rw [if_neg hroot] at h
      exact .inl ⟨hone h, fun _ => by simpa using hroot⟩

theorem Token.equals_dropFirst {t : Token} {i : Int} (h : (t.dropFirst 1).equals = some i) :
    t.equals = some (i + 1) ∧
      Signed.get? i (t.dropFirst 1).offsets = Signed.get? (i + 1) t.offsets := by
  simp only [dropFirst, Option.bind_eq_some_iff, Option.ite_none_right_eq_some, Option.some.injEq]
    at h
  obtain ⟨j, hj, hle, rfl⟩ := h
  obtain ⟨n, rfl⟩ : ∃ n : Nat, j = (n + 1 : Nat) := ⟨(j - 1).toNat, by omega⟩
  have hback : ((n + 1 : Nat) : Int) - 1 = (n : Nat) := by omega
  have hdrop : Signed.drop 1 t.offsets = t.offsets.drop 1 := Signed.drop_natCast 1 t.offsets
  have hget : Signed.get? ((n : Int) + 1) t.offsets = t.offsets[n + 1]? :=
    Signed.get?_natCast (n + 1) t.offsets
  refine ⟨by rw [hj]; simp, ?_⟩
  rw [hback, hget, dropFirst, hdrop, Signed.get?_natCast, List.getElem?_drop, Nat.add_comm]

end Line

namespace Completion

open Line

variable (lexed : Lexed) {t : Token}

/-- A word that stands in the line is replaced from where it starts. -/
theorem replaceFrom_word (within : lexed.state.inWord = true) (located : t.located = true) :
    replaceFrom lexed (some t) false = t.start := by
  simp [replaceFrom, within, located]

/-- Its value is replaced from right behind the equals sign. -/
theorem replaceFrom_value (within : lexed.state.inWord = true) (located : t.located = true)
    {i place : Int} (equals : t.equals = some i) (hplace : Signed.get? i t.offsets = some place) :
    replaceFrom lexed (some t) true = place + 1 := by
  simp [replaceFrom, within, located, equals, hplace]

end Completion

namespace Line

variable {before typed text : Text} {base r : Reading} {steps : List Step} {w : Word}
  {init : List Token} {t : Token} {lexed : Lexed}

namespace Reading.InWord

/-- A value is replaced behind the first equals sign of the word. -/
theorem cutsFor_value (h : InWord before typed base steps r) (hw : r.word = some w)
    (within : r.state.inWord = true) (located : t.located = true) {i : Int}
    (hi : t.equals = some i) {j : Nat} (hj : w.equals = some j)
    (hoffset : Signed.get? i t.offsets = Signed.get? j (w.close r.position).offsets) :
    (r.finish (before ++ typed)).CutsFor t true := by
  obtain ⟨place, hplace, hcuts⟩ := h.cutsTo_equals hw hj
  have hequals : (w.close r.position).equals = some (j : Int) := by
    rw [Word.close, hj]
    rfl
  have hbehind : Signed.get? i t.offsets = some (place : Int) := by
    rw [hoffset, Signed.get?_natCast, Word.close, List.getElem?_map, hplace]
    rfl
  refine ⟨_, _, place + 1, .value within (tokens_finish hw _) hequals, ?_, ?_⟩
  · rw [Completion.replaceFrom_value (r.finish (before ++ typed)) within located hi hbehind]
    rfl
  · rw [show (j : Int) + 1 = (j + 1 : Nat) from rfl, Signed.take_natCast]
    exact hcuts

/-- A word that is more than a slash has a byte after it. -/
theorem exists_offset (h : InWord before typed base steps r) (hw : r.word = some w)
    (rooted : Walk.hasRootSlash (w.close r.position) = true)
    (hdata : (w.close r.position).data ≠ [Path.separator]) :
    ∃ place, w.offsets.toList[1]? = some place := by
  have hhead : w.data.toList.head? = some Path.separator :=
    beq_iff_eq.mp (Bool.and_eq_true_iff.mp rooted).1
  have hlength : w.offsets.toList.length = w.data.toList.length := by
    rw [h.offsets_eq hw, h.data_eq hw, length_placed]
  have hmore : 1 < w.offsets.toList.length := by
    rw [hlength]
    cases hbytes : w.data.toList with
    | nil => rw [hbytes] at hhead; cases hhead
    | cons b more =>
      rw [hbytes] at hhead
      cases hhead
      cases more with
      | nil => exact absurd hbytes hdata
      | cons b' more => exact Nat.one_lt_succ_succ _
  exact ⟨_, List.getElem?_eq_getElem hmore⟩

/-- Behind the slash that starts at the top the word is replaced from the byte after it. -/
theorem cutsFor_root (h : InWord before typed base steps r) (hw : r.word = some w)
    (within : r.state.inWord = true) (hcomment : startsComment {} (before ++ typed) = false)
    (hopens : ¬ (r.finish (before ++ typed)).OpensBehindRoot) (hfirst : r.tokens.toList = [])
    (rooted : Walk.hasRootSlash (w.close r.position) = true)
    (hdata : (w.close r.position).data ≠ [Path.separator]) :
    (r.finish (before ++ typed)).CutsFor ((w.close r.position).dropFirst 1) false := by
  have htokens : (r.finish (before ++ typed)).tokens = [w.close r.position] := by
    rw [tokens_finish hw, hfirst, List.nil_append]
  obtain ⟨place, hplace⟩ := h.exists_offset hw rooted hdata
  have hoffset : (w.close r.position).offsets[1]? = some (place : Int) := by
    rw [Word.close, List.getElem?_map, hplace]
    rfl
  rcases h.cutsTo_root hw rooted hplace with hcuts | ⟨m, hread, hopen⟩
  · rw [hfirst] at hcuts
    refine ⟨[], _, place, .root within htokens rooted, ?_, hcuts⟩
    have hget : Signed.get? 1 (w.close r.position).offsets = some (place : Int) :=
      (Signed.get?_natCast 1 _).trans hoffset
    rw [Completion.replaceFrom_word (r.finish (before ++ typed)) within rfl, Token.dropFirst, hget]
    rfl
  · have hcut : lex (Signed.take place (before ++ typed)) =
        .ok (m.finish ((before ++ typed).take place)) := by
      have hstarts : startsComment {} ((before ++ typed).take place ++ []) = false :=
        startsComment_take hcomment rfl place
      rw [List.append_nil] at hstarts
      rw [Signed.take_natCast, lex_eq_feedAll hstarts, Reading.start_default, hread]
    exact absurd ⟨_, place, _, htokens, within, rooted, hoffset, hcut, hopen⟩ hopens

/-- **Within a word** the line can be cut where a completion of the word goes. -/
theorem cutsFor (h : InWord before typed base steps r) (hw : r.word = some w)
    (within : r.state.inWord = true) (hcomment : startsComment {} (before ++ typed) = false)
    (hopens : ¬ (r.finish (before ++ typed)).OpensBehindRoot)
    (ht : (Walk.splitRoot (r.finish (before ++ typed)).tokens).2 = init ++ [t])
    {afterEquals : Bool} (hequals : afterEquals = true → t.equals.isSome = true) :
    (r.finish (before ++ typed)).CutsFor t afterEquals := by
  rw [tokens_finish hw] at ht
  cases afterEquals with
  | true =>
    obtain ⟨i, hi⟩ := Option.isSome_iff_exists.mp (hequals rfl)
    rcases last_splitRoot ht with ⟨rfl, -⟩ | ⟨-, -, rfl, -⟩
    · obtain ⟨j, hj, rfl⟩ := Option.map_eq_some_iff.mp hi
      exact h.cutsFor_value hw within rfl hi hj rfl
    · obtain ⟨hlater, hoffset⟩ := Token.equals_dropFirst hi
      obtain ⟨j, hj, hsame⟩ := Option.map_eq_some_iff.mp hlater
      rw [← hsame] at hoffset
      exact h.cutsFor_value hw within rfl hi hj hoffset
  | false =>
    rcases last_splitRoot ht with ⟨rfl, unrooted⟩ | ⟨hfirst, rooted, rfl, hdata⟩
    · refine ⟨_, _, before.length, .word within (tokens_finish hw _) unrooted, ?_, h.cutsTo_start⟩
      rw [Completion.replaceFrom_word (r.finish (before ++ typed)) within rfl, Word.close,
        h.word_eq hw, Word.start_after]
    · exact h.cutsFor_root hw within hcomment hopens hfirst rooted hdata

end Reading.InWord

/-- The word that is completed where the line ends outside a word is an empty one. -/
theorem exists_last_outside (ended : lexed.state.inWord = false) :
    ∃ init, (Walk.splitRoot lexed.probed.tokens).2 =
      init ++ [Token.empty lexed.source.length] := by
  have hprobed : lexed.probed.tokens = lexed.tokens ++ [Token.empty lexed.source.length] := by
    simp [Lexed.probed, ended]
  rw [hprobed]
  by_cases hnil : lexed.tokens = []
  · rw [hnil]
    exact ⟨[], rfl⟩
  · rw [Walk.splitRoot_append hnil]
    exact ⟨_, rfl⟩

/-- **A line can be cut where a completion of its end goes.** The end is a slash alone, which has no
completions, or a last word, which is empty if the line ends outside a word. -/
theorem exists_cutsFor (hlex : lex text = .ok lexed) (hcomment : lexed.isComment = false)
    (hopens : ¬ lexed.OpensBehindRoot) :
    Walk.splitRoot lexed.probed.tokens = (true, []) ∨
      ∃ init t, (Walk.splitRoot lexed.probed.tokens).2 = init ++ [t] ∧
        ∀ {afterEquals : Bool}, (afterEquals = true → t.equals.isSome = true) →
          lexed.CutsFor t afterEquals := by
  obtain ⟨hnot, r, hread, rfl⟩ := exists_feedAll_of_lex hlex hcomment
  rw [Reading.start_default] at hread
  rcases Reading.rests_or_inWord hread with
    ⟨hrests, ended⟩ | ⟨before, typed, base, steps, rfl, hword⟩
  · obtain ⟨init, hinit⟩ := exists_last_outside (show (r.finish text).state.inWord = false from ended)
    refine .inr ⟨init, _, hinit, fun {afterEquals} hequals => ?_⟩
    cases afterEquals with
    | true => cases hequals rfl
    | false =>
      refine ⟨_, _, text.length, .outside ended, ?_, cutsTo_end hread hrests⟩
      simp [Completion.replaceFrom, Reading.finish, ended]
  · obtain ⟨w, hw⟩ : ∃ w, r.word = some w := ⟨_, hword.word⟩
    have within := (Reading.tracks_start.feedAll hread).1.inWord _ hw
    have hprobed : (r.finish (before ++ typed)).probed.tokens =
        (r.finish (before ++ typed)).tokens := by
      simp [Lexed.probed, Reading.finish, within]
    rw [hprobed]
    rcases List.eq_nil_or_concat (Walk.splitRoot (r.finish (before ++ typed)).tokens).2 with
      hnil | ⟨init, t, ht⟩
    · exact .inl (Walk.splitRoot_of_nil (by simp [Reading.tokens_finish hw]) hnil)
    · rw [List.concat_eq_append] at ht
      exact .inr ⟨init, t, ht, fun hequals => hword.cutsFor hw within hnot hopens ht hequals⟩

end Line

/-! ## Completing -/

namespace Session

variable {text : Text} {lexed : Line.Lexed}

/-- Completing a line is resolving it with the empty word that may come next. -/
theorem complete_eq_resolve (site : Site) (s : Session) (lexed : Line.Lexed) :
    s.complete site lexed = s.resolve site lexed.probed true := by
  have hline : Walk.line site s.path lexed true true = Walk.line site s.path lexed.probed true := by
    unfold Walk.line
    cases within : lexed.state.inWord with
    | true => simp [Line.Lexed.probed, within]
    | false =>
      by_cases hnil : lexed.tokens = []
      · simp [Line.Lexed.probed, within, hnil, Walk.splitRoot, Walk.hasRootSlash, Line.Token.empty]
      · simp [Line.Lexed.probed, within, Walk.splitRoot_append hnil]
  unfold complete resolve
  rw [hline]
  rfl

/-- What completes a line completes its last word, and it is no slash alone. -/
theorem exists_last_of_complete (hcomment : lexed.isComment = false)
    (hcomplete : perform (s.complete site lexed) journal = (.ok (.ok resolution), journal'))
    (hc : c ∈ resolution.completions) :
    Walk.splitRoot lexed.probed.tokens ≠ (true, []) ∧ ∃ l, resolution.landing = some l ∧
      ∀ init t, (Walk.splitRoot lexed.probed.tokens).2 = init ++ [t] →
        resolution.steps.getLast?.map (·.1) = some t ∧ c.Writes l.node t := by
  rw [complete_eq_resolve] at hcomplete
  have hprobed : lexed.probed.isComment = false := hcomment
  obtain ⟨l, hl⟩ := exists_landing hprobed hcomplete
  obtain ⟨landing, steps⟩ := resolution
  obtain rfl : landing = some l := hl
  obtain ⟨hsteps, -⟩ := steps_of_resolve hcomplete
  obtain ⟨-, hline⟩ := resolve_eq_line.mp hcomplete
  obtain ⟨first, journal₁, hstart, hwords⟩ := Walk.line_eq_ok_iff.mp hline
  obtain ⟨top, htop, hsaved⟩ := Walk.start_eq_ok_iff.mp hstart
  have htyped := Walk.words_eq_ok_iff.mp ⟨steps, hwords⟩
  have hspaced : first.IsSpaced :=
    hsaved.invariant (fun h htakes => h.takes htakes) (.top htop)
  refine ⟨fun hslash => ?_, l, rfl, fun init t ht => ?_⟩
  · -- the top has no name
    rw [hslash] at hsteps hsaved htyped
    obtain ⟨rfl, -⟩ := Walk.Leads.nil_iff.mp hsaved
    obtain ⟨rfl, -⟩ := Walk.Leads.nil_iff.mp htyped
    obtain rfl : steps = [] := List.map_eq_nil_iff.mp hsteps
    obtain ⟨c₀, rfl, hmade⟩ := Walk.exists_container_of_top htop
    have hname : c₀.name = none := (Site.isContainer_top hmade).name
    simp [Resolution.completions, Completion.ofNode, Completion.ofLabel, Node.name, Node.label,
      hname] at hc
  · rw [ht, List.map_append] at htyped
    have hcompletes := Walk.Leads.completes htyped hspaced
    have hlast : steps.getLast?.map (·.1) = some t := by
      rw [← List.getLast?_map, hsteps, ht, List.getLast?_concat]
    refine ⟨hlast, Completion.writes_of_mem hcompletes ?_⟩
    have hcandidates : c ∈ Completion.ofNode l.node (steps.getLast?.map (·.1)) := hc
    rwa [hlast] at hcandidates

/-- **A completion completes the word.** Put into the line in the place it says, it leaves a line that
can be read, is no comment and leaves nothing open. Its last word is what stays of the word that is
completed and then a name that the node suggests, with an equals sign if it is a key, and the words
before that are those typed. -/
theorem completed_word (hlex : Line.lex text = .ok lexed) (hcomment : lexed.isComment = false)
    (hcomplete : perform (s.complete site lexed) journal = (.ok (.ok resolution), journal'))
    (hc : c ∈ resolution.completions) (hopens : ¬ lexed.OpensBehindRoot) :
    ∃ l name isKey before front completed, resolution.landing = some l ∧
      (name, isKey) ∈ l.node.suggested c.afterEquals ∧
      c.text = Line.escapeWord name ++ [Line.suffix isKey] ∧
      lexed.Keeps c.afterEquals before front ∧
      Line.lex (Signed.take (resolution.replaceFrom lexed c) text ++ c.text) = .ok completed ∧
      completed.isComment = false ∧ completed.state.isOpen = false ∧
      completed.tokens.map (·.data) =
        before.map (·.data) ++ [front ++ name ++ Line.suffixData isKey] := by
  obtain ⟨hslash, l, hl, hlast⟩ := exists_last_of_complete hcomment hcomplete hc
  rcases Line.exists_cutsFor hlex hcomment hopens with hroot | ⟨init, t, ht, hcuts⟩
  · exact absurd hroot hslash
  obtain ⟨htoken, ⟨name, isKey, hname, htext⟩, hequals⟩ := hlast init t ht
  obtain ⟨before, front, place, hkeeps, hplace, hcut⟩ := hcuts hequals
  obtain ⟨hnot, r, -, hfinish⟩ := Line.exists_feedAll_of_lex hlex hcomment
  have hsource : lexed.source = text := by
    rw [hfinish]
    rfl
  rw [hsource] at hcut
  obtain ⟨completed, hcompleted, hplain, hclosed, hdata⟩ := hcut.lex_insert hnot name isKey
  refine ⟨l, name, isKey, before, front, completed, hl, hname, htext, hkeeps, ?_, hplain, hclosed,
    hdata⟩
  rw [Resolution.replaceFrom, htoken, hplace, Signed.take_natCast, htext]
  exact hcompleted

/-- A beginning of two names, in part written as an escape, behind a slash that starts at the top. -/
theorem completed_nested :
    ∃ lexed resolution, Line.lex "/n\\x65" = .ok lexed ∧
      (perform (complete nested {} lexed) {}).1 = .ok (.ok resolution) ∧
      resolution.completions.map (·.text) = [("network " : Text), "neck "] ∧
      ∀ c ∈ resolution.completions, ∃ name isKey before front completed,
        c.text = Line.escapeWord name ++ [Line.suffix isKey] ∧
        lexed.Keeps c.afterEquals before front ∧
        Line.lex (Signed.take (resolution.replaceFrom lexed c) "/n\\x65" ++ c.text) =
          .ok completed ∧ completed.state.isOpen = false ∧
        completed.tokens.map (·.data) =
          before.map (·.data) ++ [front ++ name ++ Line.suffixData isKey] := by
  have hread : ((Line.lex "/n\\x65").toOption.bind fun lexed =>
      (value? (complete nested {} lexed) {}).map fun resolution =>
        (lexed.isComment, resolution.completions.map (·.text),
          lexed.tokens.map fun t => t.offsets[1]?.map fun place =>
            (Line.lex (Signed.take place lexed.source)).toOption.map (·.state.isOpen))) =
      some (false, [("network " : Text), "neck "], [some (some false)]) := by decide +kernel
  obtain ⟨lexed, hlex, hresolved⟩ := Option.bind_eq_some_iff.mp hread
  obtain ⟨resolution, hvalue, hresult⟩ := Option.map_eq_some_iff.mp hresolved
  obtain ⟨journal, hcomplete⟩ := value?_eq_some_iff.mp hvalue
  replace hlex := toOption_eq_some_iff.mp hlex
  simp only [Prod.mk.injEq] at hresult
  obtain ⟨hcomment, htexts, hclosed⟩ := hresult
  have hopens : ¬ lexed.OpensBehindRoot := by
    rintro ⟨t, place, cut, htokens, -, -, hplace, hcut, hopen⟩
    simp [htokens, hplace, hcut, Except.toOption, hopen] at hclosed
  refine ⟨lexed, resolution, hlex, by rw [hcomplete], htexts, fun c hc => ?_⟩
  obtain ⟨-, name, isKey, before, front, completed, -, -, htext, hkeeps, hput, -, hends, hdata⟩ :=
    completed_word hlex hcomment hcomplete hc hopens
  exact ⟨name, isKey, before, front, completed, htext, hkeeps, hput, hends, hdata⟩

/-- Behind the slash a quote is open, so the name that is put there does not end it. -/
theorem left_open_nested :
    ∃ lexed resolution c completed, Line.lex "/'net" = .ok lexed ∧ lexed.isComment = false ∧
      (perform (complete nested {} lexed) {}).1 = .ok (.ok resolution) ∧
      c ∈ resolution.completions ∧ c.text = ("network " : Text) ∧
      Line.lex (Signed.take (resolution.replaceFrom lexed c) "/'net" ++ c.text) = .ok completed ∧
      completed.state.isOpen = true := by
  have hread : ((Line.lex "/'net").toOption.bind fun lexed =>
      (value? (complete nested {} lexed) {}).map fun resolution =>
        (lexed.isComment, resolution.completions.map fun c => (c.text,
          (Line.lex (Signed.take (resolution.replaceFrom lexed c) "/'net" ++ c.text)).toOption.map
            (·.state.isOpen)))) =
      some (false, [(("network " : Text), some true)]) := by decide +kernel
  obtain ⟨lexed, hlex, hresolved⟩ := Option.bind_eq_some_iff.mp hread
  obtain ⟨resolution, hvalue, hresult⟩ := Option.map_eq_some_iff.mp hresolved
  obtain ⟨journal, hcomplete⟩ := value?_eq_some_iff.mp hvalue
  obtain ⟨hcomment, hcompletions⟩ := Prod.mk.inj hresult
  obtain ⟨c, hone, hc⟩ := List.map_eq_singleton_iff.mp hcompletions
  obtain ⟨htext, hput⟩ := Prod.mk.inj hc
  obtain ⟨completed, hlexed, hopen⟩ := Option.map_eq_some_iff.mp hput
  exact ⟨lexed, resolution, c, completed, toOption_eq_some_iff.mp hlex, hcomment, by rw [hcomplete],
    by rw [hone]; exact List.mem_singleton_self c, htext, toOption_eq_some_iff.mp hlexed, hopen⟩

end Session

end ConfigShell
