import ConfigShell.Prompt.Highlight
import ConfigShell.Proofs.Line.Extended
import ConfigShell.Proofs.Text.Boundary
import ConfigShell.Proofs.Session.SavedPath
import ConfigShell.Proofs.Tree.Ends
/-!
# Highlighting shows the line and does not change its mind

A highlighted line is the line itself, character by character, whatever its words lead to
(`Session.perform_highlight`). What is typed behind a blank does not change how the line before it is
shown: the words before stay what they are (`ConfigShell.Proofs.Line.Extended`), the walk stops at the
same word (`Walk.steps_of_words_append`), and words painted later come from later bytes
(`Highlight.prefix_paint`).
-/

namespace ConfigShell

open Shell (perform perform_bind_of_ok perform_bind_eq_ok_iff IsQuiet isQuiet_pure Ends ends_pure
  ComesTo comesTo_true comesTo_pure)

variable {site : Site} {journal journal' : Journal}

namespace Highlight

/-! ## Fragments -/

/-- The fragments show the characters. -/
theorem map_snd_fragmentsFrom (styles : Array Style) (offset : Nat) (cs : List Text) :
    (fragmentsFrom styles offset cs).map (·.2) = cs := by
  induction cs generalizing offset with
  | nil => rfl
  | cons c rest ih => rw [fragmentsFrom, List.map_cons, ih]

theorem map_snd_fragments (source : Text) (styles : Array Style) :
    (fragments source styles).map (·.2) = Text.characters source :=
  map_snd_fragmentsFrom styles 0 _

theorem fragmentsFrom_append (styles : Array Style) (offset : Nat) (cs ds : List Text) :
    fragmentsFrom styles offset (cs ++ ds) =
      fragmentsFrom styles offset cs ++ fragmentsFrom styles (offset + cs.flatten.length) ds := by
  induction cs generalizing offset with
  | nil => rfl
  | cons c rest ih =>
    have hplace : offset + c.length + rest.flatten.length =
        offset + (c :: rest).flatten.length := by
      rw [List.flatten_cons, List.length_append]
      omega
    rw [List.cons_append, fragmentsFrom, fragmentsFrom, ih, hplace, List.cons_append]

/-- Only the styles of the bytes shown matter. -/
theorem fragmentsFrom_of_isPrefix {styles styles' : Array Style}
    (h : styles.toList <+: styles'.toList) {offset : Nat} {cs : List Text}
    (nonempty : ∀ c ∈ cs, c ≠ []) (within : offset + cs.flatten.length ≤ styles.size) :
    fragmentsFrom styles' offset cs = fragmentsFrom styles offset cs := by
  induction cs generalizing offset with
  | nil => rfl
  | cons c rest ih =>
    obtain ⟨hc, hrest⟩ := List.forall_mem_cons.mp nonempty
    rw [List.flatten_cons, List.length_append] at within
    have hinside : offset < styles.size := by
      have hlength := List.length_pos_iff.mpr hc
      omega
    have hsame : styles'[offset]? = styles[offset]? := by
      obtain ⟨more, hmore⟩ := h
      rw [← Array.getElem?_toList, ← Array.getElem?_toList, ← hmore,
        List.getElem?_append_left (by simpa using hinside)]
    rw [fragmentsFrom, fragmentsFrom, hsame, ih hrest (by omega)]

/-- **What stands behind a blank does not change the fragments before it**, if the styles there are
the same. -/
theorem fragments_isPrefix {styles styles' : Array Style} (h : styles.toList <+: styles'.toList)
    {source : Text} (hsize : source.length = styles.size) (rest : Text) :
    fragments source styles <+: fragments (source ++ 0x20 :: rest) styles' := by
  have hcut := Text.characters_append_ascii (c := 0x20) (by decide) source rest
  rw [fragments, fragments, hcut, fragmentsFrom_append]
  have hwithin : 0 + (Text.characters source).flatten.length ≤ styles.size := by
    rw [Text.characters_flatten]
    omega
  have hnonempty : ∀ c ∈ Text.characters source, c ≠ [] :=
    fun c hc => Text.ne_nil_of_mem_characters hc
  rw [fragmentsFrom_of_isPrefix h hnonempty hwithin]
  exact List.prefix_append _ _

/-! ## Painting words -/

section Paint

variable {styles styles' : Array Style}

theorem prefix_setIfInBounds (h : styles.toList <+: styles'.toList) (place : Nat) (style : Style) :
    (styles.setIfInBounds place style).toList <+: (styles'.setIfInBounds place style).toList := by
  rw [Array.toList_setIfInBounds, Array.toList_setIfInBounds]
  obtain ⟨more, hmore⟩ := h
  rw [← hmore, List.set_append]
  split
  · exact List.prefix_append _ _
  · rename_i hbeyond
    rw [List.set_eq_of_length_le (by omega)]
    exact List.prefix_append _ _

theorem prefix_setIfInBounds_of_le (h : styles.toList <+: styles'.toList) {place : Nat}
    (hplace : styles.size ≤ place) (style : Style) :
    styles.toList <+: (styles'.setIfInBounds place style).toList := by
  rw [Array.toList_setIfInBounds]
  obtain ⟨more, hmore⟩ := h
  rw [← hmore, List.set_append_right _ _ (by simpa using hplace)]
  exact List.prefix_append _ _

/-- A word paints the bytes of both lines alike. -/
theorem prefix_paint (h : styles.toList <+: styles'.toList) (step : Line.Token × Node) :
    (paint styles step).toList <+: (paint styles' step).toList := by
  unfold paint
  split
  · exact h
  · rename_i style hstyle
    generalize step.1.offsets = offsets
    induction offsets generalizing styles styles' with
    | nil => exact h
    | cons offset rest ih => exact ih (prefix_setIfInBounds h offset.toNat style)

/-- A word behind the shorter line paints nothing of it. -/
theorem prefix_paint_of_le (h : styles.toList <+: styles'.toList) {step : Line.Token × Node}
    (hstep : ∀ place ∈ step.1.offsets, (styles.size : Int) ≤ place) :
    styles.toList <+: (paint styles' step).toList := by
  unfold paint
  split
  · exact h
  · rename_i style hstyle
    revert hstep
    generalize step.1.offsets = offsets
    intro hoffsets
    induction offsets generalizing styles' with
    | nil => exact h
    | cons offset rest ih =>
      obtain ⟨hoffset, hrest⟩ := List.forall_mem_cons.mp hoffsets
      exact ih (prefix_setIfInBounds_of_le h (by omega) style) hrest

@[simp]
theorem size_paint (step : Line.Token × Node) : (paint styles step).size = styles.size := by
  unfold paint
  split
  · rfl
  · generalize step.1.offsets = offsets
    induction offsets generalizing styles with
    | nil => rfl
    | cons offset rest ih => rw [List.foldl_cons, ih, Array.size_setIfInBounds]

theorem size_foldl_paint (steps : List (Line.Token × Node)) :
    (steps.foldl paint styles).size = styles.size := by
  induction steps generalizing styles with
  | nil => rfl
  | cons step rest ih => rw [List.foldl_cons, ih, size_paint]

/-- **Words painted in both lines, and then words behind the shorter one**, leave the shorter line at
the front of the longer one. -/
theorem prefix_foldl_paint (h : styles.toList <+: styles'.toList)
    (steps later : List (Line.Token × Node))
    (hlater : ∀ step ∈ later, ∀ place ∈ step.1.offsets, (styles.size : Int) ≤ place) :
    (steps.foldl paint styles).toList <+: ((steps ++ later).foldl paint styles').toList := by
  induction steps generalizing styles styles' with
  | nil =>
    rw [List.nil_append, List.foldl_nil]
    induction later generalizing styles' with
    | nil => exact h
    | cons step rest ih =>
      obtain ⟨hstep, hrest⟩ := List.forall_mem_cons.mp hlater
      exact ih (prefix_paint_of_le h hstep) hrest
  | cons step rest ih =>
    refine ih (prefix_paint h step) ?_
    rw [size_paint]
    exact hlater

end Paint

end Highlight

/-! ## How far the words lead -/

namespace Walk

variable {l : Landing} {validate : Bool} {walk : Walk}

/-- The steps of a walk are words it was given. -/
theorem mem_of_mem_steps {tokens : List Line.Token}
    (h : perform (words site validate l tokens) journal = (.ok walk, journal')) :
    ∀ step ∈ walk.steps, step.1 ∈ tokens := by
  induction tokens generalizing l journal walk with
  | nil =>
    cases h
    exact List.forall_mem_nil _
  | cons token rest ih =>
    rw [words] at h
    obtain ⟨r, journal₁, hr, h⟩ := perform_bind_eq_ok_iff.mp h
    cases r with
    | error e =>
      cases h
      exact List.forall_mem_nil _
    | ok next =>
      obtain ⟨others, journal₂, hothers, h⟩ := perform_bind_eq_ok_iff.mp h
      cases h
      intro step hstep
      rcases List.mem_cons.mp hstep with rfl | hstep
      · exact List.mem_cons_self ..
      · exact List.mem_cons_of_mem _ (ih hothers step hstep)

/-- **More words lead at least as far**: a walk stops at the same word whether others follow or not,
and the steps that are added are theirs. -/
theorem steps_of_words_append {tokens more : List Line.Token} {longer : Walk}
    (h : perform (words site validate l (tokens ++ more)) journal = (.ok longer, journal')) :
    ∃ walk journal₁ later, perform (words site validate l tokens) journal = (.ok walk, journal₁) ∧
      longer.steps = walk.steps ++ later ∧ ∀ step ∈ later, step.1 ∈ more := by
  induction tokens generalizing l journal longer with
  | nil => exact ⟨_, _, longer.steps, rfl, rfl, mem_of_mem_steps h⟩
  | cons token rest ih =>
    rw [List.cons_append, words] at h
    obtain ⟨r, journal₁, hr, h⟩ := perform_bind_eq_ok_iff.mp h
    cases r with
    | error e =>
      cases h
      have hwalk : perform (words site validate l (token :: rest)) journal =
          (.ok { landing := l, refused := some e }, journal') := by
        rw [words, perform_bind_of_ok hr]
        rfl
      exact ⟨_, _, [], hwalk, rfl, List.forall_mem_nil _⟩
    | ok next =>
      obtain ⟨others, journal₂, hothers, h⟩ := perform_bind_eq_ok_iff.mp h
      cases h
      obtain ⟨walk, journal₃, later, hwalk, hsteps, hlater⟩ := ih hothers
      refine ⟨{ walk with steps := (token, next.node) :: walk.steps }, journal₃, later, ?_, ?_,
        hlater⟩
      · rw [words, perform_bind_of_ok hr]
        exact perform_bind_eq_ok_iff.mpr ⟨walk, journal₃, hwalk, rfl⟩
      · show (token, next.node) :: others.steps = _
        rw [hsteps, List.cons_append]

/-- **A line that goes on with more words leads at least as far**, and stops at a stale path just
where the line does. -/
theorem line_append {path : List Text} {lexed whole : Line.Lexed} {more : List Line.Token}
    (hwords : lexed.tokens ≠ []) (htokens : whole.tokens = lexed.tokens ++ more)
    {r : Except Text Walk}
    (h : perform (line site path whole validate) journal = (.ok r, journal')) :
    (∃ name, r = .error name ∧
      perform (line site path lexed validate) journal = (.ok (.error name), journal')) ∨
    ∃ longer walk journal₁ later, r = .ok longer ∧
      perform (line site path lexed validate) journal = (.ok (.ok walk), journal₁) ∧
      longer.steps = walk.steps ++ later ∧ ∀ step ∈ later, step.1 ∈ more := by
  rw [line, htokens, splitRoot_append hwords] at h
  obtain ⟨found, journal₁, hstart, h⟩ := perform_bind_eq_ok_iff.mp h
  rw [line]
  cases found with
  | error name =>
    cases h
    refine .inl ⟨name, rfl, ?_⟩
    rw [perform_bind_of_ok hstart]
    rfl
  | ok l =>
    obtain ⟨longer, journal₂, hlonger, h⟩ := perform_bind_eq_ok_iff.mp h
    cases h
    simp only [Bool.false_and, Bool.false_eq_true, if_false, List.append_nil] at hlonger
    obtain ⟨walk, journal₃, later, hwalk, hsteps, hlater⟩ := steps_of_words_append hlonger
    refine .inr ⟨longer, walk, journal₃, later, rfl, ?_, hsteps, hlater⟩
    rw [perform_bind_of_ok hstart]
    simp only [Bool.false_and, Bool.false_eq_true, if_false, List.append_nil]
    exact perform_bind_eq_ok_iff.mpr ⟨walk, journal₃, hwalk, rfl⟩

end Walk

/-! ## Lines -/

namespace Session

variable {s : Session} {line : Text} {shown : List (Style × Text)}

theorem isQuiet_highlight (s : Session) (line : Text) : IsQuiet (s.highlight site line) := by
  unfold highlight
  split
  · exact isQuiet_pure _
  · split
    · exact isQuiet_pure _
    · exact (s.isQuiet_colourise _).bind fun _ => isQuiet_pure _

/-- The way in which a site may break an action down. -/
def FlawOf (site : Site) (b : Breakdown) : Prop := b = .zeroByte ∧ site.HasZeroByte

theorem ends_colourise (s : Session) (lexed : Line.Lexed) :
    Ends (FlawOf site) (s.colourise site lexed) := by
  unfold colourise
  split
  · exact ends_pure _
  · have hline : Ends (FlawOf site) (Walk.line site s.path lexed false false) :=
      Walk.ends_line (fun hzero => ⟨rfl, hzero⟩) s.path lexed false false
    refine hline.next fun r => ?_
    cases r with
    | error name => exact ends_pure _
    | ok walk => exact ends_pure _

theorem ends_highlight (s : Session) (line : Text) :
    Ends (FlawOf site) (s.highlight site line) := by
  unfold highlight
  split
  · exact ends_pure _
  · split
    · exact ends_pure _
    · exact (s.ends_colourise _).next fun _ => ends_pure _

/-- What is shown of a line are its characters. -/
theorem comesTo_characters (s : Session) (line : Text) :
    ComesTo (fun shown => shown.map (·.2) = Text.characters line) (s.highlight site line) := by
  unfold highlight
  split
  · exact comesTo_pure (Highlight.map_snd_fragments _ _)
  · split
    · exact comesTo_pure (Highlight.map_snd_fragments _ _)
    · exact (comesTo_true _).bind fun _ _ => comesTo_pure (Highlight.map_snd_fragments _ _)

/-- **A line is shown as it is**, without anything being done for it. -/
theorem perform_highlight (site : Site) (s : Session) (line : Text) (journal : Journal) :
    (∃ shown, perform (s.highlight site line) journal = (.ok shown, journal) ∧
        shown.map (·.2) = Text.characters line ∧ (shown.map (·.2)).flatten = line) ∨
      (perform (s.highlight site line) journal = (.error .zeroByte, journal) ∧
        site.HasZeroByte) := by
  have hquiet : (perform (s.highlight site line) journal).2 = journal :=
    congrArg Prod.snd ((isQuiet_highlight s line).perform_eq journal journal)
  have hends : Ends (FlawOf site) (s.highlight site line) := ends_highlight s line
  rcases hends journal with ⟨shown, hshown⟩ | ⟨_, hbroken, rfl, hzero⟩
  · have hcharacters : shown.map (·.2) = Text.characters line :=
      comesTo_characters s line journal shown hshown
    refine .inl ⟨shown, Prod.ext hshown hquiet, hcharacters, ?_⟩
    rw [hcharacters, Text.characters_flatten]
  · exact .inr ⟨Prod.ext hbroken hquiet, hzero⟩

/-! ## Lines that go on -/

/-- What is coloured of a line is coloured of every line that goes on with more words. -/
theorem colourise_append {lexed whole : Line.Lexed} {more : List Line.Token}
    (hcomment : lexed.isComment = false) (hcomment' : whole.isComment = false)
    (hwords : lexed.tokens ≠ []) (htokens : whole.tokens = lexed.tokens ++ more)
    {longer : Resolution}
    (h : perform (s.colourise site whole) journal = (.ok longer, journal')) :
    ∃ resolution journal₁ later,
      perform (s.colourise site lexed) journal = (.ok resolution, journal₁) ∧
      longer.steps = resolution.steps ++ later ∧ ∀ step ∈ later, step.1 ∈ more := by
  rw [colourise, hcomment'] at h
  rw [colourise, hcomment]
  obtain ⟨r, journal₁, hline, h⟩ := perform_bind_eq_ok_iff.mp h
  rcases Walk.line_append hwords htokens hline with
    ⟨name, rfl, hshort⟩ | ⟨walk', walk, journal₂, later, rfl, hshort, hsteps, hlater⟩
  · cases h
    exact ⟨_, _, [], perform_bind_eq_ok_iff.mpr ⟨_, _, hshort, rfl⟩, rfl, List.forall_mem_nil _⟩
  · cases h
    exact ⟨_, _, later, perform_bind_eq_ok_iff.mpr ⟨_, _, hshort, rfl⟩, hsteps, hlater⟩

/-- A line with words that ends outside quotes and escapes. -/
theorem highlight_append_words {rest : Text} {lexed longer : Line.Lexed}
    (h : Line.lex line = .ok lexed) (hcomment : lexed.isComment = false)
    (hclosed : lexed.state.isOpen = false) (hwords : lexed.tokens ≠ [])
    (hlonger : Line.lex (line ++ 0x20 :: rest) = .ok longer)
    (hmore : perform (s.highlight site (line ++ 0x20 :: rest)) journal = (.ok more, journal')) :
    ∃ shown journal₁, perform (s.highlight site line) journal = (.ok shown, journal₁) ∧
      shown <+: more := by
  obtain ⟨hcomment', hstates, later, htokens, hplaces⟩ :=
    Line.lex_extended (b := 0x20) rfl h hcomment hclosed hwords hlonger
  have hlength := Line.length_states_of_lex h hcomment
  simp only [highlight, hlonger, hcomment', Bool.false_eq_true, if_false] at hmore
  simp only [highlight, h, hcomment, Bool.false_eq_true, if_false]
  obtain ⟨whole, journal₁, hwhole, hmore⟩ := perform_bind_eq_ok_iff.mp hmore
  cases hmore
  obtain ⟨resolution, journal₂, added, hresolution, hsteps, hadded⟩ :=
    colourise_append hcomment hcomment' hwords htokens hwhole
  refine ⟨_, _, perform_bind_eq_ok_iff.mpr ⟨resolution, journal₂, hresolution, rfl⟩, ?_⟩
  rw [hsteps]
  refine Highlight.fragments_isPrefix ?_ ?_ rest
  · refine Highlight.prefix_foldl_paint ?_ _ _ ?_
    · simpa using hstates.map Style.ofState
    · intro step hstep place hplace
      have hbehind := hplaces step.1 (hadded step hstep) place hplace
      simpa [hlength] using hbehind
  · rw [Highlight.size_foldl_paint]
    simp [hlength]

/-- A comment goes on as one. -/
theorem highlight_append_comment {rest : Text} {lexed longer : Line.Lexed}
    (h : Line.lex line = .ok lexed) (hcomment : lexed.isComment = true)
    (hlonger : Line.lex (line ++ 0x20 :: rest) = .ok longer)
    (hmore : perform (s.highlight site (line ++ 0x20 :: rest)) journal = (.ok more, journal')) :
    ∃ shown journal₁, perform (s.highlight site line) journal = (.ok shown, journal₁) ∧
      shown <+: more := by
  have hcomment' := Line.isComment_of_lex_append h hcomment hlonger
  simp only [highlight, hlonger, hcomment', if_true] at hmore
  simp only [highlight, h, hcomment, if_true]
  cases hmore
  refine ⟨_, _, rfl, Highlight.fragments_isPrefix ?_ (by simp) rest⟩
  rw [List.length_append, ← Array.replicate_append_replicate, Array.toList_append]
  exact List.prefix_append _ _

/-- **Highlighting shows a line as it is and does not change its mind.** Nothing is started for it,
and there is a fragment for each character of the line; only a zero byte in a name of the tree, which
no machine can be asked about, keeps it from being shown. Where a line that ends outside quotes and
escapes is a comment or has a word, whatever is typed behind a blank leaves its fragments as they
are. -/
theorem highlight_steady (site : Site) (s : Session) (line : Text) (journal : Journal) :
    ((∃ shown, perform (s.highlight site line) journal = (.ok shown, journal) ∧
        shown.map (·.2) = Text.characters line ∧ (shown.map (·.2)).flatten = line) ∨
      (perform (s.highlight site line) journal = (.error .zeroByte, journal) ∧
        site.HasZeroByte)) ∧
    ∀ lexed, Line.lex line = .ok lexed → lexed.state.isOpen = false →
      (lexed.isComment = true ∨ lexed.tokens ≠ []) →
      ∀ rest longer, Line.lex (line ++ 0x20 :: rest) = .ok longer →
      ∀ more, perform (s.highlight site (line ++ 0x20 :: rest)) journal = (.ok more, journal) →
        ∃ shown, perform (s.highlight site line) journal = (.ok shown, journal) ∧
          shown <+: more := by
  refine ⟨perform_highlight site s line journal, ?_⟩
  intro lexed h hclosed hsaid rest longer hlonger more hmore
  have hprefix : ∃ shown journal₁, perform (s.highlight site line) journal = (.ok shown, journal₁) ∧
      shown <+: more := by
    cases hcomment : lexed.isComment with
    | true => exact highlight_append_comment h hcomment hlonger hmore
    | false =>
      have hwords : lexed.tokens ≠ [] := hsaid.resolve_left (by simp [hcomment])
      exact highlight_append_words h hcomment hclosed hwords hlonger hmore
  obtain ⟨shown, journal₁, hshown, hbegins⟩ := hprefix
  obtain rfl := (isQuiet_highlight s line).journal_eq hshown
  exact ⟨shown, hshown, hbegins⟩

/-- In the tree `nested` the word `net` is shown as a container, and stays so when ` e` follows. -/
theorem highlight_steady_nested : ∃ shown more,
    perform (Session.highlight nested {} [0x6E, 0x65, 0x74]) {} = (.ok shown, {}) ∧
    perform (Session.highlight nested {} ([0x6E, 0x65, 0x74] ++ 0x20 :: [0x65])) {} =
      (.ok more, {}) ∧ shown <+: more ∧ shown.map (·.2) = [[0x6E], [0x65], [0x74]] ∧
    more.map (·.1) = [.container, .container, .container, .plain, .container] := by
  obtain ⟨hline, hgoesOn⟩ := highlight_steady nested {} [0x6E, 0x65, 0x74] {}
  have hmore : perform (Session.highlight nested {} ([0x6E, 0x65, 0x74] ++ 0x20 :: [0x65])) {} =
      (.ok [(.container, [0x6E]), (.container, [0x65]), (.container, [0x74]), (.plain, [0x20]),
        (.container, [0x65])], {}) := by
    decide +kernel
  obtain ⟨shown, hshown, hbegins⟩ := hgoesOn _ rfl rfl (.inr (by decide)) [0x65] _ rfl _ hmore
  refine ⟨shown, _, hshown, hmore, hbegins, ?_, rfl⟩
  rcases hline with ⟨shown', hshown', hcharacters, -⟩ | ⟨hbroken, -⟩
  · cases hshown.symm.trans hshown'
    exact hcharacters
  · cases hshown.symm.trans hbroken

end Session

end ConfigShell
