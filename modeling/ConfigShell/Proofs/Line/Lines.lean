import ConfigShell.Proofs.Line.Spelling
/-!
# A line is read as its layout says

From segments to rows of segments, from these to words with their gaps, and from these to whole
lines: reading the source of a layout succeeds, ends outside quotes and escapes, and gives
exactly the tokens of the layout (`lex_layout`).
-/

namespace ConfigShell.Line

/-! ## Rows of segments -/

/-- Steps that go on after others go on with the word that these leave. -/
theorem Word.after_append {s m : State} {t : Text} {first : List Step} (h : Reads s t first m)
    (w : Word) (position : Nat) (second : List Step) :
    w.after position s (first ++ second)
      = (w.after position s first).after (position + t.length) m second := by
  induction h generalizing w position with
  | nil => rfl
  | cons _ _ _ ih =>
    simp only [List.cons_append, after, ih, List.length_cons]
    rw [show ∀ n, position + 1 + n = position + (n + 1) from by omega]

/-- A word knows of an equals sign exactly if the state does. -/
def Word.Marks (w : Word) (s : State) : Prop := w.equals.isSome = s.equalsSeen

/-- A segment that is an equals sign becomes the one of the word, unless the word has one already. -/
theorem Segment.marks_of_isEquals {g : Segment} (heq : g.isEquals) {s m : State}
    (h : s.isOpen = false) {steps : List Step} (hreads : Reads s g.source steps m) {w : Word}
    (hmarks : w.Marks s) (position : Nat) :
    (w.after position s steps).Marks m ∧
      (w.after position s steps).equals = w.equals.or (some w.data.size) := by
  cases g with
  | plain b isPlain =>
    -- only a plain byte is an equals sign, and it is read in one step
    have hstep := Reads.one (State.step_plain h isPlain) rfl
    obtain ⟨rfl, rfl⟩ := hreads.unique hstep
    simp only [Segment.isEquals, beq_iff_eq] at heq
    subst heq
    cases he : w.equals with
    | none =>
      have hs : s.equalsSeen = false := by rw [← hmarks, he]; rfl
      simp [Word.after, Word.Marks, hs]
    | some i =>
      have hs : s.equalsSeen = true := by rw [← hmarks, he]; rfl
      simp [Word.after, Word.Marks, hs, he]
  | escape e => simp [Segment.isEquals] at heq
  | single content hn => simp [Segment.isEquals] at heq
  | double items => simp [Segment.isEquals] at heq

/-- **A row of segments is read as what it stands for.** The equals sign of the word becomes the
first plain one of the row, unless the word has one already. -/
theorem reads_segments (segments : List Segment) {s : State} (h : s.isOpen = false) :
    ∃ steps s', Reads s (segments.flatMap Segment.source) steps s' ∧
      steps.map (·.output) = segments.flatMap Segment.outputs ∧ s'.isOpen = false ∧
      ∀ (w : Word) (position : Nat), w.Marks s →
        (w.after position s steps).Marks s' ∧
        (w.after position s steps).equals
          = w.equals.or ((Segment.equalsIndex segments).map (w.data.size + ·)) := by
  induction segments generalizing s with
  | nil =>
    exact ⟨[], s, .nil s, rfl, h, fun w p hm => ⟨hm, by simp [Word.after, Segment.equalsIndex]⟩⟩
  | cons g rest ih =>
    obtain ⟨first, m, hreads, houts, hm, hseen⟩ := g.reads h
    obtain ⟨second, s', hreads', houts', hs', hrest⟩ := ih hm
    refine ⟨first ++ second, s', by simpa using hreads.append hreads', by simp [houts, houts'],
      hs', ?_⟩
    intro w position hmarks
    rw [Word.after_append hreads]
    have hsize : (w.after position s first).data.size = w.data.size + g.decoded.length := by
      rw [← Array.length_toList, Word.data_after, houts]
      simp
    by_cases heq : g.isEquals
    · obtain ⟨hmarked, hfirst⟩ := g.marks_of_isEquals heq h hreads hmarks position
      obtain ⟨hmarks', hequals⟩ := hrest (w.after position s first) _ hmarked
      refine ⟨hmarks', ?_⟩
      rw [hequals, hfirst]
      cases w.equals <;> simp [Segment.equalsIndex, heq]
    · -- no mark is made, so the count for the rest begins after the bytes of this segment
      have hsame : m.equalsSeen = s.equalsSeen := by simp [hseen, heq]
      have hequals₁ := Word.equals_after w position s first hreads hsame
      obtain ⟨hmarks', hequals⟩ := hrest (w.after position s first) _
        (by rw [Word.Marks, hequals₁, hsame]; exact hmarks)
      refine ⟨hmarks', ?_⟩
      rw [hequals, hequals₁, hsize]
      simp [Segment.equalsIndex, heq, Function.comp_def, Nat.add_assoc]

/-! ## Words and gaps -/

namespace Reading

/-- The reading with a word begun at its place. -/
def enter (r : Reading) : Reading :=
  { r with state := { r.state with inWord := true, equalsSeen := false }
           word := some { start := r.position } }

/-- A byte that is no blank begins a word where none is under way. -/
theorem feed_of_not_blank {r : Reading} (h : r.word = none) {b : UInt8} (hb : isBlank b = false) :
    r.feed b = r.enter.feed b := by
  simp [feed, enter, h, hb, feedWord]

theorem feedAll_of_not_blank {r : Reading} (h : r.word = none) {t : Text}
    (ht : t.head?.any (!isBlank ·)) : r.feedAll t = r.enter.feedAll t := by
  cases t with
  | nil => simp at ht
  | cons b t => rw [feedAll_cons, feedAll_cons, feed_of_not_blank h (by simpa using ht)]

/-- A blank is passed over where no word is under way. -/
theorem feed_blank {r : Reading} (h : r.word = none) {b : UInt8} (hb : isBlank b) :
    r.feed b = .ok { r with position := r.position + 1, states := r.states.push r.state } := by
  simp [feed, h, hb]

/-- What the next words are read from: no word is under way and nothing is open. -/
structure Rests (r : Reading) : Prop where
  word : r.word = none
  closed : r.state.isOpen = false

theorem feedAll_blanks (t : Text) (ht : ∀ b ∈ t, isBlank b) {r : Reading} (h : r.Rests) :
    ∃ r', r.feedAll t = .ok r' ∧ r'.Rests ∧ r'.position = r.position + t.length ∧
      r'.tokens = r.tokens := by
  induction t generalizing r with
  | nil => exact ⟨r, rfl, h, rfl, rfl⟩
  | cons b t ih =>
    have hstep := feed_blank h.word (ht b (by simp))
    obtain ⟨r', hfeed, hrests, hpos, htokens⟩ :=
      ih (fun b hb => ht b (by simp [hb])) (r := { r with
        position := r.position + 1, states := r.states.push r.state }) ⟨h.word, h.closed⟩
    refine ⟨r', ?_, hrests, ?_, htokens⟩
    · rw [feedAll_cons_of_feed hstep, hfeed]
    · rw [hpos]; simp only [List.length_cons]; omega

/-- **A written word is read as its token**, which is still under way at its end. -/
theorem feedAll_writtenWord (u : WrittenWord) {r : Reading} (h : r.Rests) :
    ∃ r' w, r.feedAll u.source = .ok r' ∧ r'.word = some w ∧ r'.state.isOpen = false ∧
      r'.position = r.position + u.source.length ∧ r'.tokens = r.tokens ∧
      w.close r'.position = u.token r.position := by
  have hclosed : r.enter.state.isOpen = false := h.closed
  obtain ⟨steps, s', hreads, houts, hs', hword⟩ := reads_segments u.segments hclosed
  obtain ⟨-, hequals⟩ := hword { start := r.position } r.position rfl
  replace houts : steps.map (·.output) = u.outputs := houts
  replace hequals : (Word.after { start := r.position } r.position r.enter.state steps).equals
      = Segment.equalsIndex u.segments := by rw [hequals]; simp
  have hfeed := feedAll_of_reads hreads (r := r.enter) rfl rfl
  refine ⟨_, _, (feedAll_of_not_blank h.word u.starts).trans hfeed, rfl, hs', rfl, rfl, ?_⟩
  show Word.close (Word.after { start := r.position } r.position r.enter.state steps) _ = _
  rw [Word.close, hequals, WrittenWord.token]
  simp [houts, enter, WrittenWord.source]

/-- A gap ends the word under way. -/
theorem feedAll_gap (g : Gap) {r : Reading} {w : Word} (hw : r.word = some w)
    (hs : r.state.isOpen = false) :
    ∃ r', r.feedAll g.source = .ok r' ∧ r'.Rests ∧ r'.position = r.position + g.source.length ∧
      r'.tokens = r.tokens.push (w.close r.position) := by
  have hfeed : r.feed g.first = .ok
      { position := r.position + 1, state := { r.state.settled with inWord := false }
        word := none, tokens := r.tokens.push (w.close r.position)
        states := r.states.push { r.state.settled with inWord := false } } := by
    simp [feed, hw, feedWord, State.step_break hs g.isBreak_first]
  obtain ⟨r', hrest, hrests, hpos, htokens⟩ := feedAll_blanks g.rest g.isBlank_rest
    (r := { position := r.position + 1, state := { r.state.settled with inWord := false }
            word := none, tokens := r.tokens.push (w.close r.position)
            states := r.states.push { r.state.settled with inWord := false } }) ⟨rfl, rfl⟩
  refine ⟨r', ?_, hrests, ?_, htokens⟩
  · rw [Gap.source, feedAll_cons_of_feed hfeed, hrest]
  · rw [hpos]; simp only [Gap.source, List.length_cons]; omega

/-! ## Lines -/

/-- The tokens of a reading, the word under way included. -/
def allTokens (r : Reading) : List Token :=
  (match r.word with
    | some w => r.tokens.push (w.close r.position)
    | none => r.tokens).toList

theorem feedAll_body (ended : List (WrittenWord × Gap)) (last : Option WrittenWord) {r : Reading}
    (h : r.Rests) :
    ∃ r', r.feedAll (Layout.body ended last) = .ok r' ∧ r'.state.isOpen = false ∧
      r'.allTokens = r.tokens.toList ++ Layout.tokensFrom r.position ended last := by
  induction ended generalizing r with
  | nil =>
    cases last with
    | none =>
      exact ⟨r, rfl, h.closed, by simp [allTokens, h.word, Layout.tokensFrom]⟩
    | some u =>
      obtain ⟨r', w, hfeed, hw, hs, hpos, htokens, hclose⟩ := feedAll_writtenWord u h
      refine ⟨r', by simpa [Layout.body] using hfeed, hs, ?_⟩
      simp [allTokens, hw, htokens, hclose, Layout.tokensFrom]
  | cons p rest ih =>
    obtain ⟨u, g⟩ := p
    obtain ⟨r₁, w, hfeed₁, hw, hs, hpos₁, htokens₁, hclose⟩ := feedAll_writtenWord u h
    obtain ⟨r₂, hfeed₂, hrests, hpos₂, htokens₂⟩ := feedAll_gap g hw hs
    obtain ⟨r', hfeed', hs', htokens'⟩ := ih hrests
    refine ⟨r', ?_, hs', ?_⟩
    · rw [show Layout.body ((u, g) :: rest) last
          = u.source ++ (g.source ++ Layout.body rest last) from by simp [Layout.body],
        feedAll_append_of_feedAll hfeed₁, feedAll_append_of_feedAll hfeed₂, hfeed']
    · rw [htokens', htokens₂, htokens₁, hclose, hpos₂, hpos₁]
      simp [Layout.tokensFrom]

end Reading

/-- The first byte after the leading blanks is that of the first word. -/
theorem Layout.head?_dropWhile_source (l : Layout) :
    (l.source.dropWhile isBlank).head? = l.words.head?.bind (·.source.head?) := by
  have hword (u : WrittenWord) (t : Text) :
      ((u.source ++ t).dropWhile isBlank).head? = u.source.head? := by
    have hstarts : u.source.head?.any (!isBlank ·) := u.starts
    cases hu : u.source with
    | nil => rw [hu] at hstarts; cases hstarts
    | cons b rest =>
      rw [hu] at hstarts
      simp only [List.head?_cons, Option.any_some, Bool.not_eq_true'] at hstarts
      simp [hstarts]
  have hlead (t : Text) : (l.lead ++ t).dropWhile isBlank = t.dropWhile isBlank :=
    List.dropWhile_append_of_pos l.isBlank_lead
  rw [source, hlead, words, body]
  cases l.ended with
  | nil =>
    cases l.last with
    | none => rfl
    | some u => simpa using hword u []
  | cons p rest =>
    simpa [List.append_assoc] using hword p.1 _

theorem Layout.startsComment_source (l : Layout) : startsComment {} l.source = l.isComment := by
  rw [startsComment, l.head?_dropWhile_source, isComment]
  cases l.words.head? with
  | none => rfl
  | some u => simp

/-- **Reading the source of a layout** that is no comment succeeds, ends outside quotes and
escapes, and gives the tokens of the layout. -/
theorem lex_layout (l : Layout) (h : l.isComment = false) :
    ∃ lexed, lex l.source = .ok lexed ∧ lexed.isComment = false ∧
      lexed.state.isOpen = false ∧ lexed.tokens = l.tokens := by
  obtain ⟨r₁, hlead, hrests, hpos, htokens⟩ :=
    Reading.feedAll_blanks l.lead l.isBlank_lead (r := { state := {} }) ⟨rfl, rfl⟩
  obtain ⟨r, hbody, hclosed, hall⟩ := Reading.feedAll_body l.ended l.last hrests
  have hfeed : Reading.feedAll { state := {} } l.source = .ok r := by
    rw [Layout.source, Reading.feedAll_append_of_feedAll hlead, hbody]
  refine ⟨r.finish l.source, ?_, rfl, hclosed, ?_⟩
  · rw [lex_eq_feedAll (l.startsComment_source.trans h), Reading.start_default, hfeed]
  · show r.allTokens = l.tokens
    rw [hall, htokens, hpos]
    simp [Layout.tokens]

end ConfigShell.Line
