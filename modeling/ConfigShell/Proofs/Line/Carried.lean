import ConfigShell.Proofs.Line.Lines
/-!
# Reading goes on in the next line

A line that ends inside quotes or an escape sequence leaves a state that is open, and the next
line is read from that state. Nothing else has to be carried over: reading `a ++ b` at once does
what reading `b` from the state after `a` does, with every place moved behind `a` and the two
halves of the word that was cut put together (`lex_append`).

The readings of `b` in the one run and in the other are compared byte by byte by `Continues`,
which holds wherever the cut falls.
-/

namespace ConfigShell.Line

/-! ## Words and tokens that are moved and put together -/

namespace Token

/-- The token `n` bytes further on. -/
def shift (n : Nat) (t : Token) : Token :=
  { t with start := t.start + n, stop := t.stop + n, offsets := t.offsets.map (· + n) }

/-- The token of a word that was cut in two. -/
def fuse (t u : Token) : Token :=
  { t with
    data := t.data ++ u.data
    stop := u.stop
    equals := t.equals.or (u.equals.map (· + t.data.length))
    offsets := t.offsets ++ u.offsets }

end Token

namespace Word

variable (n : Nat) (first w : Word)

def shift : Word := { w with start := w.start + n, offsets := w.offsets.map (· + n) }

/-- The word that begins with `first` and goes on with `w`. -/
def fuse : Word :=
  { start := first.start
    data := first.data ++ w.data
    offsets := first.offsets ++ w.offsets
    equals := first.equals.or (w.equals.map (· + first.data.size)) }

theorem close_shift (stop : Nat) :
    (w.shift n).close (stop + n) = (w.close stop).shift n := by
  simp [close, shift, Token.shift, Function.comp_def]

theorem close_fuse (stop stop' : Nat) :
    (first.fuse w).close stop' = (first.close stop).fuse (w.close stop') := by
  simp only [close, fuse, Token.fuse, Array.toList_append, List.map_append, Token.mk.injEq,
    true_and, and_true]
  cases first.equals <;> cases w.equals <;> simp

theorem shift_after_one (position : Nat) (s : State) (step : Step) :
    (w.shift n).after (position + n) s [step] = (w.after position s [step]).shift n := by
  simp only [after, shift, add]
  split <;> simp [← Array.toList_inj]

/-- A step keeps the equals sign of the word and that of the state together. -/
theorem Marks.after_one {w : Word} {s : State} {step : Step} (h : w.Marks s) (position : Nat)
    (hseen : s.equalsSeen = true → step.state.equalsSeen = true) :
    (w.after position s [step]).Marks step.state := by
  simp only [Marks] at h ⊢
  cases hs : s.equalsSeen with
  | true => simp [after, hs, hseen hs, h]
  | false => cases hm : step.state.equalsSeen <;> simp [after, hs, hm, h]

/-- A word put together takes a step as its second half does, provided that an equals sign of
the first half is known to the state. -/
theorem fuse_after_one (position : Nat) (s : State) (step : Step)
    (h : first.equals.isSome → s.equalsSeen = true) :
    (first.fuse w).after position s [step] = first.fuse (w.after position s [step]) := by
  cases hmark : step.state.equalsSeen && !s.equalsSeen with
  | false => simp [after, fuse, add, hmark, ← Array.toList_inj]
  | true =>
    -- a mark made now is the first one of the whole word
    have hfirst : first.equals = none := by
      cases he : first.equals with
      | none => rfl
      | some i => simp [h (by simp [he])] at hmark
    simp [after, fuse, add, hmark, hfirst, ← Array.toList_inj, Nat.add_comm]

end Word

/-! ## The two runs side by side -/

namespace Reading

/-- The words of a reading `r` of a text, and those of the reading `r'` of the same text after
`base`. Either the word that was cut in two is still under way, `first` being what it had before
the cut, or it has ended and everything since then is only moved. -/
def SameWords (base : Reading) (first : Word) (r r' : Reading) : Prop :=
  (∃ w, r.word = some w ∧ r'.word = some (first.fuse (w.shift base.position)) ∧
      r.tokens = #[] ∧ r'.tokens = base.tokens ∧
      (first.equals.isSome → r.state.equalsSeen = true)) ∨
    ∃ t rest, r.tokens.toList = t :: rest ∧
      r'.tokens.toList = base.tokens.toList
        ++ (first.close base.position).fuse (t.shift base.position)
          :: rest.map (Token.shift base.position) ∧
      r'.word = r.word.map (Word.shift base.position)

/-- How the reading `r'` of a text that goes on after `base` compares with the reading `r` of that
text alone. -/
structure Continues (base : Reading) (first : Word) (r r' : Reading) : Prop where
  position : r'.position = r.position + base.position
  state : r'.state = r.state
  states : r'.states = base.states ++ r.states
  words : SameWords base first r r'

/-- The two runs go on side by side, or both stop at the same byte. -/
def InStep (base : Reading) (first : Word) :
    Except (Fault × Nat) Reading → Except (Fault × Nat) Reading → Prop
  | .error (fault, offset), r' => r' = .error (fault, offset + base.position)
  | .ok r, r' => ∃ r₁, r' = .ok r₁ ∧ Continues base first r r₁

variable {base r r' : Reading} {first : Word}

/-- A byte of a word keeps the two runs side by side if it does so with their words. -/
theorem inStep_feedWord (hposition : r'.position = r.position + base.position)
    (hstates : r'.states = base.states ++ r.states) (s : State) (w w' : Word) (b : UInt8)
    (ends : ∀ s', SameWords base first (r.ended w s') (r'.ended w' s'))
    (goesOn : ∀ step, s.step b = .ok step →
      SameWords base first (r.advanced (w.after r.position s [step]) step.state)
        (r'.advanced (w'.after r'.position s [step]) step.state)) :
    InStep base first (r.feedWord s w b) (r'.feedWord s w' b) := by
  have hposition' : r'.position + 1 = r.position + 1 + base.position := by omega
  cases hstep : s.step b with
  | error fault =>
    rw [feedWord_of_error hstep, feedWord_of_error hstep, hposition]
    exact rfl
  | ok step =>
    have hstates' : r'.states.push step.state = base.states ++ r.states.push step.state := by
      rw [hstates, Array.append_push]
    cases hboundary : step.isBoundary with
    | true =>
      rw [feedWord_of_boundary hstep hboundary, feedWord_of_boundary hstep hboundary]
      exact ⟨_, rfl, hposition', rfl, hstates', ends step.state⟩
    | false =>
      rw [feedWord_of_goesOn hstep hboundary, feedWord_of_goesOn hstep hboundary]
      exact ⟨_, rfl, hposition', rfl, hstates', goesOn step hstep⟩

/-- A byte of the word that was cut in two. -/
theorem inStep_first (hposition : r'.position = r.position + base.position)
    (hstates : r'.states = base.states ++ r.states) (htokens : r.tokens = #[])
    (htokens' : r'.tokens = base.tokens) (s : State) (w : Word)
    (hseen : first.equals.isSome → s.equalsSeen = true) (b : UInt8) :
    InStep base first (r.feedWord s w b)
      (r'.feedWord s (first.fuse (w.shift base.position)) b) := by
  refine inStep_feedWord hposition hstates s w _ b (fun s' => .inr ?_) fun step hstep => .inl ?_
  · refine ⟨w.close r.position, [], by simp [ended, htokens], ?_, rfl⟩
    simp only [ended, htokens', hposition, Array.toList_push, List.map_nil]
    rw [Word.close_fuse _ _ base.position, Word.close_shift]
  · refine ⟨_, rfl, ?_, htokens, htokens', fun h => (State.keeps_step hstep).equalsSeen (hseen h)⟩
    simp only [advanced, hposition]
    rw [Word.fuse_after_one _ _ _ _ _ hseen, Word.shift_after_one]

/-- A byte of a later word. -/
theorem inStep_later (hposition : r'.position = r.position + base.position)
    (hstates : r'.states = base.states ++ r.states) {t : Token} {rest : List Token}
    (htokens : r.tokens.toList = t :: rest)
    (htokens' : r'.tokens.toList = base.tokens.toList
      ++ (first.close base.position).fuse (t.shift base.position)
        :: rest.map (Token.shift base.position)) (s : State) (w : Word) (b : UInt8) :
    InStep base first (r.feedWord s w b) (r'.feedWord s (w.shift base.position) b) := by
  refine inStep_feedWord hposition hstates s w _ b (fun s' => .inr ?_) fun step _ => .inr ?_
  · refine ⟨t, rest ++ [w.close r.position], by simp [ended, htokens], ?_, rfl⟩
    simp [ended, htokens', hposition, Word.close_shift]
  · refine ⟨t, rest, htokens, htokens', ?_⟩
    simp only [advanced, hposition, Word.shift_after_one, Option.map_some]

/-- **One byte keeps the two runs side by side.** -/
theorem Continues.feed (h : Continues base first r r') (b : UInt8) :
    InStep base first (r.feed b) (r'.feed b) := by
  obtain ⟨hposition, hstate, hstates, hwords⟩ := h
  rcases hwords with ⟨w, hw, hw', htokens, htokens', hseen⟩ | ⟨t, rest, htokens, htokens', hword⟩
  · simp only [Reading.feed, hw, hw', hstate]
    exact inStep_first hposition hstates htokens htokens' _ w hseen b
  · -- the word that was cut is over, so the rest is read alike at both places
    cases hw : r.word with
    | some w =>
      simp only [Reading.feed, hw, hword, hstate, Option.map_some]
      exact inStep_later hposition hstates htokens htokens' _ w b
    | none =>
      rw [hw, Option.map_none] at hword
      by_cases hblank : isBlank b
      · rw [feed_blank hw hblank, feed_blank hword hblank]
        have hposition' : r'.position + 1 = r.position + 1 + base.position := by omega
        refine ⟨_, rfl, hposition', hstate, by simp [hstates, hstate], .inr ?_⟩
        exact ⟨t, rest, htokens, htokens', by simp [hw, hword]⟩
      · have hstart : ({ start := r'.position } : Word)
            = Word.shift base.position { start := r.position } := by
          simp [Word.shift, hposition]
        simp only [Reading.feed, hw, hword, hblank, hstate, hstart, Bool.false_eq_true, if_false]
        exact inStep_later hposition hstates htokens htokens' _ _ b

/-- **A whole text keeps them side by side.** -/
theorem Continues.feedAll (h : Continues base first r r') (t : Text) :
    InStep base first (r.feedAll t) (r'.feedAll t) := by
  induction t generalizing r r' with
  | nil => exact ⟨r', rfl, h⟩
  | cons b t ih =>
    have hfeed := h.feed b
    cases hr : r.feed b with
    | error e =>
      rw [hr] at hfeed
      obtain ⟨fault, offset⟩ := e
      rw [feedAll_cons, feedAll_cons, hr, show r'.feed b = _ from hfeed]
      exact rfl
    | ok m =>
      rw [hr] at hfeed
      obtain ⟨m', hm', hcontinues⟩ := hfeed
      rw [feedAll_cons_of_feed hr, feedAll_cons_of_feed hm']
      exact ih hcontinues

/-! ## Where a line ends open -/

/-- What holds of every reading of a line: where no word is under way nothing is open, and the
state knows whether one is and whether it has had an equals sign. -/
structure Tracks (r : Reading) : Prop where
  closed : r.word = none → r.state.isOpen = false
  inWord : ∀ w, r.word = some w → r.state.inWord = true
  marks : ∀ w, r.word = some w → w.Marks r.state

theorem tracks_feedWord {s : State} {w : Word} {b : UInt8} (hin : s.inWord = true)
    (hmarks : w.Marks s) (h : r.feedWord s w b = .ok r') :
    r'.Tracks ∧ r'.position = r.position + 1 := by
  cases hstep : s.step b with
  | error fault => rw [feedWord_of_error hstep] at h; cases h
  | ok step =>
    have hkeeps := State.keeps_step hstep
    cases hboundary : step.isBoundary with
    | true =>
      rw [feedWord_of_boundary hstep hboundary] at h
      obtain ⟨hclosed, hbreak⟩ := hkeeps.boundary hboundary
      cases hstep.symm.trans (State.step_break hclosed hbreak)
      cases h
      exact ⟨⟨fun _ => rfl, fun _ hw => (nomatch hw), fun _ hw => (nomatch hw)⟩, rfl⟩
    | false =>
      rw [feedWord_of_goesOn hstep hboundary] at h
      cases h
      refine ⟨⟨fun hw => (nomatch hw), fun _ _ => ?_, fun w' hw => ?_⟩, rfl⟩
      · show step.state.inWord = true
        rw [hkeeps.inWord, hin, hboundary]
        rfl
      · cases hw
        exact hmarks.after_one r.position hkeeps.equalsSeen

theorem Tracks.feed (h : r.Tracks) {b : UInt8} (hfeed : r.feed b = .ok r') :
    r'.Tracks ∧ r'.position = r.position + 1 := by
  cases hw : r.word with
  | some w =>
    simp only [Reading.feed, hw] at hfeed
    exact tracks_feedWord (h.inWord w hw) (h.marks w hw) hfeed
  | none =>
    by_cases hblank : isBlank b
    · rw [feed_blank hw hblank] at hfeed
      cases hfeed
      exact ⟨⟨h.closed, h.inWord, h.marks⟩, rfl⟩
    · simp only [Reading.feed, hw, hblank, Bool.false_eq_true, if_false] at hfeed
      exact tracks_feedWord (s := { r.state with inWord := true, equalsSeen := false })
        (w := { start := r.position }) rfl rfl hfeed

theorem Tracks.feedAll {t : Text} (h : r.Tracks) (hfeed : r.feedAll t = .ok r') :
    r'.Tracks ∧ r'.position = r.position + t.length := by
  induction t generalizing r with
  | nil => cases hfeed; exact ⟨h, rfl⟩
  | cons b t ih =>
    obtain ⟨m, hm, hrest⟩ := exists_feed_of_feedAll_cons hfeed
    obtain ⟨htracks, hposition⟩ := h.feed hm
    obtain ⟨htracks', hposition'⟩ := ih htracks hrest
    refine ⟨htracks', ?_⟩
    rw [hposition', hposition, List.length_cons]
    omega

theorem tracks_start : ({ state := {} } : Reading).Tracks :=
  ⟨fun _ => rfl, fun _ hw => (nomatch hw), fun _ hw => (nomatch hw)⟩

/-- **A reading that ends open stands in a word**, at the end of the text. -/
theorem exists_word_of_open {a : Text} (hfeed : Reading.feedAll { state := {} } a = .ok base)
    (hopen : base.state.isOpen = true) :
    ∃ first, base.word = some first ∧ base.state.inWord = true ∧ first.Marks base.state ∧
      base.position = a.length := by
  obtain ⟨htracks, hposition⟩ := tracks_start.feedAll hfeed
  cases hw : base.word with
  | none =>
    rw [htracks.closed hw] at hopen
    cases hopen
  | some first =>
    exact ⟨first, rfl, htracks.inWord first hw, htracks.marks first hw, by simpa using hposition⟩

end Reading

/-- A line that ends open is not blank, so what follows it does not make it a comment. -/
theorem startsComment_append {a : Text} {base : Reading}
    (hfeed : Reading.feedAll { state := {} } a = .ok base) (hopen : base.state.isOpen = true)
    (b : Text) : startsComment {} (a ++ b) = startsComment {} a := by
  have hne : a.dropWhile isBlank ≠ [] := by
    -- a blank line would leave nothing open
    intro hnil
    have hblank : ∀ c ∈ a, isBlank c := by
      rw [← List.takeWhile_append_dropWhile (p := isBlank) (l := a), hnil, List.append_nil]
      exact List.all_eq_true.mp List.all_takeWhile
    obtain ⟨r, hr, hrests, -⟩ :=
      Reading.feedAll_blanks a hblank (r := { state := {} }) ⟨rfl, rfl⟩
    cases hfeed.symm.trans hr
    rw [hrests.closed] at hopen
    cases hopen
  obtain ⟨c, rest, hc⟩ := List.exists_cons_of_ne_nil hne
  rw [startsComment, startsComment, List.dropWhile_append, hc]
  rfl

/-! ## Reading in two halves -/

/-- The tokens `joined` are `before` and, `n` bytes further on, `after`, the last one of the
former and the first one of the latter being one word. -/
def Fused (n : Nat) (before after joined : List Token) : Prop :=
  ∃ rest last first later, before = rest ++ [last] ∧ after = first :: later ∧
    joined = rest ++ last.fuse (first.shift n) :: later.map (Token.shift n)

/-- Reading a text from a state that is open begins side by side with reading on. -/
theorem Reading.continues_start {base : Reading} {first : Word} {b : Text}
    (hword : base.word = some first) (hin : base.state.inWord = true)
    (hmarks : first.Marks base.state) (hopen : base.state.isOpen = true) (hb : b ≠ []) :
    Continues base first (Reading.start base.state b) base := by
  -- the state says already that a word is under way
  have hstate : { base.state with inWord := true } = base.state := by rw [← hin]
  have hstart : Reading.start base.state b
      = { state := base.state, word := some { start := 0 } } := by
    simp [Reading.start, hopen, hb, hstate]
  rw [hstart]
  refine ⟨(Nat.zero_add _).symm, rfl, by simp, .inl ⟨_, rfl, ?_, rfl, rfl, ?_⟩⟩
  · simp [hword, Word.fuse, Word.shift]
  · intro hsome
    exact hmarks.symm.trans hsome

/-- Readings side by side that are finished there have tokens that fuse. -/
theorem Reading.Continues.fused {base r r' : Reading} {first : Word}
    (hbase : base.word = some first) (h : Continues base first r r') (a b c : Text) :
    Fused base.position (base.finish a).tokens (r.finish b).tokens (r'.finish c).tokens := by
  have hbefore : (base.finish a).tokens = base.tokens.toList ++ [first.close base.position] := by
    simp [finish, hbase]
  rcases h.words with ⟨w, hw, hw', htokens, htokens', -⟩ | ⟨t, rest, htokens, htokens', hword⟩
  · refine ⟨_, _, w.close r.position, [], hbefore, by simp [finish, hw, htokens], ?_⟩
    rw [← Word.close_shift, ← Word.close_fuse, ← h.position]
    simp [finish, hw', htokens']
  · cases hw : r.word with
    | none =>
      refine ⟨_, _, t, rest, hbefore, by simp [finish, hw, htokens], ?_⟩
      simp [finish, hword, hw, htokens']
    | some w =>
      refine ⟨_, _, t, rest ++ [w.close r.position], hbefore, by simp [finish, hw, htokens], ?_⟩
      simp [finish, hword, hw, htokens', h.position, Word.close_shift]

/-- **Reading goes on in the next line.** After a line `a` that ends open, reading `b` from the
state that is left fails exactly where reading `a ++ b` at once does, and otherwise leaves the
same states and the same words: the last one of `a` and the first one of `b` are one, unless `b`
is empty. -/
theorem lex_append {a b : Text} {la : Lexed} (h : lex a = .ok la) (hcomment : la.isComment = false)
    (hopen : la.state.isOpen = true) :
    match lex b la.state with
    | .error e => lex (a ++ b) = .error ⟨e.fault, e.offset + a.length, a ++ b⟩
    | .ok lb => ∃ joined, lex (a ++ b) = .ok joined ∧ joined.isComment = false ∧
        joined.state = lb.state ∧ joined.states = la.states ++ lb.states ∧
        if b = [] then joined.tokens = la.tokens
        else Fused a.length la.tokens lb.tokens joined.tokens := by
  obtain ⟨hnot, base, hfeed, rfl⟩ := exists_feedAll_of_lex h hcomment
  rw [Reading.start_default] at hfeed
  replace hopen : base.state.isOpen = true := hopen
  obtain ⟨first, hword, hin, hmarks, hposition⟩ := Reading.exists_word_of_open hfeed hopen
  have hcommentb : startsComment base.state b = false := by simp [startsComment, hopen]
  have hwhole := lex_eq_feedAll ((startsComment_append hfeed hopen b).trans hnot)
  rw [Reading.start_default, Reading.feedAll_append_of_feedAll hfeed] at hwhole
  show match lex b base.state with
    | .error e => _
    | .ok lb => _
  rw [lex_eq_feedAll hcommentb, hwhole]
  by_cases hb : b = []
  · subst hb
    exact ⟨_, rfl, rfl, by simp [Reading.finish, Reading.start],
      by simp [Reading.finish, Reading.start], by simp [Reading.finish]⟩
  · have hcontinues := Reading.continues_start hword hin hmarks hopen hb
    have hstep := hcontinues.feedAll b
    cases hr : (Reading.start base.state b).feedAll b with
    | error e =>
      rw [hr] at hstep
      rw [show base.feedAll b = _ from hstep]
      simp [hposition]
    | ok r =>
      rw [hr] at hstep
      obtain ⟨r', hr', hside⟩ := hstep
      rw [hr']
      refine ⟨_, rfl, rfl, hside.state, ?_, ?_⟩
      · simp [Reading.finish, hside.states]
      · rw [if_neg hb, ← hposition]
        exact hside.fused hword a b (a ++ b)

/-- The line `k="a` is cut inside its quotes; `=b" c` goes on from there. -/
theorem lex_append_quoted :
    ∃ la lb joined, lex [0x6B, 0x3D, 0x22, 0x61] = .ok la ∧ la.isComment = false ∧
      la.state.isOpen = true ∧ lex [0x3D, 0x62, 0x22, 0x20, 0x63] la.state = .ok lb ∧
      lex ([0x6B, 0x3D, 0x22, 0x61] ++ [0x3D, 0x62, 0x22, 0x20, 0x63]) = .ok joined ∧
      Fused 4 la.tokens lb.tokens joined.tokens := by
  have h := lex_append (a := [0x6B, 0x3D, 0x22, 0x61]) (b := [0x3D, 0x62, 0x22, 0x20, 0x63])
    rfl rfl rfl
  obtain ⟨joined, hlex, -, -, -, hfused⟩ := h
  exact ⟨_, _, joined, rfl, rfl, rfl, rfl, hlex, hfused⟩

end ConfigShell.Line
