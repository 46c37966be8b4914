import ConfigShell.Proofs.Line.Lines
/-!
# Every line that can be read has a layout

The way back: from a run of the state that ends outside quotes and escapes the segments are
recovered one by one. Each kind of open state has its own lemma, which finds how the rest of the
text closes it; that what follows can again be read as segments is then the uniqueness of
`Reads`. Main statement: `lexFinal_accepts_iff`, a line can be read to its end exactly if it has
a layout, and its words are those of the layout.
-/

namespace ConfigShell.Line

/-! ## Escape sequences -/

/-- A byte from the digit zero on is that far from it. -/
theorem eq_zero_add_digit {b : UInt8} (h : 0x30 ≤ b) : b = 0x30 + UInt8.ofNat (b.toNat - 48) := by
  have hlow : 48 ≤ b.toNat := UInt8.le_iff_toNat_le.mp h
  have hhigh := b.toNat_lt
  have hdigit : (UInt8.ofNat (b.toNat - 48)).toNat = b.toNat - 48 := by
    rw [UInt8.toNat_ofNat']; omega
  apply UInt8.toNat_inj.mp
  rw [UInt8.toNat_add, hdigit, show (0x30 : UInt8).toNat = 48 from rfl]
  omega

theorem exists_octalDigit {b : UInt8} (h : isOctalDigit b) :
    ∃ k : Fin 8, b = 0x30 + UInt8.ofNat k.val := by
  simp only [isOctalDigit, Bool.and_eq_true, decide_eq_true_eq] at h
  have hhigh : b.toNat ≤ 55 := UInt8.le_iff_toNat_le.mp h.2
  exact ⟨⟨b.toNat - 48, by omega⟩, eq_zero_add_digit h.1⟩

theorem exists_octalFirst {b : UInt8} (h : 0x30 ≤ b ∧ b ≤ 0x33) :
    ∃ k : Fin 4, b = 0x30 + UInt8.ofNat k.val := by
  have hhigh : b.toNat ≤ 51 := UInt8.le_iff_toNat_le.mp h.2
  exact ⟨⟨b.toNat - 48, by omega⟩, eq_zero_add_digit h.1⟩

/-- An octal digit that is due is there. -/
theorem isOctalDigit_of_step {s : State} {seen : Fin 2} (h : s.escape = .octal seen) {b : UInt8}
    {step : Step} (hstep : s.step b = .ok step) : isOctalDigit b := by
  cases hb : isOctalDigit b with
  | true => rfl
  | false => simp [State.step, h, State.stepOctal, hb] at hstep

/-- A hexadecimal digit that is due is there. -/
theorem exists_hexDigit {form : HexForm} {seen : Fin form.digits} {s : State} {b : UInt8}
    {step : Step} (h : s.escape = .hex form seen) (hstep : s.step b = .ok step) :
    ∃ v, hexValue? b = some v := by
  refine Option.ne_none_iff_exists'.mp fun hnone => ?_
  simp [State.step, h, State.stepHex, hnone] at hstep

/-- An escape that ends stands for something. -/
theorem exists_of_map_completed {s : State} {result : Except Fault Text} {step : Step}
    (h : result.map s.completed = .ok step) : ∃ out, result = .ok out ∧ step = s.completed out := by
  cases result with
  | error fault => cases h
  | ok out =>
    cases h
    exact ⟨out, rfl, rfl⟩

/-- The digits that are left of a hexadecimal escape are there, and its number is one that the
form can have. -/
theorem exists_hexDigits {form : HexForm} {t : Text} {s s' : State} {steps : List Step}
    (h : Reads s t steps s') {seen : Fin form.digits} {n : Nat}
    (hescape : s.escape = .hex form seen) (hcode : s.code = n)
    (hclosed : s'.escape.isOpen = false) :
    ∃ digits rest, t = digits ++ rest ∧ seen.val + digits.length = form.digits ∧
      (∀ d ∈ digits, isHexDigit d) ∧ ∃ out, hexOutput form
        ((digits.foldl (fun n d => n * 16 + (hexValue? d).getD 0) n : Nat) : Int) = .ok out := by
  induction h generalizing seen n with
  | nil s => rw [hescape] at hclosed; cases hclosed
  | @cons s s' b t step steps hstep goesOn rest ih =>
    obtain ⟨v, hv⟩ := exists_hexDigit hescape hstep
    have hdigit : isHexDigit b := by simp [isHexDigit, hv]
    have hcode' : s.code * 16 + (v : Int) = ((n * 16 + v : Nat) : Int) := by rw [hcode]; omega
    by_cases hmore : seen.val + 1 < form.digits
    · rw [step_hexDigit hescape hv hmore, hcode'] at hstep
      cases hstep
      obtain ⟨digits, rest', rfl, hlen, hdigits, hout⟩ := ih (n := n * 16 + v) rfl rfl hclosed
      refine ⟨b :: digits, rest', rfl, by simp at hlen ⊢; omega, ?_, ?_⟩
      · intro d hd
        rcases List.mem_cons.mp hd with rfl | hd
        · exact hdigit
        · exact hdigits d hd
      · simpa [hv] using hout
    · have hlast : seen.val + 1 = form.digits := by omega
      rw [step_hexLast hescape hv hlast, hcode'] at hstep
      obtain ⟨out, hout, -⟩ := exists_of_map_completed hstep
      exact ⟨[b], t, rfl, hlast, by simpa using hdigit, out, by simpa [hv] using hout⟩

/-- A number that becomes bytes is one that its form can have. -/
theorem names_of_hexOutput {form : HexForm} {n : Nat} {out : Text}
    (h : hexOutput form n = .ok out) : form.Names n := by
  cases form with
  | byte => trivial
  | short | long =>
    rw [hexOutput_of_code (by simp)] at h
    show n < 0xD800 ∨ 0xDFFF < n ∧ n < 0x110000
    split at h
    · cases h
    split at h
    · cases h
    · omega

/-- After the first octal digit two more follow. -/
theorem exists_octalDigits {t : Text} {s s' : State} {steps : List Step} (h : Reads s t steps s')
    (hescape : s.escape = .octal 0) (hclosed : s'.escape.isOpen = false) :
    ∃ (b c : Fin 8) (rest : Text),
      t = [0x30 + UInt8.ofNat b.val, 0x30 + UInt8.ofNat c.val] ++ rest := by
  cases h with
  | nil => rw [hescape] at hclosed; cases hclosed
  | @cons _ _ b t step steps hstep _ rest =>
    obtain ⟨b', rfl⟩ := exists_octalDigit (isOctalDigit_of_step hescape hstep)
    rw [step_octalDigit hescape b', if_pos rfl] at hstep
    cases hstep
    cases rest with
    | nil => cases hclosed
    | @cons _ _ c t step steps hstep _ rest =>
      obtain ⟨c', rfl⟩ := exists_octalDigit (isOctalDigit_of_step rfl hstep)
      exact ⟨b', c', t, rfl⟩

/-- After the `c` of a control escape a name follows. -/
theorem exists_controlName {t : Text} {s s' : State} {steps : List Step} (h : Reads s t steps s')
    (hescape : s.escape = .control) (hclosed : s'.escape.isOpen = false) :
    ∃ name rest, isControlName name ∧ t = name :: rest := by
  cases h with
  | nil => rw [hescape] at hclosed; cases hclosed
  | @cons _ _ name t step steps hstep _ rest =>
    cases hn : isControlName name with
    | false => simp [State.step, hescape, State.stepControl, hn] at hstep
    | true => exact ⟨name, t, hn, rfl⟩

/-- **After a backslash an escape sequence follows**, if nothing is open in the end. -/
theorem exists_escape {t : Text} {s s' : State} {steps : List Step} (h : Reads s t steps s')
    (hescape : s.escape = .backslash) (hclosed : s'.escape.isOpen = false) :
    ∃ (e : EscapeSequence) (rest : Text), t = e.tail ++ rest := by
  cases h with
  | nil => rw [hescape] at hclosed; cases hclosed
  | @cons _ _ b t step steps hstep goesOn rest =>
    simp only [State.step, hescape, State.stepBackslash] at hstep
    -- one case for each kind of escape that the byte may begin, in the order of the step
    split at hstep
    · rename_i out hout
      exact ⟨.letter b out (simpleEscape?_eq_some_iff.mp hout), t, rfl⟩
    split at hstep
    · rename_i hfirst
      obtain ⟨a, rfl⟩ := exists_octalFirst (by simpa using hfirst)
      cases hstep
      obtain ⟨b', c, rest', rfl⟩ := exists_octalDigits rest rfl hclosed
      exact ⟨.octal a b' c, rest', rfl⟩
    split at hstep
    · rename_i hc
      obtain rfl : b = 0x63 := by simpa using hc
      cases hstep
      obtain ⟨name, rest', hname, rfl⟩ := exists_controlName rest rfl hclosed
      exact ⟨.control name hname, rest', rfl⟩
    split at hstep
    · rename_i form hform
      cases hstep
      obtain rfl := hexForm?_eq_some_iff.mp hform
      obtain ⟨digits, rest', rfl, hlen, hdigits, out, hout⟩ :=
        exists_hexDigits rest (n := 0) rfl rfl hclosed
      exact ⟨.hex form digits (by simpa using hlen) hdigits (names_of_hexOutput hout), rest', rfl⟩
    · cases hstep

/-! ## Quoted runs -/

/-- A single quote is closed by the next one. -/
theorem exists_single {t : Text} {s s' : State} {steps : List Step} (h : Reads s t steps s')
    (hquote : s.quote = .single) (hescape : s.escape = .none) (hclosed : s'.isOpen = false) :
    ∃ content rest, 0x27 ∉ content ∧ t = content ++ 0x27 :: rest := by
  induction h with
  | nil s => exact absurd hquote (State.isOpen_eq_false_iff.mp hclosed).2.1
  | @cons s s' b t step steps hstep goesOn rest ih =>
    by_cases hb : b = 0x27
    · subst hb
      exact ⟨[], t, by simp, rfl⟩
    · have hstep' : s.step b = .ok { state := s, output := [b] } := by
        simp [State.step, hescape, State.stepPlain, hquote, hb]
      cases hstep.symm.trans hstep'
      obtain ⟨content, rest', hnot, rfl⟩ := ih hquote hescape hclosed
      exact ⟨b :: content, rest', by simp [hnot, Ne.symm hb], rfl⟩

/-- A double quote is closed by the next one that no backslash goes before. -/
theorem exists_double {t : Text} {s s' : State} {steps : List Step} (h : Reads s t steps s')
    (hquote : s.quote = .double) (hescape : s.escape.isOpen = false)
    (hclosed : s'.isOpen = false) :
    ∃ (items : List QuotedItem) (rest : Text),
      t = items.flatMap QuotedItem.source ++ 0x22 :: rest := by
  -- an escape sequence takes several bytes at once, so the induction is on the length
  induction hn : t.length using Nat.strongRecOn generalizing t s steps with
  | ind n ih =>
    subst hn
    cases h with
    | nil => exact absurd hquote (State.isOpen_eq_false_iff.mp hclosed).2.2
    | @cons _ _ b t step steps hstep goesOn rest =>
      by_cases hb : b = 0x22
      · subst hb
        exact ⟨[], t, rfl⟩
      · by_cases hback : b = 0x5C
        · subst hback
          have hstep' : s.step 0x5C = .ok { state := { s with escape := .backslash } } := by
            rw [State.step_of_escape_closed hescape]
            simp [State.stepPlain, hquote]
          cases hstep.symm.trans hstep'
          obtain ⟨e, rest', rfl⟩ :=
            exists_escape rest rfl (State.isOpen_eq_false_iff.mp hclosed).1
          obtain ⟨first, second, m, -, hreads₁, hreads₂⟩ := rest.of_append
          -- what follows the sequence is read from where the sequence is known to leave off
          obtain ⟨steps', code, hreads₁', -⟩ :=
            e.reads_tail (s := { s with escape := .backslash }) rfl
          obtain ⟨-, rfl⟩ := hreads₁.unique hreads₁'
          have hshorter : rest'.length < (0x5C :: (e.tail ++ rest')).length := by
            simp only [List.length_cons, List.length_append]
            omega
          obtain ⟨items, after, rfl⟩ := ih _ hshorter hreads₂ hquote rfl rfl
          exact ⟨.escape e :: items, after, by simp [QuotedItem.source, EscapeSequence.source]⟩
        · have hstep' : s.step b = .ok { state := { s with escape := .none }, output := [b] } := by
            rw [State.step_of_escape_closed hescape]
            simp [State.stepPlain, hquote, hb, hback]
          cases hstep.symm.trans hstep'
          obtain ⟨items, rest', rfl⟩ := ih _ (by simp) rest hquote rfl rfl
          exact ⟨.plain b ⟨hb, hback⟩ :: items, rest', by simp [QuotedItem.source]⟩

/-! ## Segments -/

/-- Where nothing is open, the text begins with a segment. -/
theorem exists_segment {b : UInt8} {t : Text} {s s' : State} {steps : List Step}
    (h : Reads s (b :: t) steps s') (hs : s.isOpen = false) (hclosed : s'.isOpen = false) :
    ∃ (g : Segment) (rest : Text), b :: t = g.source ++ rest := by
  cases h with
  | @cons _ _ _ _ step steps hstep goesOn rest =>
    by_cases hdouble : b = 0x22
    · subst hdouble
      cases hstep.symm.trans (State.step_doubleQuote hs)
      obtain ⟨items, rest', rfl⟩ := exists_double rest rfl rfl hclosed
      exact ⟨.double items, rest', by simp [Segment.source]⟩
    by_cases hsingle : b = 0x27
    · subst hsingle
      cases hstep.symm.trans (State.step_singleQuote hs)
      obtain ⟨content, rest', hnot, rfl⟩ := exists_single rest rfl rfl hclosed
      exact ⟨.single content hnot, rest', by simp [Segment.source]⟩
    by_cases hback : b = 0x5C
    · subst hback
      cases hstep.symm.trans (State.step_backslash hs)
      obtain ⟨e, rest', rfl⟩ := exists_escape rest rfl (State.isOpen_eq_false_iff.mp hclosed).1
      exact ⟨.escape e, rest', by simp [Segment.source, EscapeSequence.source]⟩
    · cases hbreak : isBreak b with
      | true =>
        cases hstep.symm.trans (State.step_break hs hbreak)
        cases goesOn
      | false => exact ⟨.plain b ⟨hbreak, hdouble, hsingle, hback⟩, t, rfl⟩

/-- **A text read within a word is a row of segments.** -/
theorem exists_segments {t : Text} {s s' : State} {steps : List Step} (h : Reads s t steps s')
    (hs : s.isOpen = false) (hclosed : s'.isOpen = false) :
    ∃ segments : List Segment, t = segments.flatMap Segment.source := by
  induction hn : t.length using Nat.strongRecOn generalizing t s steps with
  | ind n ih =>
    subst hn
    cases t with
    | nil => exact ⟨[], rfl⟩
    | cons b t =>
      obtain ⟨g, rest, hcut⟩ := exists_segment h hs hclosed
      rw [hcut] at h ih ⊢
      obtain ⟨first, second, m, -, hfirst, hsecond⟩ := h.of_append
      obtain ⟨steps', m', hg, -, hm, -⟩ := g.reads hs
      obtain ⟨-, rfl⟩ := hfirst.unique hg
      have hpos := List.length_pos_iff.mpr g.source_ne_nil
      obtain ⟨segments, hsegments⟩ := ih _ (by simp; omega) hsecond hm rfl
      exact ⟨g :: segments, by simp [← hsegments]⟩

/-! ## Lines -/

/-- A reading that stands in a word either stays in it to the end of the text or comes to the
break that ends it. -/
theorem Reading.feedAll_cut {t : Text} {r r' : Reading} {w : Word} (hw : r.word = some w)
    (h : r.feedAll t = .ok r') :
    (∃ steps, Reads r.state t steps r'.state) ∨
      ∃ u b rest steps m r₁, t = u ++ b :: rest ∧ Reads r.state u steps m ∧ m.isOpen = false ∧
        isBreak b ∧ r₁.Rests ∧ Reading.feedAll r₁ rest = .ok r' := by
  induction t generalizing r w with
  | nil => cases h; exact .inl ⟨[], .nil _⟩
  | cons b t ih =>
    obtain ⟨m, hfeed, hrest⟩ := exists_feed_of_feedAll_cons h
    simp only [feed, hw] at hfeed
    cases hstep : r.state.step b with
    | error e => rw [feedWord_of_error hstep] at hfeed; cases hfeed
    | ok step =>
      cases hboundary : step.isBoundary with
      | true =>
        rw [feedWord_of_boundary hstep hboundary] at hfeed
        obtain ⟨hclosed, hbreak⟩ := (State.keeps_step hstep).boundary hboundary
        cases hstep.symm.trans (State.step_break hclosed hbreak)
        cases hfeed
        exact .inr ⟨[], b, t, [], r.state, _, rfl, .nil _, hclosed, hbreak, ⟨rfl, rfl⟩, hrest⟩
      | false =>
        rw [feedWord_of_goesOn hstep hboundary] at hfeed
        cases hfeed
        rcases ih rfl hrest with ⟨steps, hreads⟩ | ⟨u, b', rest, steps, m, r₁, rfl, hreads, hcut⟩
        · exact .inl ⟨_, .cons hstep hboundary hreads⟩
        · exact .inr ⟨b :: u, b', rest, _, m, r₁, rfl, .cons hstep hboundary hreads, hcut⟩

/-- A text with a first byte that is no blank, read within a word, is a written word. -/
theorem exists_writtenWord {t : Text} {s s' : State} {steps : List Step} (h : Reads s t steps s')
    (hs : s.isOpen = false) (hclosed : s'.isOpen = false) (hstarts : t.head?.any (!isBlank ·)) :
    ∃ u : WrittenWord, u.source = t := by
  obtain ⟨segments, rfl⟩ := exists_segments h hs hclosed
  exact ⟨⟨segments, hstarts⟩, rfl⟩

/-- **What is read from rest to the end has a layout.** -/
theorem exists_layout {t : Text} {r r' : Reading} (hr : r.Rests) (h : r.feedAll t = .ok r')
    (hclosed : r'.state.isOpen = false) : ∃ l : Layout, l.source = t := by
  induction hn : t.length using Nat.strongRecOn generalizing t r with
  | ind n ih =>
    subst hn
    cases t with
    | nil => exact ⟨⟨[], by simp, [], none⟩, rfl⟩
    | cons b t =>
      cases hblank : isBlank b with
      | true =>
        obtain ⟨m, hfeed, hrest⟩ := Reading.exists_feed_of_feedAll_cons h
        cases hfeed.symm.trans (Reading.feed_blank hr.word hblank)
        have hrests : Reading.Rests { r with
            position := r.position + 1, states := r.states.push r.state } :=
          ⟨hr.word, hr.closed⟩
        obtain ⟨l, rfl⟩ := ih t.length (by simp) hrests hrest rfl
        refine ⟨⟨b :: l.lead, ?_, l.ended, l.last⟩, rfl⟩
        intro b' hb'
        rcases List.mem_cons.mp hb' with rfl | hb'
        · exact hblank
        · exact l.isBlank_lead b' hb'
      | false =>
        have henter : r.enter.state.isOpen = false := hr.closed
        rw [Reading.feedAll_of_not_blank hr.word (by simp [hblank])] at h
        rcases Reading.feedAll_cut rfl h with
          ⟨steps, hreads⟩ | ⟨u, b', rest, steps, m, r₁, hcut, hreads, hm, hbreak, hr₁, hrest⟩
        · obtain ⟨u, hu⟩ := exists_writtenWord hreads henter hclosed (by simp [hblank])
          exact ⟨⟨[], by simp, [], some u⟩, by simp [Layout.source, Layout.body, hu]⟩
        · -- the word is not empty, as its first byte is no blank and so no break
          have hstarts : u.head?.any (!isBlank ·) := by
            cases u with
            | nil =>
              obtain ⟨rfl, -⟩ : b = b' ∧ t = rest := by simpa using hcut
              simp [isBlank, isBreak] at hblank hbreak
              simp_all
            | cons c u =>
              obtain ⟨rfl, -⟩ : b = c ∧ t = u ++ b' :: rest := by simpa using hcut
              simp [hblank]
          obtain ⟨v, rfl⟩ := exists_writtenWord hreads henter hm hstarts
          have hlen : rest.length < (b :: t).length := by rw [hcut]; simp; omega
          obtain ⟨l, rfl⟩ := ih _ hlen hr₁ hrest rfl
          refine ⟨⟨[], by simp, (v, ⟨b', l.lead, hbreak, l.isBlank_lead⟩) :: l.ended, l.last⟩, ?_⟩
          rw [hcut]
          simp [Layout.source, Layout.body, Gap.source]

/-- A line that can be read to its end can be read, and ends outside quotes and escapes. -/
theorem lexFinal_eq_ok_iff {line : Text} {lexed : Lexed} (hcomment : lexed.isComment = false) :
    lexFinal line = .ok lexed ↔ lex line = .ok lexed ∧ lexed.state.isOpen = false := by
  rw [lexFinal]
  cases h : lex line with
  | error e => simp [Bind.bind, Except.bind]
  | ok found =>
    simp only [Bind.bind, Except.bind]
    constructor
    · intro hok
      split at hok
      · cases hok
      · rename_i hopen
        cases hok
        simpa [hcomment] using hopen
    · rintro ⟨hfound, hclosed⟩
      cases hfound
      simp [hclosed]

/-- A line that is no comment and ends outside quotes and escapes has a layout, whose tokens are
those read. -/
theorem exists_layout_of_lex {line : Text} {lexed : Lexed} (h : lex line = .ok lexed)
    (hcomment : lexed.isComment = false) (hclosed : lexed.state.isOpen = false) :
    ∃ layout : Layout, layout.source = line ∧ layout.isComment = false ∧
      lexed.tokens = layout.tokens := by
  obtain ⟨hnot, r, hfeed, rfl⟩ := exists_feedAll_of_lex h hcomment
  rw [Reading.start_default] at hfeed
  obtain ⟨layout, rfl⟩ := exists_layout ⟨rfl, rfl⟩ hfeed hclosed
  have hplain : layout.isComment = false := layout.startsComment_source.symm.trans hnot
  obtain ⟨lexed', hlex', -, -, htokens⟩ := lex_layout layout hplain
  cases h.symm.trans hlex'
  exact ⟨layout, rfl, hplain, htokens⟩

/-- **A line can be read to its end exactly if it has a layout**, and then its words are those of
the layout. -/
theorem lexFinal_accepts_iff (line : Text) (words : List Text) :
    (∃ lexed, lexFinal line = .ok lexed ∧ lexed.isComment = false ∧
        lexed.tokens.map (·.data) = words) ↔
      ∃ layout : Layout, layout.source = line ∧ layout.isComment = false ∧
        layout.words.map WrittenWord.decoded = words := by
  constructor
  · rintro ⟨lexed, hfinal, hcomment, rfl⟩
    obtain ⟨hlex, hclosed⟩ := (lexFinal_eq_ok_iff hcomment).mp hfinal
    obtain ⟨layout, hsource, hplain, htokens⟩ := exists_layout_of_lex hlex hcomment hclosed
    exact ⟨layout, hsource, hplain, by rw [htokens, layout.data_tokens]⟩
  · rintro ⟨layout, rfl, hplain, rfl⟩
    obtain ⟨lexed, hlex, hcomment, hclosed, htokens⟩ := lex_layout layout hplain
    exact ⟨lexed, (lexFinal_eq_ok_iff hcomment).mpr ⟨hlex, hclosed⟩, hcomment,
      by rw [htokens, layout.data_tokens]⟩

/-- A word that begins with a backslash begins with an escape sequence. -/
theorem WrittenWord.exists_escape_of_source {u : WrittenWord} {more t : Text}
    (h : u.source ++ more = 0x5C :: t) :
    ∃ (e : EscapeSequence) (rest : Text), .escape e ∈ u.segments ∧ t = e.tail ++ rest := by
  have hstarts := u.starts
  cases hu : u.segments with
  | nil => rw [hu] at hstarts; cases hstarts
  | cons g rest =>
    rw [source, hu, List.flatMap_cons, List.append_assoc] at h
    cases g with
    | plain b isPlain =>
      obtain ⟨rfl, -⟩ := List.cons.inj h
      exact absurd rfl isPlain.2.2.2
    | escape e => exact ⟨e, _, by simp, (List.cons.inj h).2.symm⟩
    | single content noQuote => exact absurd (List.cons.inj h).1 (by decide)
    | double items => exact absurd (List.cons.inj h).1 (by decide)

/-- A backslash and a `c` begin a control escape and nothing else. -/
theorem EscapeSequence.isControl_of_tail {e : EscapeSequence} {t rest : Text}
    (h : 0x63 :: t = e.tail ++ rest) : e.isControl = true := by
  cases e with
  | letter l byte isPair =>
    obtain ⟨rfl, -⟩ := List.cons.inj h
    simp [letterEscapes] at isPair
  | octal a b c =>
    have hne : ∀ a : Fin 4, 0x63 ≠ 0x30 + UInt8.ofNat a.val := by decide
    exact absurd (List.cons.inj h).1 (hne a)
  | hex form digits =>
    have hne : ∀ form : HexForm, 0x63 ≠ form.letter := by intro form; cases form <;> decide
    exact absurd (List.cons.inj h).1 (hne form)
  | control name isName => rfl

/-- What stands after the leading blanks begins with the first word. -/
theorem Layout.exists_word_of_body {l : Layout} (h : body l.ended l.last ≠ []) :
    ∃ u ∈ l.words, ∃ more, body l.ended l.last = u.source ++ more := by
  cases hended : l.ended with
  | nil =>
    cases hlast : l.last with
    | none => exact absurd (by rw [hended, hlast]; rfl) h
    | some u => exact ⟨u, by simp [words, hlast], [], by simp [body]⟩
  | cons p rest => exact ⟨p.1, by simp [words, hended], _, by simp [body]; rfl⟩

/-- A line that begins with a backslash and a `c` is only written with a control escape. -/
theorem Layout.exists_control_of_source {l : Layout} {t : Text}
    (h : l.source = 0x5C :: 0x63 :: t) : ∃ e ∈ l.escapes, e.isControl = true := by
  have hlead : l.lead = [] := by
    cases hl : l.lead with
    | nil => rfl
    | cons b rest =>
      rw [source, hl] at h
      obtain ⟨rfl, -⟩ := List.cons.inj h
      exact absurd (l.isBlank_lead 0x5C (by simp [hl])) (by decide)
  have hbody : body l.ended l.last = 0x5C :: 0x63 :: t := by rw [← h, source, hlead]; rfl
  obtain ⟨u, hu, more, hsource⟩ := exists_word_of_body (by rw [hbody]; simp)
  obtain ⟨e, rest, he, htail⟩ := WrittenWord.exists_escape_of_source (hsource.symm.trans hbody)
  refine ⟨e, ?_, EscapeSequence.isControl_of_tail htail⟩
  simp only [escapes, List.mem_flatMap]
  exact ⟨u, hu, .escape e, he, by simp [Segment.escapes]⟩

/-- **Control escapes are needed**: the three bytes backslash, `c`, `A` are read as the byte 1, and
no layout without a control escape writes them. -/
theorem not_accepts_iff_without_control :
    ¬ ((∃ lexed, lexFinal [0x5C, 0x63, 0x41] = .ok lexed ∧ lexed.isComment = false ∧
          lexed.tokens.map (·.data) = [[0x01]]) ↔
        ∃ layout : Layout, layout.source = [0x5C, 0x63, 0x41] ∧ layout.isComment = false ∧
          layout.words.map WrittenWord.decoded = [[0x01]] ∧
          ∀ e ∈ layout.escapes, e.isControl = false) := by
  intro h
  have hread : ∃ lexed, lexFinal [0x5C, 0x63, 0x41] = .ok lexed ∧ lexed.isComment = false ∧
      lexed.tokens.map (·.data) = [[0x01]] := ⟨_, rfl, rfl, rfl⟩
  obtain ⟨layout, hsource, -, -, hescapes⟩ := h.mp hread
  obtain ⟨e, he, hcontrol⟩ := Layout.exists_control_of_source hsource
  rw [hescapes e he] at hcontrol
  exact Bool.noConfusion hcontrol

end ConfigShell.Line
