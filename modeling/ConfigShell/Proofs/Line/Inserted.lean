import ConfigShell.Proofs.Line.Underway
/-!
# What is put into a line

A completion replaces the end of a line by a name as it is written and a blank or an equals sign.
Where the line is cut with nothing open (`CutsTo`), what is put there goes on with what is left of
the word under way, and the line then ends in a word of the two (`CutsTo.lex_insert`). A line can be
cut so at its end outside a word, before its last word and after the equals sign of that, and behind
a slash that starts at the top if nothing is open there.
-/

namespace ConfigShell.Line

/-! ## Going on with a word -/

namespace Reading

variable {r : Reading}

/-- The bytes of the word under way. -/
def underway (r : Reading) : Text :=
  match r.word with
  | some w => w.data.toList
  | none => []

theorem underway_of_word {w : Word} (h : r.word = some w) : r.underway = w.data.toList := by
  rw [underway, h]

theorem underway_of_rests (h : r.Rests) : r.underway = [] := by
  rw [underway, h.word]

/-- **A written word goes on with the word under way**, or begins one. -/
theorem feedAll_goesOn (u : WrittenWord) (h : r.state.isOpen = false) :
    ∃ r' w, r.feedAll u.source = .ok r' ∧ r'.state.isOpen = false ∧ r'.tokens = r.tokens ∧
      r'.word = some w ∧ w.data.toList = r.underway ++ u.decoded := by
  cases hword : r.word with
  | none =>
    have hrests : r.Rests := ⟨hword, h⟩
    obtain ⟨r', w, hfeed, hw, hclosed, -, htokens, htoken⟩ := feedAll_writtenWord u hrests
    refine ⟨r', w, hfeed, hclosed, htokens, hw, ?_⟩
    rw [underway_of_rests hrests, List.nil_append]
    exact congrArg Token.data htoken
  | some w =>
    obtain ⟨steps, s', hreads, houts, hclosed, -⟩ := reads_segments u.segments h
    refine ⟨_, _, feedAll_of_reads hreads rfl hword, hclosed, rfl, rfl, ?_⟩
    rw [Word.data_after, houts, underway_of_word hword]
    exact congrArg (w.data.toList ++ ·) u.flatten_outputs

end Reading

/-- A plain equals sign. -/
def WrittenWord.equalsSign : WrittenWord := ⟨[.plain 0x3D (by decide)], by decide⟩

/-- What follows a name that is put into a line: an equals sign if it is a key, or else a blank. -/
def suffix (isKey : Bool) : UInt8 := if isKey then 0x3D else 0x20

/-- What that adds to the word. -/
def suffixData (isKey : Bool) : Text := if isKey then [0x3D] else []

/-- A written name with what follows it goes on with the word under way and leaves nothing open. -/
theorem Reading.feedAll_inserted {r : Reading} (h : r.state.isOpen = false) (name : Text)
    (isKey : Bool) :
    ∃ r', r.feedAll (escapeWord name ++ [suffix isKey]) = .ok r' ∧ r'.state.isOpen = false ∧
      r'.allTokens.map (·.data) =
        r.tokens.toList.map (·.data) ++ [r.underway ++ name ++ suffixData isKey] := by
  obtain ⟨u, hu⟩ := exists_isEscaped name
  obtain ⟨m, w, hname, hclosed, htokens, hw, hdata⟩ := feedAll_goesOn u h
  rw [hu.source_eq] at hname
  rw [hu.decoded_eq] at hdata
  cases isKey with
  | true =>
    obtain ⟨r', w', hequals, hclosed', htokens', hw', hdata'⟩ :=
      feedAll_goesOn .equalsSign hclosed
    refine ⟨r', (feedAll_append_of_feedAll hname _).trans hequals, hclosed', ?_⟩
    rw [underway_of_word hw, hdata] at hdata'
    simp only [allTokens, hw', htokens', htokens, Array.toList_push, List.map_append, List.map_cons,
      List.map_nil, Word.close, hdata']
    rfl
  | false =>
    obtain ⟨r', hblank, hrests, -, htokens'⟩ := feedAll_gap .blank hw hclosed
    refine ⟨r', (feedAll_append_of_feedAll hname _).trans hblank, hrests.closed, ?_⟩
    simp [allTokens, hrests.word, htokens', htokens, Word.close, hdata, suffixData]

/-! ## Cuts -/

/-- The text can be cut at the place: in front of it nothing is open, the words that have ended are
`words`, and `front` is left of the word under way. -/
def CutsTo (text : Text) (place : Nat) (words : List Text) (front : Text) : Prop :=
  ∃ r, Reading.feedAll { state := {} } (text.take place) = .ok r ∧ r.state.isOpen = false ∧
    r.tokens.toList.map (·.data) = words ∧ r.underway = front

/-- The beginning of a line that is no comment does not become one by what goes on with it, if that
is not the beginning of one. -/
theorem startsComment_take {text inserted : Text} (h : startsComment {} text = false)
    (hinserted : inserted.head?.all startsPlainly) (place : Nat) :
    startsComment {} (text.take place ++ inserted) = false := by
  cases hkept : (text.take place).dropWhile isBlank with
  | nil =>
    -- only blanks are left
    cases inserted with
    | nil => simp [startsComment, hkept]
    | cons b more =>
      obtain ⟨hblank, hcomment, -⟩ := startsPlainly_iff.mp (by simpa using hinserted)
      simp [startsComment, List.dropWhile_append, hkept, hblank, hcomment]
  | cons c rest =>
    have htext : text.dropWhile isBlank = c :: (rest ++ text.drop place) := by
      conv_lhs => rw [← List.take_append_drop place text, List.dropWhile_append, hkept]
      rfl
    simp only [startsComment, htext] at h
    simpa [startsComment, List.dropWhile_append, hkept] using h

/-- **What is put into a line goes on with the word that was cut.** -/
theorem CutsTo.lex_insert {text front : Text} {place : Nat} {words : List Text}
    (h : CutsTo text place words front) (hcomment : startsComment {} text = false) (name : Text)
    (isKey : Bool) :
    ∃ completed, lex (text.take place ++ (escapeWord name ++ [suffix isKey])) = .ok completed ∧
      completed.isComment = false ∧ completed.state.isOpen = false ∧
      completed.tokens.map (·.data) = words ++ [front ++ name ++ suffixData isKey] := by
  obtain ⟨r, hread, hclosed, rfl, rfl⟩ := h
  obtain ⟨r', hinserted, hclosed', hdata⟩ := Reading.feedAll_inserted hclosed name isKey
  have hfeed := (Reading.feedAll_append_of_feedAll hread _).trans hinserted
  have hstarts : (escapeWord name ++ [suffix isKey]).head?.all startsPlainly := by
    obtain ⟨u, hu⟩ := exists_isEscaped name
    have hstarts := hu.starts
    rw [hu.source_eq] at hstarts
    cases hword : escapeWord name with
    | nil => rw [hword] at hstarts; cases hstarts
    | cons b more => rwa [hword] at hstarts
  refine ⟨r'.finish (text.take place ++ (escapeWord name ++ [suffix isKey])), ?_, rfl, hclosed',
    hdata⟩
  rw [lex_eq_feedAll (startsComment_take hcomment hstarts place), Reading.start_default, hfeed]

/-! ## Where a line that has been read can be cut -/

/-- The line ends outside a word. Nothing is replaced. -/
theorem cutsTo_end {text : Text} {r : Reading} (hread : Reading.feedAll { state := {} } text = .ok r)
    (h : r.Rests) : CutsTo text text.length (r.allTokens.map (·.data)) [] := by
  refine ⟨r, by rw [List.take_length, hread], h.closed, ?_, Reading.underway_of_rests h⟩
  rw [Reading.allTokens, h.word]

namespace Reading.InWord

variable {before typed : Text} {base r : Reading} {steps : List Step} {w : Word}

/-- The word is replaced. -/
theorem cutsTo_start (h : InWord before typed base steps r) :
    CutsTo (before ++ typed) before.length (r.tokens.toList.map (·.data)) [] := by
  refine ⟨base, by rw [List.take_left, h.read], h.rests.closed, ?_,
    underway_of_rests h.rests⟩
  rw [h.tokens]

theorem cutsTo_of_cut {u v : Text} {m : Reading} {first : List Step}
    (h : InWord before (u ++ v) base steps r)
    (hread : Reading.feedAll { state := {} } (before ++ u) = .ok m)
    (hcut : InWord before u base first m) (hclosed : m.state.isOpen = false) :
    CutsTo (before ++ (u ++ v)) (before.length + u.length) (r.tokens.toList.map (·.data))
      (first.map (·.output)).flatten := by
  refine ⟨m, ?_, hclosed, by rw [hcut.tokens, h.tokens], ?_⟩
  · rw [← List.append_assoc, ← List.length_append, List.take_left, hread]
  · rw [underway_of_word hcut.word]
    exact hcut.data_eq hcut.word

/-- What stands after the equals sign is replaced. -/
theorem cutsTo_equals (h : InWord before typed base steps r) (hw : r.word = some w) {i : Nat}
    (hi : w.equals = some i) :
    ∃ place, w.offsets.toList[i]? = some place ∧
      CutsTo (before ++ typed) (place + 1) (r.tokens.toList.map (·.data))
        (w.data.toList.take (i + 1)) := by
  obtain ⟨u, v, m, first, rfl, hread, hcut, hclosed, hfirst, hplace⟩ := h.cut_equals hw hi
  have hcuts := h.cutsTo_of_cut hread hcut hclosed
  rw [hfirst, List.length_append, List.length_singleton, ← Nat.add_assoc] at hcuts
  exact ⟨_, hplace, hcuts⟩

/-- The word is replaced behind the slash that starts at the top, unless something is open there. -/
theorem cutsTo_root (h : InWord before typed base steps r) (hw : r.word = some w) {stop : Nat}
    (hroot : Walk.hasRootSlash (w.close stop) = true) {place : Nat}
    (hplace : w.offsets.toList[1]? = some place) :
    CutsTo (before ++ typed) place (r.tokens.toList.map (·.data)) [Path.separator] ∨
      ∃ m, Reading.feedAll { state := {} } ((before ++ typed).take place) = .ok m ∧
        m.state.isOpen = true := by
  obtain ⟨u, v, m, first, rfl, rfl, hread, hcut, hfirst⟩ := h.cut_root hw hroot hplace
  cases hopen : m.state.isOpen with
  | false =>
    have hcuts := h.cutsTo_of_cut hread hcut hopen
    rw [hfirst] at hcuts
    exact .inl hcuts
  | true =>
    refine .inr ⟨m, ?_, hopen⟩
    rw [← List.append_assoc, ← List.length_append, List.take_left, hread]

end Reading.InWord

end ConfigShell.Line
