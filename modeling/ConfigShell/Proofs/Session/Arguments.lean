import ConfigShell.Proofs.Line.ReadBack
import ConfigShell.Proofs.Session.Alike
/-!
# Arguments do what they do when typed

A command can be given as separate words, which stand for themselves and have no place in a line.
Written one after the other they make a line, in which a slash that begins the first word is left
plain so that it starts at the top. Reading that line gives words of the same bytes with their
equals signs in the same places, so it does what the separate words do (`Session.typed_eq_given`).
-/

namespace ConfigShell

namespace Line

/-! ## The line of separate words -/

/-- The first word as it is written: the slash that starts at the top stays plain. -/
def writeFirst : Text → Text
  | 0x2F :: more => 0x2F :: escapeWord more
  | word => escapeWord word

/-- The words as a line. -/
def writeWords : List Text → Text
  | [] => []
  | first :: rest => Text.join [0x20] (writeFirst first :: rest.map escapeWord)

/-- The written form of `word` as the first word of a layout. -/
structure WrittenWord.IsFirst (u : WrittenWord) (word : Text) : Prop where
  source_eq : u.source = writeFirst word
  decoded_eq : u.decoded = word
  equals_eq : Segment.equalsIndex u.segments = word.idxOf? 0x3D
  noComment : u.source.head? ≠ some 0x23
  root : (u.source.head? == some Path.separator) = (word.head? == some Path.separator)

theorem exists_isFirst (word : Text) : ∃ u : WrittenWord, u.IsFirst word := by
  by_cases hroot : ∃ more, word = 0x2F :: more
  · obtain ⟨more, rfl⟩ := hroot
    obtain ⟨u, hu⟩ := exists_isEscaped more
    have hsource : u.segments.flatMap Segment.source = escapeWord more := hu.source_eq
    have hdecoded : u.segments.flatMap Segment.decoded = more := hu.decoded_eq
    have hplain : IsPlain 0x2F := by decide
    refine ⟨⟨.plain 0x2F hplain :: u.segments, by simp [Segment.source]; decide⟩, ?_⟩
    constructor
    · simp [WrittenWord.source, Segment.source, hsource, writeFirst]
    · simp [WrittenWord.decoded, Segment.decoded, hdecoded]
    · simp [Segment.equalsIndex, Segment.isEquals, Segment.decoded, hu.equals_eq, List.idxOf?,
        List.findIdx?_cons, Nat.add_comm]
    · simp [WrittenWord.source, Segment.source]
    · simp [WrittenWord.source, Segment.source]
  · obtain ⟨u, hu⟩ := exists_isEscaped word
    have hwrite : writeFirst word = escapeWord word := by
      unfold writeFirst
      split
      · rename_i more
        exact absurd ⟨more, rfl⟩ hroot
      · rfl
    have hslash : word.head? ≠ some Path.separator := by
      cases word with
      | nil => simp
      | cons b more =>
        intro h
        cases h
        exact hroot ⟨more, rfl⟩
    have hstarts := hu.starts
    refine ⟨u, by rw [hwrite, hu.source_eq], hu.decoded_eq, hu.equals_eq, ?_, ?_⟩
    · intro h
      rw [h] at hstarts
      exact absurd hstarts (by decide)
    · have hplain : u.source.head? ≠ some Path.separator := by
        intro h
        rw [h] at hstarts
        exact absurd hstarts (by decide)
      simp [hplain, hslash]

namespace Token

theorem SameWord.dropFirst {t t' : Token} (h : t.SameWord t') (n : Int) :
    (t.dropFirst n).SameWord (t'.dropFirst n) := by
  constructor
  · simp only [Token.dropFirst, h.data]
  · simp only [Token.dropFirst, h.equals]

theorem sameWords_of_contents {tokens tokens' : List Token}
    (h : tokens.map (fun t => (t.data, t.equals)) = tokens'.map fun t => (t.data, t.equals)) :
    List.Forall₂ SameWord tokens tokens' := by
  rw [← List.forall₂_eq_eq_eq, List.forall₂_map_left_iff, List.forall₂_map_right_iff] at h
  refine h.imp fun t t' ht => ?_
  exact ⟨congrArg Prod.fst ht, congrArg Prod.snd ht⟩

end Token

end Line

namespace Walk

/-- Rows of the same words start at the same place, if their first words do. -/
theorem splitRoot_sameWords {tokens tokens' : List Line.Token}
    (h : List.Forall₂ Line.Token.SameWord tokens tokens')
    (hroot : tokens.head?.map hasRootSlash = tokens'.head?.map hasRootSlash) :
    (splitRoot tokens).1 = (splitRoot tokens').1 ∧
      List.Forall₂ Line.Token.SameWord (splitRoot tokens).2 (splitRoot tokens').2 := by
  cases h with
  | nil => exact ⟨rfl, .nil⟩
  | @cons t t' rest rest' ht hrest =>
    have hsame : hasRootSlash t = hasRootSlash t' := by simpa using hroot
    unfold splitRoot
    simp only [hsame, ht.data]
    split
    · split
      · exact ⟨rfl, hrest⟩
      · exact ⟨rfl, .cons (ht.dropFirst 1) hrest⟩
    · exact ⟨rfl, .cons ht hrest⟩

end Walk

namespace Line

/-- **Written words are read as the separate words**: without an error, as a line that is no comment
and leaves nothing open, with the same words from the same start. -/
theorem lex_writeWords (words : List Text) :
    ∃ lexed, lex (writeWords words) = .ok lexed ∧ lexed.isComment = false ∧
      lexed.state.isOpen = false ∧ List.Forall₂ Token.SameWord lexed.tokens
        (Lexed.ofWords words).tokens ∧
      lexed.tokens.head?.map Walk.hasRootSlash =
        (Lexed.ofWords words).tokens.head?.map Walk.hasRootSlash := by
  cases words with
  | nil => exact ⟨_, rfl, rfl, rfl, .nil, rfl⟩
  | cons first rest =>
    obtain ⟨u, hu⟩ := exists_isFirst first
    obtain ⟨us, hus⟩ := exists_areEscaped rest
    have hsource : (Layout.spaced (u :: us)).source = writeWords (first :: rest) := by
      rw [Layout.source_spaced, List.map_cons, hu.source_eq, hus.source_eq, writeWords]
    have hcomment : (Layout.spaced (u :: us)).isComment = false := by
      simpa [Layout.isComment] using hu.noComment
    obtain ⟨lexed, hlex, hplain, hclosed, htokens⟩ := lex_layout _ hcomment
    refine ⟨lexed, hsource ▸ hlex, hplain, hclosed, ?_, ?_⟩
    · refine Token.sameWords_of_contents ?_
      rw [htokens, Layout.contents_tokens, Layout.words_spaced, List.map_cons, hu.decoded_eq,
        hu.equals_eq, hus.contents_eq]
      simp [Lexed.ofWords, Token.ofWord]
    · have hgiven : Walk.hasRootSlash (Token.ofWord first) =
          (first.head? == some Path.separator) := Bool.and_true _
      rw [htokens, Layout.head?_tokens, Layout.words_spaced, List.head?_cons, Option.map_some,
        Option.map_some, u.hasRootSlash_token, hu.root, ← hgiven]
      rfl

/-- Slashes, equals signs and an empty word come back. -/
example : (lex (writeWords ["//a=b", ""])).toOption.map (fun l => l.tokens.map (·.data)) =
    some [("//a=b" : Text), ""] := by decide +kernel

end Line

/-! ## Carrying them out -/

/-- Lines of the same words behind the slash are walked alike, if they start at the same place. -/
theorem Walk.alike_line_of_start (site : Site) {path path' : List Text}
    {lexed lexed' : Line.Lexed}
    (hstart : start site path (splitRoot lexed.tokens).1 =
      start site path' (splitRoot lexed'.tokens).1)
    (hwords : List.Forall₂ Line.Token.SameWord (splitRoot lexed.tokens).2
      (splitRoot lexed'.tokens).2) (validate : Bool) :
    Shell.Alike (OnBoth SameLanding) (Walk.line site path lexed validate)
      (Walk.line site path' lexed' validate) := by
  unfold Walk.line
  simp only [Bool.false_and, Bool.false_eq_true, if_false, List.append_nil]
  rw [hstart]
  refine (isQuiet_start path' _).alike.bind ?_
  rintro r _ rfl
  cases r with
  | error name => exact Shell.alike_pure (.error _ _)
  | ok l => exact (alike_words site validate hwords rfl).bind fun w w' hw =>
      Shell.alike_pure (.ok hw)

/-- Lines of the same words from the same start are walked alike. -/
theorem Walk.alike_line (site : Site) (path : List Text) {lexed lexed' : Line.Lexed}
    (hwords : List.Forall₂ Line.Token.SameWord lexed.tokens lexed'.tokens)
    (hroot : lexed.tokens.head?.map hasRootSlash = lexed'.tokens.head?.map hasRootSlash)
    (validate : Bool) :
    Shell.Alike (OnBoth SameLanding) (Walk.line site path lexed validate)
      (Walk.line site path lexed' validate) := by
  obtain ⟨hstart, htyped⟩ := splitRoot_sameWords hwords hroot
  exact alike_line_of_start site (congrArg (start site path) hstart) htyped validate

/-- **Separate words do what they do when typed.** The line of the words is read without an error,
and carrying it out ends as carrying out the words does, with the same outcome and the same saved
path, and starts the same programs. -/
theorem Session.typed_eq_given (site : Site) (s : Session) (words : List Text) :
    ∃ lexed, Line.lex (Line.writeWords words) = .ok lexed ∧ lexed.isComment = false ∧
      lexed.state.isOpen = false ∧ ∀ (number number' : Option Int) (journal : Journal),
        let typed := Shell.perform (s.command site lexed number) journal
        let given := Shell.perform (s.command site (.ofWords words) number') journal
        typed.1 = given.1 ∧ typed.2.calls = given.2.calls := by
  obtain ⟨lexed, hlex, hcomment, hclosed, hwords, hroot⟩ := Line.lex_writeWords words
  refine ⟨lexed, hlex, hcomment, hclosed, fun number number' journal => ?_⟩
  have hempty : lexed.isEmpty = (Line.Lexed.ofWords words).isEmpty := by
    have hnil {tokens tokens' : List Line.Token}
        (h : List.Forall₂ Line.Token.SameWord tokens tokens') :
        tokens.isEmpty = tokens'.isEmpty := by
      cases h <;> rfl
    rw [Line.Lexed.isEmpty, Line.Lexed.isEmpty, hcomment, hnil hwords]
    rfl
  have halike : Shell.Alike (SameMove s s) (s.command site lexed number)
      (s.command site (.ofWords words) number') := by
    cases hgiven : (Line.Lexed.ofWords words).isEmpty with
    | true =>
      have hstays (lexed : Line.Lexed) (number : Option Int) (h : lexed.isEmpty = true) :
          s.command site lexed number = pure (.goOn, s) := by
        unfold command
        rw [h]
        rfl
      rw [hstays _ _ (hempty.trans hgiven), hstays _ _ hgiven]
      exact Shell.alike_pure (.stay s s _)
    | false =>
      have hline := Walk.alike_line site s.path hwords hroot true
      exact alike_command s s (hempty.trans hgiven) hgiven hline rfl _ _
  obtain ⟨hcalls, hmeets⟩ := halike journal journal rfl
  exact ⟨(hmeets.imp fun r r' h => h.eq).eq, hcalls⟩

end ConfigShell
