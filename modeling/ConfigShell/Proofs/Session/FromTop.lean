import ConfigShell.Proofs.Line.Recovery
import ConfigShell.Proofs.Session.Arguments
/-!
# A slash only says where a line starts

A line that begins with a word can be put behind a slash. The slash is read as a part of the first
word, whose bytes all stand one place further on then, and taken off again before the word is
resolved (`Line.exists_behindSlash`). What is left are the same words, so from any saved path the
line behind the slash does what the line does from the top (`Session.behindSlash_eq_fromTop`).
-/

namespace ConfigShell

open Shell (perform Alike alike_pure value?)

namespace Line

/-! ## The slash in front of a word -/

/-- The word behind a plain slash. -/
def WrittenWord.behindSlash (u : WrittenWord) : WrittenWord where
  segments := .plain Path.separator (by decide) :: u.segments
  starts := rfl

namespace WrittenWord

@[simp]
theorem source_behindSlash (u : WrittenWord) :
    u.behindSlash.source = Path.separator :: u.source := rfl

@[simp]
theorem decoded_behindSlash (u : WrittenWord) :
    u.behindSlash.decoded = Path.separator :: u.decoded := rfl

@[simp]
theorem equalsIndex_behindSlash (u : WrittenWord) :
    Segment.equalsIndex u.behindSlash.segments =
      (Segment.equalsIndex u.segments).map (1 + ·) := rfl

/-- **Without the slash the word is what it was**: its bytes and its equals sign have moved by one
place, and they move back. -/
theorem sameWord_dropFirst (u : WrittenWord) (position position' : Nat) :
    ((u.behindSlash.token position).dropFirst 1).SameWord (u.token position') := by
  constructor
  · show Signed.drop 1 (Path.separator :: u.decoded) = u.decoded
    exact Signed.drop_natCast 1 _
  · show ((Segment.equalsIndex u.behindSlash.segments).map Int.ofNat).bind _ =
      (Segment.equalsIndex u.segments).map Int.ofNat
    rw [equalsIndex_behindSlash]
    cases Segment.equalsIndex u.segments with
    | none => rfl
    | some i =>
      have hle : (1 : Int) ≤ Int.ofNat (1 + i) := by
        show (1 : Int) ≤ ((1 + i : Nat) : Int)
        omega
      have hback : Int.ofNat (1 + i) - 1 = Int.ofNat i := by
        show ((1 + i : Nat) : Int) - 1 = (i : Int)
        omega
      simp only [Option.map_some, Option.bind_some, hle, if_true, hback]

end WrittenWord

/-! ## The slash in front of a line -/

/-- The line with a slash in front of its first word. -/
def Layout.behindSlash (l : Layout) : Layout :=
  match l.ended with
  | [] => { l with last := l.last.map WrittenWord.behindSlash }
  | (u, g) :: rest => { l with ended := (u.behindSlash, g) :: rest }

namespace Layout

theorem words_behindSlash {l : Layout} {u : WrittenWord} {rest : List WrittenWord}
    (h : l.words = u :: rest) : l.behindSlash.words = u.behindSlash :: rest := by
  unfold words at h ⊢
  unfold behindSlash
  cases hended : l.ended with
  | nil =>
    rw [hended] at h
    cases hlast : l.last with
    | none => simp [hlast] at h
    | some v =>
      obtain ⟨rfl, rfl⟩ : v = u ∧ [] = rest := by simpa [hlast] using h
      rfl
  | cons p others =>
    rw [hended] at h
    obtain ⟨rfl, rfl⟩ := List.cons.inj h
    rfl

theorem source_behindSlash {l : Layout} (hlead : l.lead = []) (hwords : l.words ≠ []) :
    l.behindSlash.source = Path.separator :: l.source := by
  unfold words at hwords
  unfold behindSlash source
  cases hended : l.ended with
  | nil =>
    cases hlast : l.last with
    | none => simp [hended, hlast] at hwords
    | some u => simp [hlead, body]
  | cons p others => simp [hlead, body]

/-- A line that begins with a word has no blanks in front of it. -/
theorem lead_eq_nil {l : Layout} {b : UInt8} {rest : Text} (h : l.source = b :: rest)
    (hb : isBlank b = false) : l.lead = [] := by
  cases hlead : l.lead with
  | nil => rfl
  | cons c more =>
    rw [source, hlead] at h
    obtain ⟨rfl, -⟩ := List.cons.inj h
    have hblank := l.isBlank_lead c (by rw [hlead]; exact List.mem_cons_self)
    rw [hb] at hblank
    cases hblank

/-- The tokens are those of the words, the first one behind the leading blanks. -/
theorem exists_tokens {l : Layout} {u : WrittenWord} {rest : List WrittenWord}
    (h : l.words = u :: rest) :
    ∃ ts, l.tokens = u.token l.lead.length :: ts ∧
      ts.map (fun t => (t.data, t.equals)) =
        rest.map fun v => (v.decoded, (Segment.equalsIndex v.segments).map Int.ofNat) := by
  have hcontents := l.contents_tokens
  have hhead := l.head?_tokens
  rw [h] at hcontents hhead
  obtain ⟨ts, hts⟩ := List.head?_eq_some_iff.mp hhead
  rw [hts] at hcontents
  exact ⟨ts, hts, (List.cons.inj hcontents).2⟩

/-- **The slash is taken off again.** The line behind it starts at the top, and its words are those
of the line. -/
theorem splitRoot_behindSlash {l : Layout} {u : WrittenWord} {rest : List WrittenWord}
    (hwords : l.words = u :: rest) (hdata : u.decoded ≠ []) :
    (Walk.splitRoot l.behindSlash.tokens).1 = true ∧
      List.Forall₂ Token.SameWord (Walk.splitRoot l.behindSlash.tokens).2 l.tokens := by
  obtain ⟨ts, hts, hothers⟩ := exists_tokens hwords
  obtain ⟨ts', hts', hothers'⟩ := exists_tokens (words_behindSlash hwords)
  have hroot : Walk.hasRootSlash (u.behindSlash.token l.behindSlash.lead.length) = true :=
    u.behindSlash.hasRootSlash_token _
  have hword : (Path.separator :: u.decoded == [Path.separator]) = false := by simpa using hdata
  have hsplit : Walk.splitRoot l.behindSlash.tokens =
      (true, (u.behindSlash.token l.behindSlash.lead.length).dropFirst 1 :: ts') := by
    rw [hts', Walk.splitRoot, if_pos hroot]
    show (true, if (Path.separator :: u.decoded == [Path.separator]) = true then _ else _) = _
    rw [hword]
    rfl
  rw [hsplit, hts]
  refine ⟨rfl, .cons (u.sameWord_dropFirst _ _) ?_⟩
  exact Token.sameWords_of_contents (hothers'.trans hothers.symm)

end Layout

/-- **A line behind a slash is read as the line is**, but starts at the top, and its words are the
same then. -/
theorem exists_behindSlash {b : UInt8} {rest : Text} {lexed : Lexed}
    (hlex : lex (b :: rest) = .ok lexed) (hclosed : lexed.state.isOpen = false)
    (noBlank : isBlank b = false) (noComment : b ≠ 0x23) (noSlash : b ≠ Path.separator)
    (hdata : ∀ t ∈ lexed.tokens.head?, t.data ≠ []) :
    lexed.isEmpty = false ∧ Walk.splitRoot lexed.tokens = (false, lexed.tokens) ∧
      ∃ rooted, lex (Path.separator :: b :: rest) = .ok rooted ∧ rooted.state.isOpen = false ∧
        rooted.isEmpty = false ∧ (Walk.splitRoot rooted.tokens).1 = true ∧
        List.Forall₂ Token.SameWord (Walk.splitRoot rooted.tokens).2 lexed.tokens := by
  have hcomment : lexed.isComment = false := by
    have hstarts : startsComment {} (b :: rest) = false := by
      simp [startsComment, noBlank, noComment]
    rw [lex_eq_feedAll hstarts] at hlex
    split at hlex
    · cases hlex
    · cases hlex
      rfl
  obtain ⟨layout, hsource, -, htokens⟩ := exists_layout_of_lex hlex hcomment hclosed
  have hfirst := layout.head?_dropWhile_source
  rw [hsource, List.dropWhile_cons_of_neg (by simp [noBlank]), List.head?_cons] at hfirst
  obtain ⟨u, hu, hbyte⟩ := Option.bind_eq_some_iff.mp hfirst.symm
  obtain ⟨others, hwords⟩ := List.head?_eq_some_iff.mp hu
  obtain ⟨ts, hts, -⟩ := Layout.exists_tokens hwords
  obtain ⟨ts', hts', -⟩ := Layout.exists_tokens (Layout.words_behindSlash hwords)
  have hkept : u.decoded ≠ [] := by
    refine hdata (u.token layout.lead.length) ?_
    rw [htokens, hts]
    rfl
  have hplain : layout.behindSlash.isComment = false := by
    rw [Layout.isComment, Layout.words_behindSlash hwords]
    rfl
  obtain ⟨rooted, hrooted, hcomment', hclosed', htokens'⟩ := lex_layout _ hplain
  rw [Layout.source_behindSlash (Layout.lead_eq_nil hsource noBlank) (by simp [hwords]),
    hsource] at hrooted
  obtain ⟨hroot, hsame⟩ := Layout.splitRoot_behindSlash hwords hkept
  rw [htokens]
  refine ⟨?_, ?_, rooted, hrooted, hclosed', ?_, ?_, ?_⟩
  · simp [Lexed.isEmpty, hcomment, htokens, hts]
  · refine Layout.splitRoot_tokens fun v hv => ?_
    obtain rfl : u = v := Option.some.inj (hu.symm.trans hv)
    rw [hbyte]
    simpa using noSlash
  · simp [Lexed.isEmpty, hcomment', htokens', hts']
  · rw [htokens']
    exact hroot
  · rw [htokens']
    exact hsame

end Line

/-! ## What the line does -/

/-- The kinds and the names of the nodes from the top down. -/
def Landing.namedChain (l : Landing) : List (NodeKind × Option Text) :=
  l.chain.map fun n => (n.kind, n.name)

theorem Landing.namedChain_bare (l : Landing) : l.bare.namedChain = l.namedChain := by
  rw [namedChain, chain_bare, List.map_map]
  exact List.map_congr_left fun n _ => Prod.ext n.kind_bare n.name_bare

namespace Session

/-- Lines that resolve alike come to nodes of the same kinds and names. -/
theorem namedChain_of_alike {act act' : Shell (Except WalkError Resolution)}
    (h : Alike (OnBoth SameEnd) act act') (journal : Journal) :
    (value? act journal).map (·.landing.map Landing.namedChain) =
      (value? act' journal).map (·.landing.map Landing.namedChain) := by
  obtain ⟨-, hmeets⟩ := h journal journal rfl
  unfold value?
  generalize (perform act journal).1 = r at hmeets ⊢
  generalize (perform act' journal).1 = r' at hmeets ⊢
  cases hmeets with
  | error e => rfl
  | ok related =>
    cases related with
    | error e e' => rfl
    | ok hend =>
      obtain ⟨l, l', hl, hl', hbare⟩ := hend
      show some (Option.map _ _) = some (Option.map _ _)
      rw [hl, hl', Option.map_some, Option.map_some, ← l.namedChain_bare, hbare,
        l'.namedChain_bare]

/-- **A slash only says where the line starts.** A line that begins with a word, which is not empty,
and leaves nothing open does behind a slash what it does from the top, whatever path has been saved:
it has the same outcome and starts the same programs, it comes to nodes of the same kinds and names,
and it moves the session to the same place or leaves it where it was. -/
theorem behindSlash_eq_fromTop (site : Site) (s : Session) {b : UInt8} {rest : Text}
    {lexed : Line.Lexed} (hlex : Line.lex (b :: rest) = .ok lexed)
    (hclosed : lexed.state.isOpen = false) (noBlank : Line.isBlank b = false)
    (noComment : b ≠ 0x23) (noSlash : b ≠ Path.separator)
    (hdata : ∀ t ∈ lexed.tokens.head?, t.data ≠ []) :
    let top : Session := { s with path := [] }
    ∃ rooted, Line.lex (Path.separator :: b :: rest) = .ok rooted ∧
      rooted.state.isOpen = false ∧ ∀ (number number' : Option Int) (journal : Journal),
        let behind := perform (s.command site rooted number) journal
        let fromTop := perform (top.command site lexed number') journal
        behind.1.map (·.1) = fromTop.1.map (·.1) ∧
        behind.2.calls = fromTop.2.calls ∧
        Shell.Meets (SameMove s top) behind.1 fromTop.1 ∧
        (value? (s.resolve site rooted true) journal).map (·.landing.map Landing.namedChain) =
          (value? (top.resolve site lexed true) journal).map
            (·.landing.map Landing.namedChain) := by
  intro top
  obtain ⟨words, hfrom, rooted, hrooted, hclosed', words', hroot, hsame⟩ :=
    Line.exists_behindSlash hlex hclosed noBlank noComment noSlash hdata
  refine ⟨rooted, hrooted, hclosed', fun number number' journal => ?_⟩
  have hline : Alike (OnBoth Walk.SameLanding) (Walk.line site s.path rooted true)
      (Walk.line site top.path lexed true) := by
    refine Walk.alike_line_of_start site ?_ ?_ true
    · rw [hroot, hfrom]
      rfl
    · rw [hfrom]
      exact hsame
  obtain ⟨hcalls, hmeets⟩ :=
    alike_command s top words' words hline rfl number number' journal journal rfl
  have hresolve : Alike (OnBoth SameEnd) (s.resolve site rooted true)
      (top.resolve site lexed true) :=
    alike_resolve_of_line (Line.Lexed.isComment_of_words words')
      (Line.Lexed.isComment_of_words words) hline
  exact ⟨hmeets.map_eq fun r r' h => h.outcome, hcalls, hmeets,
    namedChain_of_alike hresolve journal⟩

/-- From a path that leads nowhere, a line behind a slash gets to where it leads from the top. -/
theorem behindSlash_eq_fromTop_nested :
    let line : Text := 0x6E :: "'e't ex"
    let s : Session := { path := ["gone"] }
    let chain : List (NodeKind × Option Text) :=
      [(.container, none), (.container, some "network"), (.container, some "exit")]
    ∃ lexed rooted, Line.lex line = .ok lexed ∧ Line.lex (Path.separator :: line) = .ok rooted ∧
      (perform (s.command nested lexed none) {}).1.map (·.1) = .ok .error ∧
      (perform (s.command nested rooted none) {}).1.map (·.1) = .ok .goOn ∧
      (value? (s.resolve nested rooted true) {}).map (·.landing.map Landing.namedChain) =
        some (some chain) := by
  intro line s chain
  obtain ⟨lexed, hlex, hclosed, hfirst, hstale, houtcome, hchain⟩ :
      ∃ lexed, Line.lex line = .ok lexed ∧ lexed.state.isOpen = false ∧
        lexed.tokens.head?.map (·.data) = some ("net" : Text) ∧
        (perform (s.command nested lexed none) {}).1.map (·.1) = .ok .error ∧
        (perform (command nested {} lexed none) {}).1.map (·.1) = .ok .goOn ∧
        (value? (resolve nested {} lexed true) {}).map (·.landing.map Landing.namedChain) =
          some (some chain) := by
    refine ⟨_, rfl, ?_⟩
    decide +kernel
  have hdata : ∀ t ∈ lexed.tokens.head?, t.data ≠ [] := by
    intro t ht
    rw [ht] at hfirst
    have hnet : t.data = "net" := Option.some.inj hfirst
    rw [hnet]
    decide
  obtain ⟨rooted, hrooted, -, hdoes⟩ := behindSlash_eq_fromTop nested s hlex hclosed
    (by decide) (by decide) (by decide) hdata
  obtain ⟨hsame, -, -, hnodes⟩ := hdoes none none {}
  exact ⟨lexed, rooted, hlex, hrooted, hstale, hsame.trans houtcome, hnodes.trans hchain⟩

end Session

end ConfigShell
