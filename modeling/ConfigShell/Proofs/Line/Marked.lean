import ConfigShell.Proofs.Line.Recovery
import ConfigShell.Proofs.Line.Underway
/-!
# Which bytes belong to an escape or to quotes

A layout says where the escape sequences and the quoted runs of its line stand: `Layout.escapePieces`
and `Layout.quotePieces` list them with the place of their first byte. The states recorded while the
line is read say the same byte by byte: `State.escaped` and `State.quoted` hold right after the bytes
of these pieces and after no others (`lex_marks`). As in `ConfigShell.Proofs.Line.Layout`, the pieces
are found without looking at a state.
-/

namespace ConfigShell.Line

/-! ## Pieces of a line -/

/-- A piece of a text with the place of its first byte. -/
structure Piece where
  start : Nat
  text : Text
  deriving Repr, DecidableEq

namespace Piece

/-- The byte at `i` is one of the piece. -/
def Has (p : Piece) (i : Nat) : Prop := p.start ≤ i ∧ i < p.start + p.text.length

instance (p : Piece) (i : Nat) : Decidable (p.Has i) := inferInstanceAs (Decidable (_ ∧ _))

/-- The piece stands in the text `t`, whose first byte is at `position`. -/
def StandsIn (p : Piece) (position : Nat) (t : Text) : Prop :=
  ∃ before after, t = before ++ p.text ++ after ∧ p.start = position + before.length

theorem StandsIn.within {p : Piece} {position i : Nat} {t : Text} (h : p.StandsIn position t)
    (hi : p.Has i) : position ≤ i ∧ i < position + t.length := by
  obtain ⟨before, after, rfl, hstart⟩ := h
  obtain ⟨hlow, hhigh⟩ := hi
  simp only [List.length_append]
  omega

theorem StandsIn.append_left {p : Piece} {position : Nat} {t u : Text}
    (h : p.StandsIn (position + t.length) u) : p.StandsIn position (t ++ u) := by
  obtain ⟨before, after, rfl, hstart⟩ := h
  refine ⟨t ++ before, after, by simp, ?_⟩
  rw [hstart, List.length_append]
  omega

theorem StandsIn.append_right {p : Piece} {position : Nat} {t u : Text}
    (h : p.StandsIn position t) : p.StandsIn position (t ++ u) := by
  obtain ⟨before, after, rfl, hstart⟩ := h
  exact ⟨before, after ++ u, by simp, hstart⟩

end Piece

/-- The pieces of parts that stand one after the other from `position` on. -/
def piecesFrom {α : Type} (source : α → Text) (pieces : Nat → α → List Piece) (position : Nat) :
    List α → List Piece
  | [] => []
  | part :: rest =>
    pieces position part ++ piecesFrom source pieces (position + (source part).length) rest

def QuotedItem.escapePieces (position : Nat) : QuotedItem → List Piece
  | plain _ _ => []
  | escape e => [⟨position, e.source⟩]

namespace Segment

/-- The escape sequences of a segment, each from its backslash to its last byte. -/
def escapePieces (position : Nat) : Segment → List Piece
  | plain _ _ | single _ _ => []
  | escape e => [⟨position, e.source⟩]
  | double items => piecesFrom QuotedItem.source QuotedItem.escapePieces (position + 1) items

/-- The quoted run that a segment is, its quotes included. -/
def quotePieces (position : Nat) (g : Segment) : List Piece :=
  match g with
  | plain _ _ | escape _ => []
  | single _ _ | double _ => [⟨position, g.source⟩]

end Segment

namespace WrittenWord

def escapePieces (position : Nat) (w : WrittenWord) : List Piece :=
  piecesFrom Segment.source Segment.escapePieces position w.segments

def quotePieces (position : Nat) (w : WrittenWord) : List Piece :=
  piecesFrom Segment.source Segment.quotePieces position w.segments

end WrittenWord

namespace Layout

/-- The words that stand one after the other from `position` on, each with the place of its first
byte. -/
def placedFrom (position : Nat) :
    List (WrittenWord × Gap) → Option WrittenWord → List (Nat × WrittenWord)
  | [], last => last.toList.map (position, ·)
  | (w, g) :: rest, last =>
    (position, w) :: placedFrom (position + w.source.length + g.source.length) rest last

variable (l : Layout)

def placedWords : List (Nat × WrittenWord) := placedFrom l.lead.length l.ended l.last

def wordPieces : List Piece := l.placedWords.map fun (position, w) => ⟨position, w.source⟩

def escapePieces : List Piece := l.placedWords.flatMap fun (position, w) => w.escapePieces position

def quotePieces : List Piece := l.placedWords.flatMap fun (position, w) => w.quotePieces position

end Layout

/-! ## Marks and pieces -/

/-- Of the bytes of `t`, the first of which is at `position`, those of the pieces are marked and no
others. -/
structure Marked (position : Nat) (t : Text) (marks : List Bool) (pieces : List Piece) : Prop where
  length : marks.length = t.length
  stands : ∀ p ∈ pieces, p.StandsIn position t
  iff : ∀ i m, marks[i]? = some m → (m = true ↔ ∃ p ∈ pieces, p.Has (position + i))

namespace Marked

variable {position : Nat} {t u : Text} {marks marks' : List Bool} {pieces pieces' : List Piece}

theorem none (length : marks.length = t.length) (unmarked : ∀ m ∈ marks, m = false) :
    Marked position t marks [] := by
  refine ⟨length, by simp, ?_⟩
  intro i m hm
  simp [unmarked m (List.mem_of_getElem? hm)]

theorem all (length : marks.length = t.length) (marked : ∀ m ∈ marks, m = true) :
    Marked position t marks [⟨position, t⟩] := by
  refine ⟨length, ?_, ?_⟩
  · intro p hp
    obtain rfl := List.mem_singleton.mp hp
    exact ⟨[], [], by simp, by simp⟩
  · intro i m hm
    obtain ⟨hi, -⟩ := List.getElem?_eq_some_iff.mp hm
    have hhas : Piece.Has ⟨position, t⟩ (position + i) := by
      show position ≤ position + i ∧ position + i < position + t.length
      omega
    simp [marked m (List.mem_of_getElem? hm), hhas]

/-- A piece of one of two texts has no byte of the other. -/
theorem append (h : Marked position t marks pieces)
    (h' : Marked (position + t.length) u marks' pieces') :
    Marked position (t ++ u) (marks ++ marks') (pieces ++ pieces') := by
  refine ⟨by simp [h.length, h'.length], ?_, ?_⟩
  · intro p hp
    rcases List.mem_append.mp hp with hp | hp
    · exact (h.stands p hp).append_right
    · exact (h'.stands p hp).append_left
  · intro i m hm
    simp only [List.mem_append, or_and_right, exists_or]
    by_cases hi : i < marks.length
    · rw [List.getElem?_append_left hi] at hm
      have hlater : ¬ ∃ p ∈ pieces', p.Has (position + i) := by
        rintro ⟨p, hp, hhas⟩
        obtain ⟨hlow, -⟩ := (h'.stands p hp).within hhas
        rw [h.length] at hi
        omega
      simp [h.iff i m hm, hlater]
    · have hle : marks.length ≤ i := by omega
      rw [List.getElem?_append_right hle] at hm
      have hearlier : ¬ ∃ p ∈ pieces, p.Has (position + i) := by
        rintro ⟨p, hp, hhas⟩
        obtain ⟨-, hhigh⟩ := (h.stands p hp).within hhas
        rw [h.length] at hle
        omega
      have hplace : position + t.length + (i - marks.length) = position + i := by
        rw [h.length] at hle ⊢
        omega
      simp [h'.iff _ m hm, hplace, hearlier]

end Marked

/-- The bytes of `t` are left in the given states, which tell its escape sequences and its quoted
runs. -/
structure Shows (position : Nat) (t : Text) (states : List State) (escapes quotes : List Piece) :
    Prop where
  escaped : Marked position t (states.map State.escaped) escapes
  quoted : Marked position t (states.map State.quoted) quotes

namespace Shows

variable {position : Nat} {t u : Text} {states states' : List State}
  {escapes escapes' quotes quotes' : List Piece}

theorem append (h : Shows position t states escapes quotes)
    (h' : Shows (position + t.length) u states' escapes' quotes') :
    Shows position (t ++ u) (states ++ states') (escapes ++ escapes') (quotes ++ quotes') := by
  refine ⟨?_, ?_⟩
  · rw [List.map_append]
    exact h.escaped.append h'.escaped
  · rw [List.map_append]
    exact h.quoted.append h'.quoted

/-- Bytes outside escapes and quotes. -/
theorem nothing (length : states.length = t.length)
    (settled : ∀ s ∈ states, s.escape = .none ∧ s.quote = .none) :
    Shows position t states [] [] := by
  refine ⟨.none (by simpa using length) ?_, .none (by simpa using length) ?_⟩
  · simpa [State.escaped] using fun s hs => (settled s hs).1
  · simpa [State.quoted] using fun s hs => (settled s hs).2

end Shows

/-! ## Escape sequences -/

/-- An escape sequence that adds nothing yet goes on: what it stands for comes with its last byte. -/
theorem State.isOpen_of_silent {s : State} {b : UInt8} {step : Step} (h : s.step b = .ok step)
    (hopen : s.escape.isOpen = true) (silent : step.output = []) :
    step.state.escape.isOpen = true := by
  obtain ⟨escape, code, hstate, ⟨hgoesOn, -, -⟩ | ⟨-, houtput⟩⟩ := State.escape_step_cases h hopen
  · rw [hstate]
    exact hgoesOn
  · exact absurd silent houtput

/-- As long as an escape sequence adds nothing, every byte read belongs to it. -/
theorem Reads.escaped_of_silent {s s' : State} {t : Text} {steps : List Step}
    (h : Reads s t steps s') (hopen : s.escape.isOpen = true)
    (silent : ∀ step ∈ steps.dropLast, step.output = []) :
    ∀ step ∈ steps, step.state.escape ≠ .none ∧ step.state.quote = s.quote := by
  induction h with
  | nil s => simp
  | @cons s s' b t step steps hstep goesOn rest ih =>
    obtain ⟨escape, code, hstate, hescape⟩ := State.escape_of_step hstep hopen
    have hfirst : step.state.escape ≠ .none ∧ step.state.quote = s.quote := by
      rw [hstate]
      exact ⟨hescape, rfl⟩
    cases steps with
    | nil => simpa using hfirst
    | cons next others =>
      have hgoesOn := State.isOpen_of_silent hstep hopen (silent step (by simp))
      have hothers := ih hgoesOn fun later hlater => silent later (by simp [hlater])
      intro later hlater
      rcases List.mem_cons.mp hlater with rfl | hlater
      · exact hfirst
      · obtain ⟨hlaterEscape, hlaterQuote⟩ := hothers later hlater
        exact ⟨hlaterEscape, hlaterQuote.trans hfirst.2⟩

/-- **Every byte of an escape sequence is escaped**, from the backslash on, and quoted as the
backslash is. -/
theorem EscapeSequence.states_of_reads (e : EscapeSequence) {s m s' : State} {steps : List Step}
    (h : s.step 0x5C = .ok { state := { m with escape := .backslash } })
    (hreads : Reads s e.source steps s') :
    ∀ step ∈ steps, step.state.escape ≠ .none ∧ step.state.quote = m.quote := by
  obtain ⟨steps', code, htail, houts⟩ := e.reads_tail (s := { m with escape := .backslash }) rfl
  obtain ⟨rfl, -⟩ := hreads.unique (.cons h rfl htail)
  have hsilent : ∀ step ∈ steps'.dropLast, step.output = [] := by
    intro step hstep
    have hmem : step.output ∈ (steps'.map (·.output)).dropLast := by
      rw [← List.map_dropLast]
      exact List.mem_map_of_mem hstep
    rw [houts, List.dropLast_concat] at hmem
    exact List.eq_of_mem_replicate hmem
  intro step hstep
  rcases List.mem_cons.mp hstep with rfl | hstep
  · simp
  · exact htail.escaped_of_silent rfl hsilent step hstep

/-! ## Quoted runs -/

/-- Between single quotes no byte changes the state. -/
theorem Reads.states_verbatim {s s' : State} {content : Text} {steps : List Step}
    (h : Reads s content steps s') (noQuote : 0x27 ∉ content) (hq : s.quote = .single)
    (he : s.escape = .none) : ∀ step ∈ steps, step.state = s := by
  induction h with
  | nil s => simp
  | @cons s s' b t step steps hstep goesOn rest ih =>
    have hb : b ≠ 0x27 := by
      rintro rfl
      simp at noQuote
    have hsame : s.step b = .ok { state := s, output := [b] } := by
      simp [State.step, he, State.stepPlain, hq, hb]
    cases hstep.symm.trans hsame
    have hothers := ih (fun hmem => noQuote (by simp [hmem])) hq he
    simpa using hothers

/-- What stands between double quotes is quoted, and of it the escape sequences are escaped. -/
theorem marked_items (items : List QuotedItem) {s s' : State} {steps : List Step}
    (hq : s.quote = .double) (he : s.escape.isOpen = false)
    (hreads : Reads s (items.flatMap QuotedItem.source) steps s') (position : Nat) :
    Marked position (items.flatMap QuotedItem.source) (steps.map (·.state.escaped))
        (piecesFrom QuotedItem.source QuotedItem.escapePieces position items) ∧
      ∀ step ∈ steps, step.state.quote = .double := by
  induction items generalizing s steps position with
  | nil =>
    cases hreads
    exact ⟨.none rfl (by simp), by simp⟩
  | cons i rest ih =>
    obtain ⟨first, second, m, rfl, hfirst, hsecond⟩ := Reads.of_append hreads
    obtain ⟨steps', m', hi, -, hq', he', -⟩ := i.reads hq he
    obtain ⟨rfl, rfl⟩ := hfirst.unique hi
    obtain ⟨hmarked, hquotes⟩ := ih hq' he' hsecond (position + i.source.length)
    have hitem : Marked position i.source (first.map (·.state.escaped)) (i.escapePieces position) ∧
        ∀ step ∈ first, step.state.quote = .double := by
      have hlength : (first.map (·.state.escaped)).length = i.source.length := by
        rw [List.length_map, hfirst.length_eq]
      cases i with
      | plain b isPlain =>
        have hstep : s.step b = .ok { state := { s with escape := .none }, output := [b] } := by
          rw [State.step_of_escape_closed he]
          simp [State.stepPlain, hq, isPlain]
        obtain ⟨rfl, -⟩ := hfirst.unique (.one hstep rfl)
        exact ⟨.none hlength (by simp [State.escaped]), by simp [hq]⟩
      | escape e =>
        have hstep : s.step 0x5C = .ok { state := { s with escape := .backslash } } := by
          rw [State.step_of_escape_closed he]
          simp [State.stepPlain, hq]
        have hstates := e.states_of_reads hstep hfirst
        refine ⟨.all hlength ?_, fun step hmem => (hstates step hmem).2.trans hq⟩
        simpa [State.escaped] using fun step hmem => (hstates step hmem).1
    refine ⟨?_, ?_⟩
    · rw [List.map_append]
      exact hitem.1.append hmarked
    · intro step hmem
      rcases List.mem_append.mp hmem with hmem | hmem
      · exact hitem.2 step hmem
      · exact hquotes step hmem

/-! ## Segments and rows of them -/

/-- **The states of a segment show what it is**, whatever stood before it: a state that an escape or
a quote has just left shows so at the byte that ended it and not at the next one. -/
theorem Segment.shows (g : Segment) {s s' : State} {steps : List Step} (h : s.isOpen = false)
    (hreads : Reads s g.source steps s') (position : Nat) :
    Shows position g.source (steps.map (·.state)) (g.escapePieces position)
      (g.quotePieces position) := by
  have hlength : steps.length = g.source.length := hreads.length_eq
  cases g with
  | plain b isPlain =>
    obtain ⟨rfl, -⟩ := hreads.unique (.one (State.step_plain h isPlain) rfl)
    exact .nothing rfl (by simp [State.settled])
  | escape e =>
    have hstates := e.states_of_reads (State.step_backslash h) hreads
    refine ⟨.all (by simpa using hlength) ?_, .none (by simpa using hlength) ?_⟩
    · simpa [State.escaped] using fun step hmem => (hstates step hmem).1
    · simpa [State.quoted, State.settled] using fun step hmem => (hstates step hmem).2
  | single content noQuote =>
    have hall : ∀ step ∈ steps, step.state.escape = .none ∧ step.state.quote ≠ .none := by
      obtain ⟨inner, hinner, -⟩ := reads_verbatim content noQuote
        (s := { s.settled with quote := .single }) rfl rfl
      have hclose : ({ s.settled with quote := .single } : State).step 0x27
          = .ok { state := { s.settled with quote := .ended } } := rfl
      obtain ⟨rfl, -⟩ := hreads.unique
        (.cons (State.step_singleQuote h) rfl (hinner.append (.one hclose rfl)))
      have hsame := hinner.states_verbatim noQuote rfl rfl
      intro step hmem
      simp only [List.mem_cons, List.mem_append, List.not_mem_nil, or_false] at hmem
      rcases hmem with rfl | hmem | rfl
      · simp [State.settled]
      · simp [hsame step hmem, State.settled]
      · simp [State.settled]
    refine ⟨.none (by simpa using hlength) ?_, .all (by simpa using hlength) ?_⟩
    · simpa [State.escaped] using fun step hmem => (hall step hmem).1
    · simpa [State.quoted] using fun step hmem => (hall step hmem).2
  | double items =>
    obtain ⟨inner, m, hinner, -, hq, he, -⟩ := reads_items items
      (s := { s.settled with quote := .double }) rfl rfl
    have hclose : m.step 0x22 = .ok { state := { m with escape := .none, quote := .ended } } := by
      rw [State.step_of_escape_closed he]
      simp [State.stepPlain, hq]
    obtain ⟨rfl, -⟩ := hreads.unique
      (.cons (State.step_doubleQuote h) rfl (hinner.append (.one hclose rfl)))
    obtain ⟨hmarked, hquotes⟩ := marked_items items rfl rfl hinner (position + 1)
    refine ⟨?_, .all (by simpa using hlength) ?_⟩
    · -- the quotes themselves are not escaped
      have hopening : Marked position [0x22] [false] [] := .none rfl (by simp)
      have hclosing : Marked (position + 1 + (items.flatMap QuotedItem.source).length) [0x22]
          [false] [] := .none rfl (by simp)
      have hwhole := hopening.append (hmarked.append hclosing)
      simpa [Segment.source, Segment.escapePieces, State.escaped, Function.comp_def,
        State.settled] using hwhole
    · intro mark hmark
      simp only [List.map_cons, List.map_append, List.map_nil, List.mem_cons, List.mem_append,
        List.not_mem_nil, or_false, List.mem_map] at hmark
      rcases hmark with rfl | ⟨-, ⟨step, hstep, rfl⟩, rfl⟩ | rfl
      · rfl
      · simp [State.quoted, hquotes step hstep]
      · rfl

theorem shows_segments (segments : List Segment) {s s' : State} {steps : List Step}
    (h : s.isOpen = false) (hreads : Reads s (segments.flatMap Segment.source) steps s')
    (position : Nat) :
    Shows position (segments.flatMap Segment.source) (steps.map (·.state))
      (piecesFrom Segment.source Segment.escapePieces position segments)
      (piecesFrom Segment.source Segment.quotePieces position segments) := by
  induction segments generalizing s steps position with
  | nil =>
    cases hreads
    exact .nothing rfl (by simp)
  | cons g rest ih =>
    obtain ⟨first, second, m, rfl, hfirst, hsecond⟩ := Reads.of_append hreads
    obtain ⟨steps', m', hg, -, hm, -⟩ := g.reads h
    obtain ⟨rfl, rfl⟩ := hfirst.unique hg
    have hrest := ih hm hsecond (position + g.source.length)
    rw [List.map_append]
    exact (g.shows h hfirst position).append hrest

/-! ## Words, gaps and lines -/

namespace Reading

/-- The blanks between words leave the state as they find it. -/
theorem feedAll_blanks_eq (t : Text) (ht : ∀ b ∈ t, isBlank b) {r : Reading} (h : r.word = none) :
    r.feedAll t = .ok { r with
      position := r.position + t.length
      states := r.states ++ (List.replicate t.length r.state).toArray } := by
  induction t generalizing r with
  | nil => simp
  | cons b t ih =>
    have hrest := ih (fun c hc => ht c (by simp [hc])) (r := { r with
      position := r.position + 1, states := r.states.push r.state }) h
    rw [feedAll_cons_of_feed (feed_blank h (ht b (by simp))), hrest]
    have hstates : r.states.push r.state ++ (List.replicate t.length r.state).toArray
        = r.states ++ (List.replicate (t.length + 1) r.state).toArray := by
      apply Array.toList_inj.mp
      simp [List.replicate_succ]
    simp only [List.length_cons, hstates, Nat.add_assoc, Nat.add_comm 1]

/-- The reading rests, and the last byte belonged to neither an escape nor a quoted run. -/
structure Settled (r : Reading) : Prop where
  word : r.word = none
  escape : r.state.escape = .none
  quote : r.state.quote = .none

theorem Settled.rests {r : Reading} (h : r.Settled) : r.Rests :=
  ⟨h.word, by simp [State.isOpen, h.escape, h.quote, Escape.isOpen]⟩

/-- Blanks belong to nothing. -/
theorem shows_blanks (t : Text) (ht : ∀ b ∈ t, isBlank b) {r : Reading} (h : r.Settled)
    (position : Nat) :
    ∃ r' states, r.feedAll t = .ok r' ∧ r'.Settled ∧ r'.states.toList = r.states.toList ++ states ∧
      Shows position t states [] [] := by
  refine ⟨_, List.replicate t.length r.state, feedAll_blanks_eq t ht h.word, ⟨h.word, h.escape,
    h.quote⟩, by simp, .nothing (by simp) ?_⟩
  intro s hs
  obtain rfl := List.eq_of_mem_replicate hs
  exact ⟨h.escape, h.quote⟩

/-- The states of a word show its segments. -/
theorem shows_writtenWord (u : WrittenWord) {r : Reading} (h : r.Rests) (position : Nat) :
    ∃ r' w states, r.feedAll u.source = .ok r' ∧ r'.word = some w ∧ r'.state.isOpen = false ∧
      r'.states.toList = r.states.toList ++ states ∧
      Shows position u.source states (u.escapePieces position) (u.quotePieces position) := by
  have hclosed : r.enter.state.isOpen = false := h.closed
  obtain ⟨steps, s', hreads, -, hs', -⟩ := reads_segments u.segments hclosed
  have hfeed := feedAll_of_reads hreads (r := r.enter) rfl rfl
  have hshows := shows_segments u.segments hclosed hreads position
  refine ⟨_, _, _, (feedAll_of_not_blank h.word u.starts).trans hfeed, rfl, hs', ?_, hshows⟩
  simp [enter]

/-- A gap belongs to nothing: the break that ends a word forgets what the word ended with. -/
theorem shows_gap (g : Gap) {r : Reading} {w : Word} (hw : r.word = some w)
    (hs : r.state.isOpen = false) (position : Nat) :
    ∃ r' states, r.feedAll g.source = .ok r' ∧ r'.Settled ∧
      r'.states.toList = r.states.toList ++ states ∧ Shows position g.source states [] [] := by
  have hstep := State.step_break hs g.isBreak_first
  have hfeed : r.feed g.first = .ok (r.ended w { r.state.settled with inWord := false }) := by
    rw [feed, hw]
    exact feedWord_of_boundary hstep rfl r w
  have hsettled : (r.ended w { r.state.settled with inWord := false }).Settled := ⟨rfl, rfl, rfl⟩
  obtain ⟨r', states, hrest, hr', hstates, hshows⟩ :=
    shows_blanks g.rest g.isBlank_rest hsettled (position + 1)
  have hfirst : Shows position [g.first] [{ r.state.settled with inWord := false }] [] [] :=
    .nothing rfl (by simp [State.settled])
  refine ⟨r', { r.state.settled with inWord := false } :: states, ?_, hr', ?_,
    hfirst.append hshows⟩
  · rw [Gap.source, feedAll_cons_of_feed hfeed, hrest]
  · simp [hstates, ended]

theorem shows_body (ended : List (WrittenWord × Gap)) (last : Option WrittenWord) {r : Reading}
    (h : r.Settled) (position : Nat) :
    ∃ r' states, r.feedAll (Layout.body ended last) = .ok r' ∧
      r'.states.toList = r.states.toList ++ states ∧
      Shows position (Layout.body ended last) states
        ((Layout.placedFrom position ended last).flatMap fun (n, w) => w.escapePieces n)
        ((Layout.placedFrom position ended last).flatMap fun (n, w) => w.quotePieces n) := by
  induction ended generalizing r position with
  | nil =>
    cases last with
    | none => exact ⟨r, [], rfl, by simp, .nothing rfl (by simp)⟩
    | some u =>
      obtain ⟨r', w, states, hfeed, -, -, hstates, hshows⟩ := shows_writtenWord u h.rests position
      refine ⟨r', states, by simpa [Layout.body] using hfeed, hstates, ?_⟩
      simpa [Layout.body, Layout.placedFrom] using hshows
  | cons p rest ih =>
    obtain ⟨u, g⟩ := p
    obtain ⟨r₁, w, first, hfeed₁, hw, hs, hstates₁, hword⟩ := shows_writtenWord u h.rests position
    obtain ⟨r₂, second, hfeed₂, hr₂, hstates₂, hgap⟩ :=
      shows_gap g hw hs (position + u.source.length)
    obtain ⟨r', third, hfeed', hstates', hrest⟩ :=
      ih hr₂ (position + u.source.length + g.source.length)
    have hcut : Layout.body ((u, g) :: rest) last
        = u.source ++ (g.source ++ Layout.body rest last) := by
      simp [Layout.body]
    refine ⟨r', first ++ (second ++ third), ?_, by simp [hstates', hstates₂, hstates₁], ?_⟩
    · rw [hcut, feedAll_append_of_feedAll hfeed₁, feedAll_append_of_feedAll hfeed₂, hfeed']
    · rw [hcut]
      exact hword.append (hgap.append hrest)

end Reading

theorem Layout.shows_source (l : Layout) (h : l.isComment = false) {lexed : Lexed}
    (hlex : lex l.source = .ok lexed) :
    Shows 0 l.source lexed.states l.escapePieces l.quotePieces := by
  have hsettled : Reading.Settled { state := {} } := ⟨rfl, rfl, rfl⟩
  obtain ⟨r₁, lead, hlead, hr₁, hstates₁, hshows₁⟩ :=
    Reading.shows_blanks l.lead l.isBlank_lead hsettled 0
  obtain ⟨r, states, hbody, hstates, hshows⟩ :=
    Reading.shows_body l.ended l.last hr₁ l.lead.length
  have hfeed : Reading.feedAll { state := {} } l.source = .ok r := by
    rw [Layout.source, Reading.feedAll_append_of_feedAll hlead, hbody]
  rw [lex_eq_feedAll (l.startsComment_source.trans h), Reading.start_default, hfeed] at hlex
  cases hlex
  have hall : (r.finish l.source).states = lead ++ states := by
    simp [Reading.finish, hstates, hstates₁]
  rw [hall]
  have hbodyShows : Shows (0 + l.lead.length) (Layout.body l.ended l.last) states l.escapePieces
      l.quotePieces := by
    rw [Nat.zero_add]
    exact hshows
  exact hshows₁.append hbodyShows

/-! ## What the marks of a line say -/

namespace WrittenWord

/-- What stands in a word by its segments is there in the word as it is written. -/
theorem standsIn (w : WrittenWord) (position : Nat) :
    (∀ p ∈ w.escapePieces position, p.StandsIn position w.source) ∧
      ∀ p ∈ w.quotePieces position, p.StandsIn position w.source := by
  obtain ⟨steps, s', hreads, -⟩ := reads_segments w.segments State.isOpen_default
  have hshows := shows_segments w.segments State.isOpen_default hreads position
  exact ⟨hshows.escaped.stands, hshows.quoted.stands⟩

end WrittenWord

namespace Layout

theorem standsIn_of_mem_placedFrom (ended : List (WrittenWord × Gap)) (last : Option WrittenWord)
    (position : Nat) : ∀ p ∈ placedFrom position ended last,
      Piece.StandsIn ⟨p.1, p.2.source⟩ position (body ended last) := by
  induction ended generalizing position with
  | nil =>
    intro p hp
    obtain ⟨u, hu, rfl⟩ := List.mem_map.mp hp
    obtain rfl := Option.mem_toList.mp hu
    exact ⟨[], [], by simp [body], rfl⟩
  | cons q rest ih =>
    obtain ⟨u, g⟩ := q
    intro p hp
    rcases List.mem_cons.mp hp with rfl | hp
    · exact ⟨[], g.source ++ body rest last, by simp [body], rfl⟩
    · have hlater := ih _ p hp
      rw [Nat.add_assoc, ← List.length_append] at hlater
      have hcut : body ((u, g) :: rest) last = (u.source ++ g.source) ++ body rest last := by
        simp [body]
      rw [hcut]
      exact hlater.append_left

theorem standsIn_wordPieces (l : Layout) : ∀ p ∈ l.wordPieces, p.StandsIn 0 l.source := by
  intro p hp
  obtain ⟨q, hq, rfl⟩ := List.mem_map.mp hp
  have hbody := standsIn_of_mem_placedFrom l.ended l.last l.lead.length q hq
  rw [← Nat.zero_add l.lead.length] at hbody
  exact hbody.append_left

/-- What belongs to an escape sequence or a quoted run belongs to a word. -/
theorem exists_wordPiece (l : Layout) {p : Piece} (hp : p ∈ l.escapePieces ++ l.quotePieces)
    {i : Nat} (hi : p.Has i) : ∃ q ∈ l.wordPieces, q.Has i := by
  have hword : ∃ w ∈ l.placedWords, p.StandsIn w.1 w.2.source := by
    rcases List.mem_append.mp hp with hp | hp
    · obtain ⟨w, hw, hp⟩ := List.mem_flatMap.mp hp
      exact ⟨w, hw, (w.2.standsIn w.1).1 p hp⟩
    · obtain ⟨w, hw, hp⟩ := List.mem_flatMap.mp hp
      exact ⟨w, hw, (w.2.standsIn w.1).2 p hp⟩
  obtain ⟨w, hw, hstands⟩ := hword
  exact ⟨⟨w.1, w.2.source⟩, List.mem_map_of_mem hw, hstands.within hi⟩

end Layout

/-- **The states recorded of a line mark its escape sequences and its quoted runs**: a line that is
no comment and ends outside quotes and escapes has a layout, and by whatever layout of it a byte is
escaped exactly if it belongs to an escape sequence, from the backslash to the last byte, and quoted
exactly if it belongs to a quoted run, its quotes and what is escaped in it included. What stands
between words is neither. -/
theorem lex_marks {line : Text} {lexed : Lexed} (h : lex line = .ok lexed)
    (hcomment : lexed.isComment = false) (hclosed : lexed.state.isOpen = false) :
    (∃ layout : Layout, layout.source = line) ∧ lexed.states.length = line.length ∧
      ∀ layout : Layout, layout.source = line →
        (∀ p ∈ layout.escapePieces ++ layout.quotePieces ++ layout.wordPieces,
          p.StandsIn 0 line) ∧
        ∀ i s, lexed.states[i]? = some s →
          (s.escaped = true ↔ ∃ p ∈ layout.escapePieces, p.Has i) ∧
          (s.quoted = true ↔ ∃ p ∈ layout.quotePieces, p.Has i) ∧
          ((∀ p ∈ layout.wordPieces, ¬ p.Has i) → s.escaped = false ∧ s.quoted = false) := by
  obtain ⟨found, hfound, hplain, -⟩ := exists_layout_of_lex h hcomment hclosed
  subst hfound
  have hstates : lexed.states.length = found.source.length := by
    rw [← (found.shows_source hplain h).escaped.length, List.length_map]
  refine ⟨⟨found, rfl⟩, hstates, ?_⟩
  intro layout hsource
  have hsame : layout.isComment = false := by
    rw [← layout.startsComment_source, hsource, found.startsComment_source, hplain]
  rw [← hsource] at h ⊢
  obtain ⟨hescaped, hquoted⟩ := layout.shows_source hsame h
  refine ⟨?_, ?_⟩
  · intro p hp
    rcases List.mem_append.mp hp with hp | hp
    · rcases List.mem_append.mp hp with hp | hp
      · exact hescaped.stands p hp
      · exact hquoted.stands p hp
    · exact layout.standsIn_wordPieces p hp
  · intro i s hs
    have hescapedIff := hescaped.iff i s.escaped (by simp [hs])
    have hquotedIff := hquoted.iff i s.quoted (by simp [hs])
    rw [Nat.zero_add] at hescapedIff hquotedIff
    refine ⟨hescapedIff, hquotedIff, ?_⟩
    intro houtside
    have hnone : ∀ p ∈ layout.escapePieces ++ layout.quotePieces, ¬ p.Has i := by
      intro p hp hi
      obtain ⟨q, hq, hqi⟩ := layout.exists_wordPiece hp hi
      exact houtside q hq hqi
    refine ⟨?_, ?_⟩
    · rw [← Bool.not_eq_true, hescapedIff]
      rintro ⟨p, hp, hi⟩
      exact hnone p (List.mem_append_left _ hp) hi
    · rw [← Bool.not_eq_true, hquotedIff]
      rintro ⟨p, hp, hi⟩
      exact hnone p (List.mem_append_right _ hp) hi

/-- In `'a'"\n"\x41 b` the `n` is escaped and quoted, the first of the hexadecimal digits is escaped
only, and the space is neither. -/
theorem lex_marks_mixed :
    ∃ lexed, lex [0x27, 0x61, 0x27, 0x22, 0x5C, 0x6E, 0x22, 0x5C, 0x78, 0x34, 0x31, 0x20, 0x62]
        = .ok lexed ∧ lexed.isComment = false ∧ lexed.state.isOpen = false ∧
      ∀ layout : Layout, layout.source
          = [0x27, 0x61, 0x27, 0x22, 0x5C, 0x6E, 0x22, 0x5C, 0x78, 0x34, 0x31, 0x20, 0x62] →
        ((∃ p ∈ layout.escapePieces, p.Has 5) ∧ ∃ p ∈ layout.quotePieces, p.Has 5) ∧
        ((∃ p ∈ layout.escapePieces, p.Has 9) ∧ ¬ ∃ p ∈ layout.quotePieces, p.Has 9) ∧
        ¬ (∃ p ∈ layout.escapePieces, p.Has 11) ∧ ¬ ∃ p ∈ layout.quotePieces, p.Has 11 := by
  have hlex : lex [0x27, 0x61, 0x27, 0x22, 0x5C, 0x6E, 0x22, 0x5C, 0x78, 0x34, 0x31, 0x20, 0x62]
      = .ok _ := rfl
  obtain ⟨-, -, hlayouts⟩ := lex_marks hlex rfl rfl
  refine ⟨_, hlex, rfl, rfl, ?_⟩
  intro layout hsource
  obtain ⟨-, hbytes⟩ := hlayouts layout hsource
  obtain ⟨hescaped₅, hquoted₅, -⟩ := hbytes 5 _ rfl
  obtain ⟨hescaped₉, hquoted₉, -⟩ := hbytes 9 _ rfl
  obtain ⟨hescaped₁₁, hquoted₁₁, -⟩ := hbytes 11 _ rfl
  refine ⟨⟨hescaped₅.mp rfl, hquoted₅.mp rfl⟩, ⟨hescaped₉.mp rfl, ?_⟩, ?_, ?_⟩
  · intro hhas
    cases hquoted₉.mpr hhas
  · intro hhas
    cases hescaped₁₁.mpr hhas
  · intro hhas
    cases hquoted₁₁.mpr hhas

end ConfigShell.Line
