import ConfigShell.Proofs.Line.Underway
/-!
# Where the words of a line stand

Reading keeps several rows side by side: the state after each byte of the line, the words with the
part of the line that each takes up, and for each byte of a word the place it comes from. Whoever
colours a line, completes it or reports an error in it looks one of them up by a place taken from
another. `lex_offsets` says that this never misses: there is a state for every byte, the words take
up parts of the line that do not touch, every byte of a word comes from the part of its word, and
the equals sign of a word is the first that is plain in the line.

What one more byte does to a word is said by `Word.ComesFrom.after_one`, what it does to all that
has been recorded by `Reading.Records.feed`; the rest is induction along the line.
-/

namespace ConfigShell.Line

/-! ## Plain equals signs -/

/-- At this place of a line there is an equals sign that belongs neither to a quoted run nor to an
escape sequence. -/
def plainEqualsAt (source : Text) (states : List State) (place : Nat) : Bool :=
  source[place]? == some 0x3D && states[place]?.any fun s => !s.quoted && !s.escaped

section PlainEquals

variable {source : Text} {states : List State} {place : Nat}

/-- What comes later does not matter. -/
theorem plainEqualsAt_append (hstates : states.length = source.length) (h : place < source.length)
    (more : Text) (later : List State) :
    plainEqualsAt (source ++ more) (states ++ later) place = plainEqualsAt source states place := by
  have h' : place < states.length := by omega
  rw [plainEqualsAt, List.getElem?_append_left h, List.getElem?_append_left h', plainEqualsAt]

theorem plainEqualsAt_last (hstates : states.length = source.length) (b : UInt8) (s : State) :
    plainEqualsAt (source ++ [b]) (states ++ [s]) source.length =
      (b == 0x3D && (!s.quoted && !s.escaped)) := by
  rw [plainEqualsAt, List.getElem?_concat_length]
  rw [← hstates, List.getElem?_concat_length]
  rfl

end PlainEquals

namespace State

variable {s : State} {b : UInt8} {step : Step}

/-- The last byte of an escape sequence still counts as escaped. -/
theorem escaped_of_step (h : s.step b = .ok step) (hopen : s.escape.isOpen = true) :
    step.state.escaped = true := by
  obtain ⟨escape, code, hstate, hescape⟩ := escape_of_step h hopen
  rw [hstate]
  exact bne_iff_ne.mpr hescape

/-- Between quotes an equals sign counts as quoted. -/
theorem quoted_of_step (h : s.step 0x3D = .ok step) (hclosed : s.escape.isOpen = false)
    (hquote : s.quote = .single ∨ s.quote = .double) : step.state.quoted = true := by
  rw [step_of_escape_closed hclosed] at h
  cases h
  rcases hquote with hquote | hquote <;> simp [stepPlain, hquote, quoted]

/-- **An equals sign is plain if it is read outside quotes and escapes.** -/
theorem plain_iff_of_step (h : s.step b = .ok step) :
    (b == 0x3D && (!step.state.quoted && !step.state.escaped)) = true ↔
      s.isOpen = false ∧ b = 0x3D := by
  constructor
  · intro hplain
    simp only [Bool.and_eq_true, beq_iff_eq, Bool.not_eq_true'] at hplain
    obtain ⟨rfl, hquoted, hescaped⟩ := hplain
    refine ⟨?_, rfl⟩
    have hclosed : s.escape.isOpen = false := by
      by_contra hopen
      rw [escaped_of_step h (by simpa using hopen)] at hescaped
      cases hescaped
    rw [isOpen_eq_false_iff]
    refine ⟨hclosed, fun hsingle => ?_, fun hdouble => ?_⟩
    · rw [quoted_of_step h hclosed (.inl hsingle)] at hquoted
      cases hquoted
    · rw [quoted_of_step h hclosed (.inr hdouble)] at hquoted
      cases hquoted
  · rintro ⟨hclosed, rfl⟩
    have hmade := step_plain hclosed (show IsPlain 0x3D by decide)
    cases h.symm.trans hmade
    rfl

end State

/-! ## One word -/

/-- The word takes up the part of the line from its start to `stop`: its bytes come from places
there, one after the other, and its equals sign is the first of them that comes from a plain one. -/
structure Word.ComesFrom (source : Text) (states : List State) (stop : Nat) (w : Word) : Prop where
  stop_le : stop ≤ source.length
  length : w.offsets.toList.length = w.data.toList.length
  ordered : w.offsets.toList.Pairwise (· ≤ ·)
  within : ∀ i ∈ w.offsets.toList, w.start ≤ i ∧ i < stop
  equals : w.equals = w.offsets.toList.findIdx? (plainEqualsAt source states)
  marked : ∀ i, w.equals = some i → w.data.toList[i]? = some 0x3D

namespace Word.ComesFrom

variable {source : Text} {states : List State} {stop : Nat} {w : Word} {s : State}

theorem nothing (source : Text) (states : List State) :
    ComesFrom source states source.length { start := source.length } :=
  ⟨Nat.le_refl _, rfl, .nil, nofun, rfl, nofun⟩

/-- The same places are plain when the line goes on. -/
theorem findIdx?_append (h : w.ComesFrom source states stop)
    (hstates : states.length = source.length) (more : Text) (later : List State) :
    w.offsets.toList.findIdx? (plainEqualsAt (source ++ more) (states ++ later)) = w.equals := by
  have hsame : w.offsets.toList.map (plainEqualsAt (source ++ more) (states ++ later)) =
      w.offsets.toList.map (plainEqualsAt source states) := by
    refine List.map_congr_left fun i hi => ?_
    obtain ⟨-, hlt⟩ := h.within i hi
    exact plainEqualsAt_append hstates (Nat.lt_of_lt_of_le hlt h.stop_le) more later
  rw [h.equals, ← Function.id_comp (plainEqualsAt (source ++ more) _), ← List.findIdx?_map, hsame,
    List.findIdx?_map, Function.id_comp]

/-- A word that has ended stays what it is when the line goes on. -/
theorem append (h : w.ComesFrom source states stop) (hstates : states.length = source.length)
    (more : Text) (later : List State) :
    w.ComesFrom (source ++ more) (states ++ later) stop where
  stop_le := by
    rw [List.length_append]
    exact Nat.le_add_right_of_le h.stop_le
  length := h.length
  ordered := h.ordered
  within := h.within
  equals := (h.findIdx?_append hstates more later).symm
  marked := h.marked

/-- The equals sign of a word after one more byte. -/
theorem equals_after_one {b : UInt8} {step : Step} (h : w.ComesFrom source states source.length)
    (hstates : states.length = source.length) (hmarks : w.Marks s) (hstep : s.step b = .ok step) :
    (w.after source.length s [step]).equals =
      (w.after source.length s [step]).offsets.toList.findIdx?
        (plainEqualsAt (source ++ [b]) (states ++ [step.state])) := by
  rw [Word.offsets_after, List.findIdx?_append, h.findIdx?_append hstates, h.length]
  simp only [List.map_cons, List.map_nil, placed, List.append_nil, List.findIdx?_replicate,
    plainEqualsAt_last hstates]
  by_cases hplain : s.isOpen = false ∧ b = 0x3D
  · obtain ⟨hclosed, rfl⟩ := hplain
    have hmade := State.step_plain hclosed (show IsPlain 0x3D by decide)
    cases hstep.symm.trans hmade
    cases hs : s.equalsSeen with
    | true =>
      -- the word has its equals sign already
      obtain ⟨i, hi⟩ : ∃ i, w.equals = some i := Option.isSome_iff_exists.mp (hmarks.trans hs)
      simp [Word.after, hs, hi]
    | false =>
      have hnone : w.equals = none := Option.not_isSome_iff_eq_none.mp (by simp [hmarks.trans hs])
      simp [Word.after, hs, hnone, State.settled, State.quoted, State.escaped]
  · have hunmarked : (step.state.equalsSeen && !s.equalsSeen) = false := by
      by_contra hmark
      simp only [Bool.not_eq_false, Bool.and_eq_true, Bool.not_eq_true'] at hmark
      exact hplain (State.marked_of_step hstep hmark.2 hmark.1)
    have hno := (State.plain_iff_of_step hstep).not.mpr hplain
    simp only [Word.after, hunmarked, hno]
    simp

/-- **One more byte**, which comes from the place behind all those before. -/
theorem after_one {b : UInt8} {step : Step} (h : w.ComesFrom source states source.length)
    (hstates : states.length = source.length) (hstart : w.start ≤ source.length)
    (hmarks : w.Marks s) (hstep : s.step b = .ok step) :
    (w.after source.length s [step]).ComesFrom (source ++ [b]) (states ++ [step.state])
      (source.length + 1) where
  stop_le := by simp
  length := by simp [h.length, placed]
  ordered := by
    simp only [Word.offsets_after, List.map_cons, List.map_nil, placed, List.append_nil]
    refine List.pairwise_append.mpr ⟨h.ordered, ?_, fun i hi j hj => ?_⟩
    · exact List.pairwise_replicate.mpr (.inr (Nat.le_refl _))
    · rw [List.eq_of_mem_replicate hj]
      exact Nat.le_of_lt (h.within i hi).2
  within := by
    intro i hi
    simp only [Word.offsets_after, List.map_cons, List.map_nil, placed, List.append_nil,
      Word.start_after] at hi ⊢
    rcases List.mem_append.mp hi with hi | hi
    · obtain ⟨hle, hlt⟩ := h.within i hi
      omega
    · have hlast := List.eq_of_mem_replicate hi
      omega
  equals := h.equals_after_one hstates hmarks hstep
  marked := by
    intro i hi
    rw [Word.data_after]
    cases hmark : step.state.equalsSeen && !s.equalsSeen with
    | false =>
      have hold : w.equals = some i := by simpa [Word.after, hmark] using hi
      have hget := h.marked i hold
      rw [List.getElem?_append_left (List.getElem?_eq_some_iff.mp hget).1]
      exact hget
    | true =>
      have hnew : i = w.data.toList.length := by
        have hsize : w.data.size = i := by simpa [Word.after, hmark] using hi
        rw [← hsize, Array.length_toList]
      simp only [Bool.and_eq_true, Bool.not_eq_true'] at hmark
      obtain ⟨hclosed, rfl⟩ := State.marked_of_step hstep hmark.2 hmark.1
      have hmade := State.step_plain hclosed (show IsPlain 0x3D by decide)
      cases hstep.symm.trans hmade
      subst hnew
      simp

end Word.ComesFrom

/-! ## All that has been recorded -/

namespace Reading

/-- What a reading has recorded of the text read so far: a state for each byte, words that have
ended in front of the last byte, one in front of the other, and perhaps one still under way. -/
structure Records (read : Text) (r : Reading) : Prop where
  position : r.position = read.length
  states : r.states.toList.length = read.length
  ended : ∀ t ∈ r.tokens.toList, ∃ (w : Word) (stop : Nat), t = w.close stop ∧
    w.start < stop ∧ stop < read.length ∧ w.ComesFrom read r.states.toList stop
  apart : r.tokens.toList.Pairwise fun t u => t.stop < u.start
  underway : ∀ w, r.word = some w → w.start < read.length ∧
    w.ComesFrom read r.states.toList read.length ∧ ∀ t ∈ r.tokens.toList, t.stop < w.start

variable {read : Text} {r r' : Reading} {b : UInt8}

theorem records_start : Records [] { state := {} } :=
  ⟨rfl, rfl, nofun, .nil, nofun⟩

/-- Words that have ended stay when the reading goes on. -/
theorem Records.ended_append (h : r.Records read) (b : UInt8) (s : State) :
    ∀ t ∈ r.tokens.toList, ∃ (w : Word) (stop : Nat), t = w.close stop ∧ w.start < stop ∧
      stop < (read ++ [b]).length ∧ w.ComesFrom (read ++ [b]) (r.states.push s).toList stop := by
  intro t ht
  obtain ⟨w, stop, rfl, hstart, hstop, hword⟩ := h.ended t ht
  refine ⟨w, stop, rfl, hstart, ?_, ?_⟩
  · rw [List.length_append]
    exact Nat.lt_add_right 1 hstop
  · rw [Array.toList_push]
    exact hword.append h.states [b] [s]

/-- A byte of a word, the first one or a later one. A break cannot be the first. -/
theorem Records.feedWord {s : State} {w : Word} (h : r.Records read)
    (hstart : w.start ≤ read.length) (hword : w.ComesFrom read r.states.toList read.length)
    (hapart : ∀ t ∈ r.tokens.toList, t.stop < w.start) (hmarks : w.Marks s)
    (hfirst : w.start = read.length → isBreak b = false) (hfeed : r.feedWord s w b = .ok r') :
    r'.Records (read ++ [b]) := by
  have hlength : (read ++ [b]).length = read.length + 1 := by simp
  have hstates (s' : State) : (r.states.push s').toList.length = (read ++ [b]).length := by
    rw [Array.toList_push, List.length_append, h.states, hlength]
    rfl
  cases hstep : s.step b with
  | error fault => rw [feedWord_of_error hstep] at hfeed; cases hfeed
  | ok step =>
    cases hboundary : step.isBoundary with
    | true =>
      rw [feedWord_of_boundary hstep hboundary] at hfeed
      cases hfeed
      have hlt : w.start < read.length := by
        refine Nat.lt_of_le_of_ne hstart fun he => ?_
        obtain ⟨-, hbreak⟩ := (State.keeps_step hstep).boundary hboundary
        rw [hfirst he] at hbreak
        cases hbreak
      refine ⟨?_, hstates _, ?_, ?_, nofun⟩
      · simp [Reading.ended, h.position]
      · simp only [Reading.ended, Array.toList_push, List.forall_mem_append,
          List.forall_mem_singleton]
        refine ⟨by simpa using h.ended_append b step.state, w, read.length, ?_, hlt, by omega, ?_⟩
        · rw [h.position]
        · exact hword.append h.states [b] [step.state]
      · simp only [Reading.ended, Array.toList_push]
        refine List.pairwise_append.mpr ⟨h.apart, List.pairwise_singleton _ _, fun t ht u hu => ?_⟩
        rw [List.mem_singleton.mp hu]
        exact hapart t ht
    | false =>
      rw [feedWord_of_goesOn hstep hboundary] at hfeed
      cases hfeed
      refine ⟨?_, hstates _, h.ended_append b step.state, h.apart, fun w' hw' => ?_⟩
      · simp [advanced, h.position]
      · cases hw'
        rw [h.position, Word.start_after, hlength]
        refine ⟨by omega, ?_, hapart⟩
        simp only [advanced, Array.toList_push]
        exact hword.after_one h.states hstart hmarks hstep

/-- **One more byte is recorded.** -/
theorem Records.feed (h : r.Records read) (htracks : r.Tracks) (hfeed : r.feed b = .ok r') :
    r'.Records (read ++ [b]) := by
  cases hw : r.word with
  | some w =>
    obtain ⟨hstart, hword, hapart⟩ := h.underway w hw
    simp only [Reading.feed, hw] at hfeed
    refine h.feedWord (Nat.le_of_lt hstart) hword hapart (htracks.marks w hw) (fun he => ?_) hfeed
    omega
  | none =>
    by_cases hblank : isBlank b
    · rw [feed_blank hw hblank] at hfeed
      cases hfeed
      refine ⟨?_, ?_, h.ended_append b r.state, h.apart, ?_⟩
      · simp [h.position]
      · simp [← h.states]
      · intro w hw'
        exact absurd (hw.symm.trans hw') (Option.some_ne_none w).symm
    · simp only [Reading.feed, hw, hblank, Bool.false_eq_true, if_false] at hfeed
      rw [h.position] at hfeed
      refine h.feedWord (s := { r.state with inWord := true, equalsSeen := false })
        (Nat.le_refl _) (.nothing read _) (fun t ht => ?_) rfl
        (fun _ => isBreak_of_not_blank (by simpa using hblank)) hfeed
      obtain ⟨w, stop, rfl, -, hstop, -⟩ := h.ended t ht
      exact Int.ofNat_lt.mpr hstop

/-- **A whole text is recorded.** -/
theorem Records.feedAll {t : Text} (h : r.Records read) (htracks : r.Tracks)
    (hfeed : r.feedAll t = .ok r') : r'.Records (read ++ t) := by
  induction t generalizing r read with
  | nil =>
    cases hfeed
    rwa [List.append_nil]
  | cons b t ih =>
    obtain ⟨m, hm, hrest⟩ := exists_feed_of_feedAll_cons hfeed
    have hnext := ih (h.feed htracks hm) (htracks.feed hm).1 hrest
    rwa [List.append_assoc] at hnext

end Reading

/-! ## Tokens -/

/-- What a token says of a line and the states after its bytes. -/
structure Token.ComesFrom (source : Text) (states : List State) (t : Token) : Prop where
  /-- The word takes up a part of the line, which is not empty. -/
  range : 0 ≤ t.start ∧ t.start < t.stop ∧ t.stop ≤ source.length
  /-- Every byte of the word has a place that it comes from. -/
  length : t.offsets.length = t.data.length
  ordered : t.offsets.Pairwise (· ≤ ·)
  within : ∀ i ∈ t.offsets, t.start ≤ i ∧ i < t.stop
  /-- The equals sign is the first byte that comes from a plain one. -/
  equals : ∀ n : Int, t.equals = some n ↔ ∃ i : Nat, n = i ∧
    (∃ place : Nat, t.offsets[i]? = some (place : Int) ∧ plainEqualsAt source states place = true) ∧
    ∀ j < i, ∀ place : Nat, t.offsets[j]? = some (place : Int) →
      plainEqualsAt source states place = false
  marked : ∀ i : Nat, t.equals = some (i : Int) → t.data[i]? = some 0x3D

theorem Word.ComesFrom.close {source : Text} {states : List State} {stop : Nat} {w : Word}
    (h : w.ComesFrom source states stop) (hstart : w.start < stop) :
    (w.close stop).ComesFrom source states where
  range := ⟨Int.natCast_nonneg _, Int.ofNat_lt.mpr hstart, Int.ofNat_le.mpr h.stop_le⟩
  length := by simpa [Word.close] using h.length
  ordered := by
    refine List.pairwise_map.mpr (h.ordered.imp fun hle => ?_)
    exact Int.ofNat_le.mpr hle
  within := by
    intro i hi
    obtain ⟨n, hn, rfl⟩ := List.mem_map.mp hi
    obtain ⟨hle, hlt⟩ := h.within n hn
    exact ⟨Int.ofNat_le.mpr hle, Int.ofNat_lt.mpr hlt⟩
  equals := by
    intro n
    have hplace (i place : Nat) : (w.close stop).offsets[i]? = some (place : Int) ↔
        w.offsets.toList[i]? = some place := by
      simp only [Word.close, List.getElem?_map, Option.map_eq_some_iff]
      constructor
      · rintro ⟨p, hp, hsame⟩
        rw [hp, Int.ofNat.inj hsame]
      · exact fun hp => ⟨place, hp, rfl⟩
    simp only [hplace]
    simp only [Word.close, Option.map_eq_some_iff, h.equals, List.findIdx?_eq_some_iff_getElem]
    constructor
    · rintro ⟨i, ⟨hi, hplain, hfirst⟩, rfl⟩
      refine ⟨i, rfl, ⟨_, List.getElem?_eq_getElem hi, hplain⟩, fun j hj place hget => ?_⟩
      obtain ⟨hlt, rfl⟩ := List.getElem?_eq_some_iff.mp hget
      simpa using hfirst j hj
    · rintro ⟨i, rfl, ⟨place, hget, hplain⟩, hfirst⟩
      obtain ⟨hi, rfl⟩ := List.getElem?_eq_some_iff.mp hget
      refine ⟨i, ⟨hi, hplain, fun j hj => ?_⟩, rfl⟩
      have hlt : j < w.offsets.toList.length := Nat.lt_trans hj hi
      simpa using hfirst j hj _ (List.getElem?_eq_getElem hlt)
  marked := by
    intro i hi
    obtain ⟨n, hn, hsame⟩ := Option.map_eq_some_iff.mp hi
    rw [← Int.ofNat.inj hsame]
    exact h.marked n hn

namespace Reading.Records

variable {line : Text} {r : Reading}

/-- A word that has ended in front of the end of the line. -/
theorem comesFrom_ended (h : r.Records line) {t : Token} (ht : t ∈ r.tokens.toList) :
    t.ComesFrom line r.states.toList ∧ t.stop < line.length := by
  obtain ⟨w, stop, rfl, hstart, hstop, hword⟩ := h.ended t ht
  exact ⟨hword.close hstart, Int.ofNat_lt.mpr hstop⟩

theorem comesFrom_finish (h : r.Records line) :
    ∀ t ∈ (r.finish line).tokens, t.ComesFrom line r.states.toList := by
  cases hword : r.word with
  | none =>
    rw [tokens_finish_of_none hword]
    exact fun t ht => (h.comesFrom_ended ht).1
  | some w =>
    obtain ⟨hstart, hcomes, -⟩ := h.underway w hword
    rw [tokens_finish hword, h.position, List.forall_mem_append, List.forall_mem_singleton]
    exact ⟨fun t ht => (h.comesFrom_ended ht).1, hcomes.close hstart⟩

/-- Every word of a line has a place there. -/
theorem located_finish (h : r.Records line) : ∀ t ∈ (r.finish line).tokens, t.located = true := by
  have hended : ∀ t ∈ r.tokens.toList, t.located = true := by
    intro t ht
    obtain ⟨w, stop, rfl, -⟩ := h.ended t ht
    rfl
  cases hword : r.word with
  | none =>
    rw [tokens_finish_of_none hword]
    exact hended
  | some w =>
    rw [tokens_finish hword, List.forall_mem_append, List.forall_mem_singleton]
    exact ⟨hended, rfl⟩

theorem apart_finish (h : r.Records line) :
    (r.finish line).tokens.Pairwise fun t u => t.stop < u.start := by
  cases hword : r.word with
  | none =>
    rw [tokens_finish_of_none hword]
    exact h.apart
  | some w =>
    obtain ⟨-, -, hapart⟩ := h.underway w hword
    rw [tokens_finish hword, h.position]
    refine List.pairwise_append.mpr ⟨h.apart, List.pairwise_singleton _ _, fun t ht u hu => ?_⟩
    rw [List.mem_singleton.mp hu]
    exact hapart t ht

end Reading.Records

/-- What reading a line records of the whole of it. -/
theorem exists_records_of_lex {line : Text} {lexed : Lexed} (h : lex line = .ok lexed)
    (hcomment : lexed.isComment = false) :
    ∃ r, Reading.feedAll { state := {} } line = .ok r ∧ r.Records line ∧
      lexed = r.finish line := by
  obtain ⟨-, r, hfeed, rfl⟩ := exists_feedAll_of_lex h hcomment
  rw [Reading.start_default] at hfeed
  have hrecords := Reading.records_start.feedAll Reading.tracks_start hfeed
  rw [List.nil_append] at hrecords
  exact ⟨r, hfeed, hrecords, rfl⟩

/-- **Where the words of a line stand.** A line that can be read and is no comment has a state for
each of its bytes. Its words take up parts of it, from the first to the last, with at least one byte
between; every byte of a word comes from its part; and its equals sign is the first that is plain in
the line. The reading ends within a word exactly if the last word reaches to the end of the line. -/
theorem lex_offsets {line : Text} {lexed : Lexed} (h : lex line = .ok lexed)
    (hcomment : lexed.isComment = false) :
    lexed.states.length = line.length ∧
    (∀ t ∈ lexed.tokens, t.ComesFrom line lexed.states) ∧
    lexed.tokens.Pairwise (fun t u => t.stop < u.start) ∧
    (lexed.state.inWord = true ↔ ∃ t, lexed.tokens.getLast? = some t ∧ t.stop = line.length) := by
  obtain ⟨r, hfeed, hrecords, rfl⟩ := exists_records_of_lex h hcomment
  refine ⟨hrecords.states, hrecords.comesFrom_finish, hrecords.apart_finish, ?_⟩
  rcases Reading.rests_or_inWord hfeed with ⟨hrests, hin⟩ | ⟨before, typed, base, steps, -, hword⟩
  · rw [Reading.tokens_finish_of_none hrests.word]
    constructor
    · intro hwithin
      exact absurd (hin.symm.trans hwithin) Bool.false_ne_true
    · rintro ⟨t, hlast, hstop⟩
      have hlt := (hrecords.comesFrom_ended (List.mem_of_getLast? hlast)).2
      omega
  · rw [Reading.tokens_finish hword.word, hrecords.position]
    have hin := (Reading.tracks_start.feedAll hfeed).1.inWord _ hword.word
    exact ⟨fun _ => ⟨_, List.getLast?_concat, rfl⟩, fun _ => hin⟩

/-- In the line ` k\x3d"="=v 'c` an escaped and a quoted equals sign stand in front of the plain
one, and the last word ends within its quotes. -/
theorem lex_offsets_quoted :
    ∃ lexed first last,
      lex [0x20, 0x6B, 0x5C, 0x78, 0x33, 0x64, 0x22, 0x3D, 0x22, 0x3D, 0x76, 0x20, 0x27, 0x63] =
        .ok lexed ∧ lexed.isComment = false ∧ lexed.tokens = [first, last] ∧
      first.equals = some 3 ∧ first.offsets = [1, 5, 7, 9, 10] ∧
      plainEqualsAt lexed.source lexed.states 9 = true ∧ lexed.states.length = 14 ∧
      first.stop < last.start ∧ last.stop = 14 ∧ lexed.state.inWord = true := by
  have hlex : lex [0x20, 0x6B, 0x5C, 0x78, 0x33, 0x64, 0x22, 0x3D, 0x22, 0x3D, 0x76, 0x20, 0x27,
      0x63] = .ok _ := rfl
  obtain ⟨hstates, htokens, hapart, hends⟩ := lex_offsets hlex rfl
  obtain ⟨i, hi, ⟨place, hplace, hplain⟩, -⟩ :=
    ((htokens _ (List.mem_cons_self ..)).equals 3).mp rfl
  obtain rfl : 3 = i := Int.ofNat.inj hi
  obtain rfl : 9 = place := Int.ofNat.inj (Option.some.inj hplace)
  have hbefore := (List.pairwise_cons.mp hapart).1 _ (List.mem_cons_self ..)
  exact ⟨_, _, _, rfl, rfl, rfl, rfl, rfl, hplain, hstates, hbefore, rfl, hends.mpr ⟨_, rfl, rfl⟩⟩

end ConfigShell.Line
