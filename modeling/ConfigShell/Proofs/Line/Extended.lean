import Mathlib.Data.List.TakeWhile
import ConfigShell.Proofs.Line.Offsets
/-!
# What is read stays as it is

Reading goes from the front of a line to its end, so a line that ends outside quotes and escapes has
its words and states at the front of every line that begins with it and a break (`lex_extended`).
The words that are read after the break come from the bytes after it.
-/

namespace ConfigShell.Line

theorem isBlank_of_isBreak {b : UInt8} (h : isBreak b) : isBlank b := by
  cases hblank : isBlank b with
  | true => rfl
  | false =>
    rw [Reading.isBreak_of_not_blank hblank] at h
    cases h

namespace Reading

/-- `r` has been read on from `m`, where no word was under way: of all that is read since, no byte
comes from before `m`. -/
structure FollowsOn (m r : Reading) : Prop where
  position : m.position ≤ r.position
  states : m.states.toList <+: r.states.toList
  tokens : ∃ later, r.tokens.toList = m.tokens.toList ++ later ∧
    ∀ t ∈ later, ∀ place ∈ t.offsets, (m.position : Int) ≤ place
  word : ∀ w, r.word = some w → ∀ place ∈ w.offsets.toList, m.position ≤ place

variable {m r r' : Reading}

theorem followsOn_refl (h : m.word = none) : FollowsOn m m := by
  refine ⟨Nat.le_refl _, List.prefix_rfl, ⟨[], by simp, by simp⟩, ?_⟩
  intro w hw
  rw [h] at hw
  cases hw

namespace FollowsOn

/-- The words read since, once the one under way is ended as well. -/
theorem tokens_push (h : FollowsOn m r) {w : Word}
    (hw : ∀ place ∈ w.offsets.toList, m.position ≤ place) (stop : Nat) :
    ∃ later, r.tokens.toList ++ [w.close stop] = m.tokens.toList ++ later ∧
      ∀ t ∈ later, ∀ place ∈ t.offsets, (m.position : Int) ≤ place := by
  obtain ⟨later, htokens, hlater⟩ := h.tokens
  refine ⟨later ++ [w.close stop], by rw [htokens, List.append_assoc], ?_⟩
  intro t ht place hplace
  rcases List.mem_append.mp ht with ht | ht
  · exact hlater t ht place hplace
  · obtain rfl := List.mem_singleton.mp ht
    obtain ⟨n, hn, rfl⟩ := List.mem_map.mp hplace
    exact Int.ofNat_le.mpr (hw n hn)

theorem feedWord (h : FollowsOn m r) {s : State} {w : Word} {b : UInt8}
    (hw : ∀ place ∈ w.offsets.toList, m.position ≤ place) (hfeed : r.feedWord s w b = .ok r') :
    FollowsOn m r' := by
  have hposition : m.position ≤ r.position + 1 := Nat.le_succ_of_le h.position
  have hstates (s' : State) : m.states.toList <+: (r.states.push s').toList := by
    rw [Array.toList_push]
    exact h.states.trans (List.prefix_append _ _)
  cases hstep : s.step b with
  | error fault =>
    rw [feedWord_of_error hstep] at hfeed
    cases hfeed
  | ok step =>
    cases hboundary : step.isBoundary with
    | true =>
      rw [feedWord_of_boundary hstep hboundary] at hfeed
      cases hfeed
      refine ⟨hposition, hstates _, ?_, fun w' hw' => nomatch hw'⟩
      rw [ended, Array.toList_push]
      exact h.tokens_push hw r.position
    | false =>
      rw [feedWord_of_goesOn hstep hboundary] at hfeed
      cases hfeed
      refine ⟨hposition, hstates _, h.tokens, ?_⟩
      intro w' hw' place hplace
      cases hw'
      rw [Word.offsets_after] at hplace
      rcases List.mem_append.mp hplace with hplace | hplace
      · exact hw place hplace
      · exact Nat.le_trans h.position (le_of_mem_placed hplace)

theorem feed (h : FollowsOn m r) {b : UInt8} (hfeed : r.feed b = .ok r') : FollowsOn m r' := by
  cases hw : r.word with
  | some w =>
    simp only [Reading.feed, hw] at hfeed
    exact h.feedWord (h.word w hw) hfeed
  | none =>
    by_cases hblank : isBlank b
    · rw [feed_blank hw hblank] at hfeed
      cases hfeed
      refine ⟨Nat.le_succ_of_le h.position, ?_, h.tokens, h.word⟩
      rw [Array.toList_push]
      exact h.states.trans (List.prefix_append _ _)
    · simp only [Reading.feed, hw, hblank, Bool.false_eq_true, if_false] at hfeed
      exact h.feedWord (by simp) hfeed

/-- **What has been read stays as it is**, however much is read after it. -/
theorem feedAll (h : FollowsOn m r) {t : Text} (hfeed : r.feedAll t = .ok r') : FollowsOn m r' := by
  induction t generalizing r with
  | nil =>
    cases hfeed
    exact h
  | cons b t ih =>
    obtain ⟨next, hnext, hrest⟩ := exists_feed_of_feedAll_cons hfeed
    exact ih (h.feed hnext) hrest

/-- At the end of the line as well. -/
theorem tokens_finish (h : FollowsOn m r) (text : Text) :
    ∃ later, (r.finish text).tokens = m.tokens.toList ++ later ∧
      ∀ t ∈ later, ∀ place ∈ t.offsets, (m.position : Int) ≤ place := by
  cases hw : r.word with
  | none =>
    rw [tokens_finish_of_none hw]
    exact h.tokens
  | some w =>
    rw [Reading.tokens_finish hw]
    exact h.tokens_push (h.word w hw) r.position

end FollowsOn

/-- Outside quotes and escapes a break ends what a line's end would end. -/
theorem feed_break_of_closed (h : r.state.isOpen = false) {b : UInt8} (hb : isBreak b)
    (text : Text) :
    ∃ r' s, r.feed b = .ok r' ∧ r'.word = none ∧ r'.position = r.position + 1 ∧
      r'.states = r.states.push s ∧ r'.tokens.toList = (r.finish text).tokens := by
  cases hw : r.word with
  | none =>
    refine ⟨_, r.state, feed_blank hw (isBlank_of_isBreak hb), hw, rfl, rfl, ?_⟩
    rw [tokens_finish_of_none hw]
  | some w =>
    have hfeed : r.feed b = r.feedWord r.state w b := by rw [feed, hw]
    rw [feedWord_of_boundary (State.step_break h hb) rfl] at hfeed
    refine ⟨_, _, hfeed, rfl, rfl, rfl, ?_⟩
    rw [Reading.tokens_finish hw, ended, Array.toList_push]

end Reading

/-! ## Lines that go on -/

/-- There is a state for every byte. -/
theorem length_states_of_lex {line : Text} {lexed : Lexed} (h : lex line = .ok lexed)
    (hcomment : lexed.isComment = false) : lexed.states.length = line.length := by
  obtain ⟨r, -, hrecords, rfl⟩ := exists_records_of_lex h hcomment
  exact hrecords.states

/-- A comment has no words and leaves nothing open. -/
theorem comment_of_lex {line : Text} {lexed : Lexed} (h : lex line = .ok lexed)
    (hcomment : lexed.isComment = true) :
    startsComment {} line = true ∧ lexed.tokens = [] ∧ lexed.state = {} := by
  cases hplain : startsComment {} line with
  | true =>
    rw [lex, hplain] at h
    cases h
    exact ⟨rfl, rfl, rfl⟩
  | false =>
    rw [lex_eq_feedAll hplain] at h
    split at h
    · cases h
    · cases h
      cases hcomment

theorem isComment_of_isOpen {line : Text} {lexed : Lexed} (h : lex line = .ok lexed)
    (hopen : lexed.state.isOpen = true) : lexed.isComment = false := by
  cases hcomment : lexed.isComment with
  | false => rfl
  | true =>
    rw [(comment_of_lex h hcomment).2.2] at hopen
    cases hopen

/-- Whether a line is a comment is up to its first byte that is not blank. -/
theorem startsComment_append_of_not_blank {front : Text} (h : front.dropWhile isBlank ≠ [])
    (more : Text) : startsComment {} (front ++ more) = startsComment {} front := by
  obtain ⟨b, rest, hkept⟩ := List.exists_cons_of_ne_nil h
  simp [startsComment, List.dropWhile_append, hkept]

/-- A line that is no comment does not begin with one. -/
theorem startsComment_front {front more : Text} (h : startsComment {} (front ++ more) = false) :
    startsComment {} front = false := by
  by_cases hblank : front.dropWhile isBlank = []
  · simp [startsComment, hblank]
  · rwa [startsComment_append_of_not_blank hblank] at h

/-- What follows a comment belongs to it. -/
theorem isComment_of_lex_append {line rest : Text} {lexed longer : Lexed}
    (h : lex line = .ok lexed) (hcomment : lexed.isComment = true)
    (hlonger : lex (line ++ rest) = .ok longer) : longer.isComment = true := by
  obtain ⟨hstarts, -⟩ := comment_of_lex h hcomment
  have hnotBlank : line.dropWhile isBlank ≠ [] := by
    intro hblank
    simp [startsComment, hblank] at hstarts
  rw [lex, startsComment_append_of_not_blank hnotBlank, hstarts] at hlonger
  cases hlonger
  rfl

/-- A line with a word in it is not blank. -/
theorem dropWhile_ne_nil_of_words {line : Text} {r : Reading}
    (hfeed : Reading.feedAll { state := {} } line = .ok r) (hwords : (r.finish line).tokens ≠ []) :
    line.dropWhile isBlank ≠ [] := by
  intro hline
  have hblank : ∀ b ∈ line, isBlank b := List.dropWhile_eq_nil_iff.mp hline
  obtain ⟨r', hr', hrests, -, htokens⟩ :=
    Reading.feedAll_blanks line hblank (r := { state := {} }) ⟨rfl, rfl⟩
  cases hfeed.symm.trans hr'
  rw [Reading.tokens_finish_of_none hrests.word, htokens] at hwords
  exact hwords rfl

/-- **What is typed behind a break leaves the words and states before it as they are.** A line that
has words and ends outside quotes and escapes keeps them, with the state after each of its bytes, in
every line that goes on with a break. The bytes of the words that are added come from behind it. -/
theorem lex_extended {line rest : Text} {b : UInt8} (hb : isBreak b) {lexed longer : Lexed}
    (h : lex line = .ok lexed) (hcomment : lexed.isComment = false)
    (hclosed : lexed.state.isOpen = false) (hwords : lexed.tokens ≠ [])
    (hlonger : lex (line ++ b :: rest) = .ok longer) :
    longer.isComment = false ∧ lexed.states <+: longer.states ∧
      ∃ later, longer.tokens = lexed.tokens ++ later ∧
        ∀ t ∈ later, ∀ place ∈ t.offsets, (line.length : Int) ≤ place := by
  obtain ⟨hplain, base, hfeed, rfl⟩ := exists_feedAll_of_lex h hcomment
  rw [Reading.start_default] at hfeed
  have hplainLonger : startsComment {} (line ++ b :: rest) = false :=
    (startsComment_append_of_not_blank (dropWhile_ne_nil_of_words hfeed hwords) _).trans hplain
  obtain ⟨m, s, hm, hmword, hposition, hstates, htokens⟩ :=
    Reading.feed_break_of_closed hclosed hb line
  rw [lex_eq_feedAll hplainLonger, Reading.start_default, Reading.feedAll_append_of_feedAll hfeed,
    Reading.feedAll_cons_of_feed hm] at hlonger
  cases hr : m.feedAll rest with
  | error e =>
    rw [hr] at hlonger
    cases hlonger
  | ok r =>
    rw [hr] at hlonger
    cases hlonger
    have hfollows := (Reading.followsOn_refl hmword).feedAll hr
    obtain ⟨later, hlater, hplaces⟩ := hfollows.tokens_finish (line ++ b :: rest)
    have hbegins : line.length ≤ m.position := by
      have hlength := (Reading.tracks_start.feedAll hfeed).2
      simp only at hlength
      omega
    refine ⟨rfl, ?_, later, by rw [hlater, htokens], ?_⟩
    · show base.states.toList <+: r.states.toList
      refine List.IsPrefix.trans ?_ hfollows.states
      rw [hstates, Array.toList_push]
      exact List.prefix_append _ _
    · intro t ht place hplace
      exact Int.le_trans (Int.ofNat_le.mpr hbegins) (hplaces t ht place hplace)

end ConfigShell.Line
