import Mathlib.Data.List.Induction
import ConfigShell.Proofs.Line.Carried
import ConfigShell.Proofs.Line.ReadBack
/-!
# The word a line ends in

A line that ends within a word is a text that leaves nothing under way and then the bytes of that
word (`Reading.InWord`). The word can be cut after any of its bytes. Of its places three matter:
where it begins, right after its first equals sign (`Reading.InWord.cut_equals`), and where the byte
after a slash that starts at the top comes from (`Reading.InWord.cut_root`).
-/

namespace ConfigShell.Line

/-! ## Where outputs come from -/

theorem placed_append (position : Nat) (outs outs' : List Text) :
    placed position (outs ++ outs') =
      placed position outs ++ placed (position + outs.length) outs' := by
  induction outs generalizing position with
  | nil => rfl
  | cons out rest ih =>
    rw [List.cons_append, placed, placed, ih, List.append_assoc, List.length_cons]
    rw [show position + 1 + rest.length = position + (rest.length + 1) by omega]

theorem length_placed (position : Nat) (outs : List Text) :
    (placed position outs).length = outs.flatten.length := by
  induction outs generalizing position with
  | nil => rfl
  | cons out rest ih => simp [placed, ih]

theorem lt_of_mem_placed {outs : List Text} {position n : Nat} (h : n ∈ placed position outs) :
    n < position + outs.length := by
  induction outs generalizing position with
  | nil => cases h
  | cons out rest ih =>
    rw [List.length_cons]
    rcases List.mem_append.mp h with h | h
    · have hn := List.eq_of_mem_replicate h
      omega
    · have hlt := ih h
      omega

/-! ## What escape sequences stand for -/

/-- The bytes of a code point are not none. -/
theorem ofCode_ne_nil (n : Nat) : Text.ofCode n ≠ [] := by
  intro h
  have hlength := congrArg List.length h
  rw [Text.ofCode, String.length_utf8EncodeChar] at hlength
  have hpos := Char.utf8Size_pos (Char.ofNat n)
  rw [List.length_nil] at hlength
  omega

theorem byteOutput_ne_nil {code : Int} {out : Text} (h : byteOutput code = .ok out) :
    out ≠ [] := by
  unfold byteOutput at h
  split at h
  · cases h; simp
  · cases h

theorem hexOutput_ne_nil {form : HexForm} {code : Int} {out : Text}
    (h : hexOutput form code = .ok out) : out ≠ [] := by
  unfold hexOutput at h
  split at h
  · exact byteOutput_ne_nil h
  all_goals
    repeat' split at h
    all_goals first
      | cases h
        exact ofCode_ne_nil _
      | cases h

/-! ## Steps -/

namespace State

/-- Outside quotes and escapes a byte adds itself or nothing. -/
theorem output_of_closed {s : State} (h : s.isOpen = false) {b : UInt8} {step : Step}
    (hstep : s.step b = .ok step) : step.output = [b] ∨ step.output = [] := by
  rw [step_of_closed h] at hstep
  cases hstep
  simp only [stepPlain, settled]
  repeat' split
  all_goals simp

theorem marked_of_stepPlain {s : State} {b : UInt8} (before : s.equalsSeen = false)
    (after : (s.stepPlain b).state.equalsSeen = true) :
    b = 0x3D ∧ s.quote ≠ .single ∧ s.quote ≠ .double := by
  unfold stepPlain at after
  split at after
  all_goals repeat' split at after
  all_goals simp_all

/-- **What a byte within an escape does**: the escape goes on and adds nothing, or it ends and adds
what it stands for. All else of the state stays as it is. -/
theorem escape_step_cases {s : State} {b : UInt8} {step : Step} (h : s.step b = .ok step)
    (hopen : s.escape.isOpen = true) :
    ∃ escape code, step.state = { s with escape := escape, code := code } ∧
      (escape.isOpen = true ∧ escape ≠ .backslash ∧ step.output = [] ∨
        escape = .ended ∧ step.output ≠ []) := by
  have hcompleted {result : Except Fault Text} {made : Text → Step} (h : result.map made = .ok step)
      (hmade : ∀ out, made out = { state := { s with escape := .ended, code := 0 }, output := out })
      (hout : ∀ out, result = .ok out → out ≠ []) :
      ∃ escape code, step.state = { s with escape := escape, code := code } ∧
        (escape.isOpen = true ∧ escape ≠ .backslash ∧ step.output = [] ∨
          escape = .ended ∧ step.output ≠ []) := by
    cases result with
    | error fault => cases h
    | ok out =>
      cases h
      rw [hmade]
      exact ⟨_, _, rfl, .inr ⟨rfl, hout out rfl⟩⟩
  unfold State.step at h
  split at h
  · rename_i he
    simp [he, Escape.isOpen] at hopen
  · rename_i he
    simp [he, Escape.isOpen] at hopen
  · unfold stepBackslash at h
    repeat' split at h
    all_goals cases h
    · exact ⟨_, _, rfl, .inr ⟨rfl, by simp⟩⟩
    all_goals exact ⟨_, _, rfl, .inl ⟨rfl, by simp, rfl⟩⟩
  · unfold stepOctal at h
    dsimp only at h
    repeat' split at h
    · cases h
      exact ⟨_, _, rfl, .inl ⟨rfl, by simp, rfl⟩⟩
    · exact hcompleted h (fun _ => rfl) fun _ => byteOutput_ne_nil
    · cases h
  · unfold stepHex at h
    dsimp only at h
    repeat' split at h
    · cases h
    · cases h
      exact ⟨_, _, rfl, .inl ⟨rfl, by simp, rfl⟩⟩
    · exact hcompleted h (fun _ => rfl) fun _ => hexOutput_ne_nil
  · unfold stepControl at h
    split at h
    · cases h
      exact ⟨_, _, rfl, .inr ⟨rfl, by simp⟩⟩
    · cases h

/-- An escape under way goes on or ends. -/
theorem escape_of_step {s : State} {b : UInt8} {step : Step} (h : s.step b = .ok step)
    (hopen : s.escape.isOpen = true) :
    ∃ escape code, step.state = { s with escape := escape, code := code } ∧ escape ≠ .none := by
  obtain ⟨escape, code, hstate, ⟨hgoesOn, -⟩ | ⟨rfl, -⟩⟩ := escape_step_cases h hopen
  · refine ⟨escape, code, hstate, ?_⟩
    rintro rfl
    cases hgoesOn
  · exact ⟨_, code, hstate, by simp⟩

/-- Only an equals sign outside quotes and escapes is marked. -/
theorem marked_of_step {s : State} {b : UInt8} {step : Step} (h : s.step b = .ok step)
    (before : s.equalsSeen = false) (after : step.state.equalsSeen = true) :
    s.isOpen = false ∧ b = 0x3D := by
  cases he : s.escape.isOpen with
  | true =>
    obtain ⟨escape, code, hstate, -⟩ := escape_of_step h he
    rw [hstate] at after
    exact absurd (before.symm.trans after) Bool.false_ne_true
  | false =>
    rw [step_of_escape_closed he] at h
    cases h
    obtain ⟨hb, hsingle, hdouble⟩ :=
      marked_of_stepPlain (s := { s with escape := .none }) before after
    exact ⟨isOpen_eq_false_iff.mpr ⟨he, hsingle, hdouble⟩, hb⟩

end State

namespace Reads

variable {s s' : State} {t : Text} {steps : List Step}

theorem length_eq (h : Reads s t steps s') : steps.length = t.length := by
  induction h with
  | nil => rfl
  | cons _ _ _ ih => rw [List.length_cons, List.length_cons, ih]

/-- Outside quotes and escapes the first byte adds itself or nothing. -/
theorem exists_first {b : UInt8} (h : Reads s (b :: t) steps s') (hs : s.isOpen = false) :
    ∃ step others, steps = step :: others ∧ (step.output = [b] ∨ step.output = []) := by
  cases h with
  | cons hstep _ _ => exact ⟨_, _, rfl, State.output_of_closed hs hstep⟩

/-- The equals sign that a word comes to be marked at is a plain one, and the steps up to it leave
nothing open. -/
theorem cut_equals (h : Reads s t steps s') (hs : s.equalsSeen = false) (w : Word)
    (hw : w.equals = none) (position : Nat) {i : Nat}
    (hi : (w.after position s steps).equals = some i) :
    ∃ u v first step second m, t = (u ++ [0x3D]) ++ v ∧ steps = (first ++ [step]) ++ second ∧
      Reads s u first m ∧ Reads m [0x3D] [step] step.state ∧ step.output = [0x3D] ∧
      step.state.isOpen = false ∧ i = w.data.size + (first.map (·.output)).flatten.length := by
  induction h generalizing w position with
  | nil => rw [Word.after, hw] at hi; cases hi
  | @cons s s' b t step steps hstep goesOn rest ih =>
    cases hseen : step.state.equalsSeen with
    | true =>
      obtain ⟨hclosed, rfl⟩ := State.marked_of_step hstep hs hseen
      have hplain : IsPlain 0x3D := by decide
      have hmade := State.step_plain hclosed hplain
      cases hstep.symm.trans hmade
      refine ⟨[], t, [], _, steps, s, rfl, rfl, .nil s, .one hmade rfl, rfl, rfl, ?_⟩
      -- the mark is made here, and stays
      have hsame : s'.equalsSeen = true := rest.equalsSeen_mono hseen
      rw [Word.after, Word.equals_after _ _ _ _ rest (hsame.trans hseen.symm)] at hi
      simpa [hs] using hi.symm
    | false =>
      rw [Word.after, hseen] at hi
      obtain ⟨u, v, first, marked, second, m, rfl, rfl, hfirst, hrest⟩ :=
        ih hseen (w.add position step.output) hw (position + 1) hi
      refine ⟨b :: u, v, step :: first, marked, second, m, rfl, rfl, .cons hstep goesOn hfirst, ?_⟩
      obtain ⟨hmarked, hout, hclosed, hi⟩ := hrest
      refine ⟨hmarked, hout, hclosed, ?_⟩
      rw [hi, ← Array.length_toList, Word.data_add]
      simp [Nat.add_assoc]

end Reads

/-! ## A reading that stands in a word -/

namespace Reading

/-- The reading stands in a word: it has read `before`, where nothing was under way, and then the
bytes `typed` of the word. -/
structure InWord (before typed : Text) (base : Reading) (steps : List Step) (r : Reading) :
    Prop where
  read : Reading.feedAll { state := {} } before = .ok base
  rests : base.Rests
  position : base.position = before.length
  starts : typed.head?.any (!isBlank ·)
  reads : Reads base.enter.state typed steps r.state
  word : r.word =
    some (Word.after { start := base.position } base.position base.enter.state steps)
  tokens : r.tokens = base.tokens

variable {before typed t : Text} {base r : Reading} {steps : List Step}

theorem tokens_finish_of_none (hw : r.word = none) (text : Text) :
    (r.finish text).tokens = r.tokens.toList := by
  simp [finish, hw]

/-- The end of the line ends the word that is under way. -/
theorem tokens_finish {w : Word} (hw : r.word = some w) (text : Text) :
    (r.finish text).tokens = r.tokens.toList ++ [w.close r.position] := by
  simp [finish, hw]

theorem isBreak_of_not_blank {b : UInt8} (h : isBlank b = false) : isBreak b = false := by
  simp [isBlank, isBreak] at h ⊢
  simp [h]

/-- A reading that rests goes on resting at a blank, and begins a word at any other byte. -/
theorem Rests.feed {m : Reading} {b : UInt8} (hread : Reading.feedAll { state := {} } t = .ok m)
    (hrests : m.Rests) (hin : m.state.inWord = false) (hfeed : m.feed b = .ok r) :
    (r.Rests ∧ r.state.inWord = false) ∨ ∃ base steps, InWord t [b] base steps r := by
  cases hblank : isBlank b with
  | true =>
    rw [feed_blank hrests.word hblank] at hfeed
    cases hfeed
    exact .inl ⟨⟨hrests.word, hrests.closed⟩, hin⟩
  | false =>
    rw [feed_of_not_blank hrests.word hblank] at hfeed
    have hentered : m.enter.feed b =
        m.enter.feedWord m.enter.state { start := m.position } b := rfl
    rw [hentered] at hfeed
    cases hstep : m.enter.state.step b with
    | error fault => rw [feedWord_of_error hstep] at hfeed; cases hfeed
    | ok step =>
      cases hboundary : step.isBoundary with
      | true =>
        obtain ⟨-, hbreak⟩ := (State.keeps_step hstep).boundary hboundary
        rw [isBreak_of_not_blank hblank] at hbreak
        cases hbreak
      | false =>
        rw [feedWord_of_goesOn hstep hboundary] at hfeed
        cases hfeed
        obtain ⟨-, hposition⟩ := tracks_start.feedAll hread
        refine .inr ⟨m, [step], hread, hrests, by simpa using hposition, ?_, ?_, rfl, rfl⟩
        · simp [hblank]
        · exact .one hstep hboundary

/-- A word ends at a break, and goes on at any other byte. -/
theorem InWord.feed {m : Reading} {b : UInt8} (hword : InWord before typed base steps m)
    (hread : Reading.feedAll { state := {} } (before ++ typed) = .ok m) (hfeed : m.feed b = .ok r) :
    (r.Rests ∧ r.state.inWord = false) ∨
      ∃ steps, InWord before (typed ++ [b]) base steps r := by
  simp only [Reading.feed, hword.word] at hfeed
  cases hstep : m.state.step b with
  | error fault => rw [feedWord_of_error hstep] at hfeed; cases hfeed
  | ok step =>
    cases hboundary : step.isBoundary with
    | true =>
      rw [feedWord_of_boundary hstep hboundary] at hfeed
      obtain ⟨hclosed, hbreak⟩ := (State.keeps_step hstep).boundary hboundary
      cases hstep.symm.trans (State.step_break hclosed hbreak)
      cases hfeed
      exact .inl ⟨⟨rfl, rfl⟩, rfl⟩
    | false =>
      rw [feedWord_of_goesOn hstep hboundary] at hfeed
      cases hfeed
      refine .inr ⟨steps ++ [step], hword.read, hword.rests, hword.position, ?_,
        hword.reads.append (.one hstep hboundary), ?_, hword.tokens⟩
      · have hstarts := hword.starts
        cases typed with
        | nil => cases hstarts
        | cons c typed => exact hstarts
      · have hposition : m.position = base.position + typed.length := by
          rw [(tracks_start.feedAll hread).2, List.length_append, hword.position]
          exact Nat.zero_add _
        rw [Word.after_append hword.reads, ← hposition]
        rfl

/-- **A reading of a line rests or stands in a word.** -/
theorem rests_or_inWord (h : Reading.feedAll { state := {} } t = .ok r) :
    (r.Rests ∧ r.state.inWord = false) ∨
      ∃ before typed base steps, t = before ++ typed ∧ InWord before typed base steps r := by
  induction t using List.reverseRecOn generalizing r with
  | nil =>
    cases h
    exact .inl ⟨⟨rfl, rfl⟩, rfl⟩
  | append_singleton t b ih =>
    obtain ⟨m, hm, hfeed⟩ := exists_feed_of_feedAll_concat h
    rcases ih hm with ⟨hrests, hin⟩ | ⟨before, typed, base, steps, rfl, hword⟩
    · rcases hrests.feed hm hin hfeed with hrests' | ⟨base, steps, hword⟩
      · exact .inl hrests'
      · exact .inr ⟨t, [b], base, steps, rfl, hword⟩
    · rcases hword.feed hm hfeed with hrests' | ⟨steps, hword'⟩
      · exact .inl hrests'
      · exact .inr ⟨before, typed ++ [b], base, steps, List.append_assoc .., hword'⟩

namespace InWord

variable {u v : Text} {w : Word}

theorem word_eq (h : InWord before typed base steps r) (hw : r.word = some w) :
    w = Word.after { start := before.length } before.length base.enter.state steps := by
  rw [h.word, h.position] at hw
  exact (Option.some.inj hw).symm

/-- The word can be cut after any of its bytes. -/
theorem cut (h : InWord before (u ++ v) base steps r) (hu : u ≠ []) :
    ∃ first second m, steps = first ++ second ∧ Reads base.enter.state u first m.state ∧
      Reads m.state v second r.state ∧ Reading.feedAll { state := {} } (before ++ u) = .ok m ∧
      InWord before u base first m := by
  obtain ⟨first, second, state, rfl, hfirst, hsecond⟩ := h.reads.of_append
  have hstarts : u.head?.any (!isBlank ·) := by
    have hstarts := h.starts
    cases u with
    | nil => exact absurd rfl hu
    | cons b u => exact hstarts
  have hfeed := feedAll_of_reads hfirst (r := base.enter) rfl rfl
  rw [← feedAll_of_not_blank h.rests.word hstarts] at hfeed
  have hread := (feedAll_append_of_feedAll h.read u).trans hfeed
  exact ⟨first, second, _, rfl, hfirst, hsecond, hread,
    h.read, h.rests, h.position, hstarts, hfirst, rfl, rfl⟩

theorem data_eq (h : InWord before typed base steps r) (hw : r.word = some w) :
    w.data.toList = (steps.map (·.output)).flatten := by
  rw [h.word_eq hw, Word.data_after]
  rfl

theorem offsets_eq (h : InWord before typed base steps r) (hw : r.word = some w) :
    w.offsets.toList = placed before.length (steps.map (·.output)) := by
  rw [h.word_eq hw, Word.offsets_after]
  rfl

/-- **Right after its first equals sign** the word can be cut with nothing open. -/
theorem cut_equals (h : InWord before typed base steps r) (hw : r.word = some w) {i : Nat}
    (hi : w.equals = some i) :
    ∃ u v m first, typed = (u ++ [0x3D]) ++ v ∧
      Reading.feedAll { state := {} } (before ++ (u ++ [0x3D])) = .ok m ∧
      InWord before (u ++ [0x3D]) base first m ∧ m.state.isOpen = false ∧
      (first.map (·.output)).flatten = w.data.toList.take (i + 1) ∧
      w.offsets.toList[i]? = some (before.length + u.length) := by
  have hequals := hi
  rw [h.word_eq hw] at hequals
  obtain ⟨u, v, first, step, second, state, htyped, hsteps, hfirst, hmark, hout, hclosed, hsize⟩ :=
    h.reads.cut_equals rfl { start := before.length } rfl before.length hequals
  replace hsize : (first.map (·.output)).flatten.length = i := by simpa using hsize.symm
  have hdata := h.data_eq hw
  have hoffsets := h.offsets_eq hw
  subst htyped
  obtain ⟨first', second', m, -, hfirst', -, hread, hcut⟩ := h.cut (by simp)
  obtain ⟨rfl, hstate⟩ := hfirst'.unique (hfirst.append hmark)
  refine ⟨u, v, m, _, rfl, hread, hcut, by rw [hstate, hclosed], ?_, ?_⟩
  · have hlength : i + 1 = ((first ++ [step]).map (·.output)).flatten.length := by
      simp only [List.map_append, List.flatten_append, List.length_append, hsize]
      simp [hout]
    have hcutData : (steps.map (·.output)).flatten =
        ((first ++ [step]).map (·.output)).flatten ++ (second.map (·.output)).flatten := by
      rw [hsteps, List.map_append, List.flatten_append]
    rw [hdata, hcutData, hlength, List.take_left]
  · have hplaced : (placed before.length (first.map (·.output))).length = i := by
      rw [length_placed, hsize]
    rw [hoffsets, hsteps, List.map_append, List.map_append, placed_append, placed_append,
      List.append_assoc, List.getElem?_append_right (by omega), hplaced, Nat.sub_self]
    simp [placed, hout, hfirst.length_eq]

/-- A slash that starts at the top is the first byte of its word. -/
theorem first_of_root (h : InWord before typed base steps r) (hw : r.word = some w) {stop : Nat}
    (hroot : Walk.hasRootSlash (w.close stop) = true) :
    ∃ more step others, typed = Path.separator :: more ∧ steps = step :: others ∧
      step.output = [Path.separator] := by
  obtain ⟨hdata, hoffset⟩ : w.data.toList.head? = some Path.separator ∧
      w.offsets.toList.head? = some before.length := by
    have hstart : w.start = before.length := by rw [h.word_eq hw, Word.start_after]
    simp only [Walk.hasRootSlash, Word.close, hstart, Bool.and_eq_true, beq_iff_eq,
      Bool.not_true, Bool.false_or, List.head?_map] at hroot
    obtain ⟨offset, hoffset, hsame⟩ := Option.map_eq_some_iff.mp hroot.2
    exact ⟨hroot.1, by rw [hoffset, Int.ofNat.inj hsame]⟩
  obtain ⟨b, more, rfl⟩ : ∃ b more, typed = b :: more := by
    have hstarts := h.starts
    cases typed with
    | nil => cases hstarts
    | cons b more => exact ⟨b, more, rfl⟩
  obtain ⟨step, others, rfl, hout⟩ := h.reads.exists_first h.rests.closed
  rw [h.data_eq hw, List.map_cons, List.flatten_cons] at hdata
  rw [h.offsets_eq hw, List.map_cons, placed] at hoffset
  rcases hout with hout | hnil
  · rw [hout] at hdata
    obtain rfl := Option.some.inj hdata
    exact ⟨more, step, others, rfl, rfl, hout⟩
  · -- otherwise a later byte stands for it
    rw [hnil] at hoffset
    have hle := le_of_mem_placed (List.mem_of_mem_head? hoffset)
    omega

/-- Where the byte after a slash that starts at the top comes from, the word can be cut as well. What
is left of it is the slash. -/
theorem cut_root (h : InWord before typed base steps r) (hw : r.word = some w) {stop : Nat}
    (hroot : Walk.hasRootSlash (w.close stop) = true) {place : Nat}
    (hplace : w.offsets.toList[1]? = some place) :
    ∃ u v m first, typed = u ++ v ∧ place = before.length + u.length ∧
      Reading.feedAll { state := {} } (before ++ u) = .ok m ∧ InWord before u base first m ∧
      (first.map (·.output)).flatten = [Path.separator] := by
  obtain ⟨more, step, others, rfl, rfl, hout⟩ := h.first_of_root hw hroot
  rw [h.offsets_eq hw] at hplace
  have hlt := lt_of_mem_placed (List.mem_of_getElem? hplace)
  rw [List.length_map, h.reads.length_eq] at hlt
  have hle : before.length + 1 ≤ place := by
    rw [List.map_cons, placed, hout] at hplace
    exact le_of_mem_placed (List.mem_of_getElem? hplace)
  obtain ⟨u, v, htyped, hlength⟩ : ∃ u v, Path.separator :: more = u ++ v ∧
      u.length = place - before.length := by
    refine ⟨_, _, (List.take_append_drop (place - before.length) _).symm, ?_⟩
    rw [List.length_take]
    omega
  rw [htyped] at h
  have hne : u ≠ [] := by
    rintro rfl
    rw [List.length_nil] at hlength
    omega
  obtain ⟨first, second, m, hsteps, hfirst, -, hread, hcut⟩ := h.cut hne
  refine ⟨u, v, m, first, htyped, by omega, hread, hcut, ?_⟩
  cases first with
  | nil => exact absurd (List.length_eq_zero_iff.mp hfirst.length_eq.symm) hne
  | cons step' first =>
    obtain ⟨rfl, rfl⟩ := List.cons.inj hsteps
    -- what else stands before the cut adds nothing, or the place would be before it
    have hnothing : (first.map (·.output)).flatten = [] := by
      rw [← List.length_eq_zero_iff]
      by_contra hmore
      have hinside : 1 < (placed before.length ((step :: first).map (·.output))).length := by
        rw [length_placed, List.map_cons, List.flatten_cons, hout, List.length_append,
          List.length_singleton]
        omega
      have hparts : (step :: (first ++ second)).map (·.output) =
          (step :: first).map (·.output) ++ second.map (·.output) := by simp
      rw [show (step :: first.append second).map (·.output) = _ from hparts, placed_append,
        List.getElem?_append_left hinside] at hplace
      have hbefore := lt_of_mem_placed (List.mem_of_getElem? hplace)
      rw [List.length_map, hfirst.length_eq] at hbefore
      omega
    rw [List.map_cons, List.flatten_cons, hout, hnothing]
    rfl

end InWord

end Reading

end ConfigShell.Line
