import ConfigShell.Proofs.Line.Layout
/-!
# Reading within a word

`Reads s t steps s'` says that the bytes `t`, read one after another from the state `s`, take the
given steps, end no word and leave the state `s'`. Everything that a reading does inside a word
goes through this relation: `Reading.feedAll_of_reads` says what comes of the word under way, so
that what follows about quotes and escapes is about states alone.
-/

namespace ConfigShell.Line

/-! ## States outside quotes and escapes -/

namespace State

/-- The state outside quotes and escapes, what has just ended forgotten. -/
def settled (s : State) : State := { s with escape := .none, quote := .none }

@[simp]
theorem isOpen_default : ({} : State).isOpen = false := rfl

theorem isOpen_eq_false_iff {s : State} :
    s.isOpen = false ↔ s.escape.isOpen = false ∧ s.quote ≠ .single ∧ s.quote ≠ .double := by
  simp [isOpen, and_assoc]

/-- Outside escapes only the quotes decide. -/
theorem step_of_escape_closed {s : State} (h : s.escape.isOpen = false) (b : UInt8) :
    s.step b = .ok ({ s with escape := .none }.stepPlain b) := by
  obtain ⟨escape, quote, inWord, equalsSeen, code⟩ := s
  cases escape with
  | none => rfl
  | ended => rfl
  | _ => simp [Escape.isOpen] at h

theorem step_of_closed {s : State} (h : s.isOpen = false) (b : UInt8) :
    s.step b = .ok (s.settled.stepPlain b) := by
  obtain ⟨he, hsingle, hdouble⟩ := isOpen_eq_false_iff.mp h
  rw [step_of_escape_closed he]
  obtain ⟨escape, quote, inWord, equalsSeen, code⟩ := s
  cases quote with
  | none => rfl
  | ended => rfl
  | single => exact absurd rfl hsingle
  | double => exact absurd rfl hdouble

theorem step_break {s : State} (h : s.isOpen = false) {b : UInt8} (hb : isBreak b) :
    s.step b = .ok { state := { s.settled with inWord := false }, isBoundary := true } := by
  have hne : b ≠ 0x22 ∧ b ≠ 0x27 ∧ b ≠ 0x5C := by
    refine ⟨?_, ?_, ?_⟩ <;> rintro rfl <;> simp [isBreak] at hb
  rw [step_of_closed h]
  simp [stepPlain, settled, hne, hb]

theorem step_plain {s : State} (h : s.isOpen = false) {b : UInt8} (hb : IsPlain b) :
    s.step b = .ok
      { state := { s.settled with equalsSeen := s.equalsSeen || b == 0x3D }, output := [b] } := by
  obtain ⟨hbreak, hne⟩ := hb
  rw [step_of_closed h]
  by_cases he : b = 0x3D
  · subst he; simp [stepPlain, settled, hbreak]
  · simp [stepPlain, settled, hne, hbreak, he]

theorem step_singleQuote {s : State} (h : s.isOpen = false) :
    s.step 0x27 = .ok { state := { s.settled with quote := .single } } := by
  rw [step_of_closed h]; rfl

theorem step_doubleQuote {s : State} (h : s.isOpen = false) :
    s.step 0x22 = .ok { state := { s.settled with quote := .double } } := by
  rw [step_of_closed h]; rfl

theorem step_backslash {s : State} (h : s.isOpen = false) :
    s.step 0x5C = .ok { state := { s.settled with escape := .backslash } } := by
  rw [step_of_closed h]; rfl

/-! ## What a step leaves alone -/

/-- What every step keeps: outside a break the word goes on, and the mark of an equals sign, once
set, stays. Only a break outside quotes and escapes ends a word. -/
structure Keeps (s : State) (b : UInt8) (step : Step) : Prop where
  inWord : step.state.inWord = (s.inWord && !step.isBoundary)
  equalsSeen : s.equalsSeen = true → step.state.equalsSeen = true
  boundary : step.isBoundary = true → s.isOpen = false ∧ isBreak b = true

theorem keeps_stepPlain {s : State} (h : s.escape = .none) (b : UInt8) :
    s.Keeps b (s.stepPlain b) := by
  unfold stepPlain
  split
  all_goals rename_i hq
  all_goals try simp only
  all_goals repeat' split
  all_goals constructor <;> simp_all [isOpen, Escape.isOpen]

theorem keeps_stepBackslash {s : State} {b : UInt8} {step : Step}
    (h : s.stepBackslash b = .ok step) : s.Keeps b step := by
  unfold stepBackslash at h
  repeat' split at h
  all_goals cases h
  all_goals constructor <;> simp

theorem keeps_stepOctal {s : State} {seen : Fin 2} {b : UInt8} {step : Step}
    (h : s.stepOctal seen b = .ok step) : s.Keeps b step := by
  unfold stepOctal at h
  split at h
  · dsimp only at h
    split at h
    · cases h; constructor <;> simp
    · cases hout : byteOutput (s.code * 8 + (b.toNat - 0x30)) <;> simp [hout, Except.map] at h
      subst h; constructor <;> simp
  · cases h

theorem keeps_stepHex {s : State} {form : HexForm} {seen : Fin form.digits} {b : UInt8}
    {step : Step} (h : s.stepHex form seen b = .ok step) : s.Keeps b step := by
  unfold stepHex at h
  split at h
  · cases h
  · rename_i v _
    dsimp only at h
    split at h
    · cases h; constructor <;> simp
    · cases hout : hexOutput form (s.code * 16 + v) <;> simp [hout, Except.map] at h
      subst h; constructor <;> simp

theorem keeps_stepControl {s : State} {b : UInt8} {step : Step}
    (h : s.stepControl b = .ok step) : s.Keeps b step := by
  unfold stepControl at h
  split at h
  · cases h; constructor <;> simp
  · cases h

theorem keeps_step {s : State} {b : UInt8} {step : Step} (h : s.step b = .ok step) :
    s.Keeps b step := by
  unfold State.step at h
  split at h
  · rename_i he
    cases h; exact keeps_stepPlain he b
  · rename_i he
    cases h
    obtain ⟨inWord, seen, boundary⟩ := keeps_stepPlain (s := { s with escape := .none }) rfl b
    refine ⟨inWord, seen, fun hb => ⟨?_, (boundary hb).2⟩⟩
    simpa [isOpen, he, Escape.isOpen] using (boundary hb).1
  · exact keeps_stepBackslash h
  · exact keeps_stepOctal h
  · exact keeps_stepHex h
  · exact keeps_stepControl h

end State

/-! ## Steps one after another -/

/-- Reading `t` from the state `s` takes the given steps, none of which ends the word, and leaves
the last state. -/
inductive Reads : State → Text → List Step → State → Prop
  | nil (s : State) : Reads s [] [] s
  | cons {s s' : State} {b : UInt8} {t : Text} {step : Step} {steps : List Step}
      (h : s.step b = .ok step) (goesOn : step.isBoundary = false)
      (rest : Reads step.state t steps s') : Reads s (b :: t) (step :: steps) s'

namespace Reads

variable {s m s' : State} {t u : Text} {steps steps' : List Step}

theorem one {b : UInt8} {step : Step} (h : s.step b = .ok step)
    (goesOn : step.isBoundary = false) : Reads s [b] [step] step.state :=
  .cons h goesOn (.nil _)

theorem append (h : Reads s t steps m) (h' : Reads m u steps' s') :
    Reads s (t ++ u) (steps ++ steps') s' := by
  induction h with
  | nil => exact h'
  | cons hstep goesOn _ ih => exact .cons hstep goesOn (ih h')

/-- What is read in two pieces is read up to the cut and then from there. -/
theorem of_append (h : Reads s (t ++ u) steps s') :
    ∃ first second m, steps = first ++ second ∧ Reads s t first m ∧ Reads m u second s' := by
  induction t generalizing s steps with
  | nil => exact ⟨[], steps, s, rfl, .nil s, h⟩
  | cons b t ih =>
    cases h with
    | cons hstep goesOn rest =>
      obtain ⟨first, second, m, rfl, h₁, h₂⟩ := ih rest
      exact ⟨_ :: first, second, m, rfl, .cons hstep goesOn h₁, h₂⟩

/-- A text takes the same steps to the same state whenever it is read from one. -/
theorem unique (h : Reads s t steps m) (h' : Reads s t steps' s') : steps = steps' ∧ m = s' := by
  induction h generalizing steps' with
  | nil =>
    cases h'
    exact ⟨rfl, rfl⟩
  | cons hstep _ _ ih =>
    cases h' with
    | cons hstep' _ rest' =>
      cases hstep.symm.trans hstep'
      obtain ⟨rfl, rfl⟩ := ih rest'
      exact ⟨rfl, rfl⟩

theorem equalsSeen_mono (h : Reads s t steps s') (hs : s.equalsSeen = true) :
    s'.equalsSeen = true := by
  induction h with
  | nil => exact hs
  | cons hstep _ _ ih => exact ih ((State.keeps_step hstep).equalsSeen hs)

end Reads

/-! ## The word under way -/

namespace Word

/-- The word after steps taken from the state `s`, the first byte read standing at `position`. -/
def after (w : Word) (position : Nat) (s : State) : List Step → Word
  | [] => w
  | step :: rest =>
    ((if step.state.equalsSeen && !s.equalsSeen then { w with equals := some w.data.size }
      else w).add position step.output).after (position + 1) step.state rest

variable (w : Word) (position : Nat) (s : State) (steps : List Step)

@[simp]
theorem start_add (output : Text) : (w.add position output).start = w.start := rfl

@[simp]
theorem data_add (output : Text) :
    (w.add position output).data.toList = w.data.toList ++ output := by
  simp [add]

@[simp]
theorem offsets_add (output : Text) :
    (w.add position output).offsets.toList
      = w.offsets.toList ++ List.replicate output.length position := by
  simp [add]

@[simp]
theorem equals_add (output : Text) : (w.add position output).equals = w.equals := rfl

@[simp]
theorem start_after : (w.after position s steps).start = w.start := by
  induction steps generalizing w position s with
  | nil => rfl
  | cons step rest ih => rw [after, ih]; split <;> rfl

@[simp]
theorem data_after :
    (w.after position s steps).data.toList
      = w.data.toList ++ (steps.map (·.output)).flatten := by
  induction steps generalizing w position s with
  | nil => simp [after]
  | cons step rest ih => rw [after, ih]; split <;> simp

@[simp]
theorem offsets_after :
    (w.after position s steps).offsets.toList
      = w.offsets.toList ++ placed position (steps.map (·.output)) := by
  induction steps generalizing w position s with
  | nil => simp [after, placed]
  | cons step rest ih => rw [after, ih]; split <;> simp [placed]

/-- Steps between which no equals sign is marked leave the mark of the word alone. -/
theorem equals_after {s' : State} {t : Text} (h : Reads s t steps s')
    (same : s'.equalsSeen = s.equalsSeen) :
    (w.after position s steps).equals = w.equals := by
  induction h generalizing w position with
  | nil => rfl
  | @cons s s' b t step steps hstep goesOn rest ih =>
    have hstepSeen : step.state.equalsSeen = s.equalsSeen := by
      cases hs : s.equalsSeen with
      | true => exact (State.keeps_step hstep).equalsSeen hs
      | false =>
        -- a mark set by this step would still be there at the end
        cases hm : step.state.equalsSeen with
        | false => rfl
        | true => rw [rest.equalsSeen_mono hm, hs] at same; exact same
    rw [after, ih _ _ (same.trans hstepSeen.symm), hstepSeen]
    cases s.equalsSeen <;> rfl

end Word

/-! ## Feeding a text -/

namespace Reading

/-- Takes the bytes of a text one after another. -/
def feedAll (r : Reading) (t : Text) : Except (Fault × Nat) Reading := t.foldlM feed r

@[simp]
theorem feedAll_nil (r : Reading) : r.feedAll [] = .ok r := rfl

theorem feedAll_cons (r : Reading) (b : UInt8) (t : Text) :
    r.feedAll (b :: t) = (r.feed b).bind (·.feedAll t) := rfl

theorem feedAll_append (r : Reading) (t u : Text) :
    r.feedAll (t ++ u) = (r.feedAll t).bind (·.feedAll u) := List.foldlM_append ..

theorem feedAll_cons_of_feed {r m : Reading} {b : UInt8} (h : r.feed b = .ok m) (t : Text) :
    r.feedAll (b :: t) = m.feedAll t := by
  rw [feedAll_cons, h]; rfl

theorem feedAll_append_of_feedAll {r m : Reading} {t : Text} (h : r.feedAll t = .ok m)
    (u : Text) : r.feedAll (t ++ u) = m.feedAll u := by
  rw [feedAll_append, h]; rfl

/-- The reading after a byte that ended the word `w`. -/
def ended (r : Reading) (w : Word) (s' : State) : Reading :=
  { position := r.position + 1, state := s', word := none
    tokens := r.tokens.push (w.close r.position), states := r.states.push s' }

/-- The reading after a byte that made the word under way `w`. -/
def advanced (r : Reading) (w : Word) (s' : State) : Reading :=
  { position := r.position + 1, state := s', word := some w, tokens := r.tokens
    states := r.states.push s' }

theorem feedWord_of_error {s : State} {b : UInt8} {fault : Fault} (h : s.step b = .error fault)
    (r : Reading) (w : Word) : r.feedWord s w b = .error (fault, r.position) := by
  rw [feedWord, h]

theorem feedWord_of_boundary {s : State} {b : UInt8} {step : Step} (h : s.step b = .ok step)
    (ends : step.isBoundary = true) (r : Reading) (w : Word) :
    r.feedWord s w b = .ok (r.ended w step.state) := by
  simp [feedWord, h, ends, ended]

theorem feedWord_of_goesOn {s : State} {b : UInt8} {step : Step} (h : s.step b = .ok step)
    (goesOn : step.isBoundary = false) (r : Reading) (w : Word) :
    r.feedWord s w b = .ok (r.advanced (w.after r.position s [step]) step.state) := by
  simp [feedWord, h, goesOn, Word.after, advanced]

/-- A text that ends in a reading has one after its first byte. -/
theorem exists_feed_of_feedAll_cons {r r' : Reading} {b : UInt8} {t : Text}
    (h : r.feedAll (b :: t) = .ok r') : ∃ m, r.feed b = .ok m ∧ m.feedAll t = .ok r' := by
  rw [feedAll_cons] at h
  cases hm : r.feed b with
  | error e => rw [hm] at h; cases h
  | ok m => rw [hm] at h; exact ⟨m, rfl, h⟩

/-- A text that ends in a reading has one before its last byte. -/
theorem exists_feed_of_feedAll_concat {r r' : Reading} {b : UInt8} {t : Text}
    (h : r.feedAll (t ++ [b]) = .ok r') : ∃ m, r.feedAll t = .ok m ∧ m.feed b = .ok r' := by
  rw [feedAll_append] at h
  cases hm : r.feedAll t with
  | error e => rw [hm] at h; cases h
  | ok m =>
    rw [hm] at h
    obtain ⟨last, hlast, hsame⟩ := exists_feed_of_feedAll_cons (h : m.feedAll [b] = .ok r')
    cases hsame
    exact ⟨m, rfl, hlast⟩

/-- **Within a word a reading takes the steps of its state**, and the word takes their outputs. -/
theorem feedAll_of_reads {s s' : State} {t : Text} {steps : List Step} (h : Reads s t steps s')
    {r : Reading} (hs : r.state = s) {w : Word} (hw : r.word = some w) :
    r.feedAll t = .ok
      { position := r.position + t.length, state := s'
        word := some (w.after r.position s steps), tokens := r.tokens
        states := r.states ++ (steps.map (·.state)).toArray } := by
  induction h generalizing r w with
  | nil s =>
    obtain ⟨position, state, word, tokens, states⟩ := r
    cases hs
    cases hw
    simp [Word.after]
  | @cons s s' b t step steps hstep goesOn rest ih =>
    have hfeed : r.feed b = r.feedWord s w b := by rw [feed, hw, hs]
    rw [feedWord_of_goesOn hstep goesOn] at hfeed
    rw [feedAll_cons_of_feed hfeed, ih rfl rfl]
    simp [advanced, Word.after, Nat.add_assoc, Nat.add_comm 1]

end Reading

/-- A line that is no comment is fed to the reading it starts with. -/
theorem lex_eq_feedAll {state : State} {line : Text} (h : startsComment state line = false) :
    lex line state = match (Reading.start state line).feedAll line with
      | .error (fault, offset) => .error ⟨fault, offset, line⟩
      | .ok r => .ok (r.finish line) := by
  rw [lex, h]; rfl

/-- What comes of a line that can be read and is no comment. -/
theorem exists_feedAll_of_lex {state : State} {line : Text} {lexed : Lexed}
    (h : lex line state = .ok lexed) (hcomment : lexed.isComment = false) :
    startsComment state line = false ∧ ∃ r,
      (Reading.start state line).feedAll line = .ok r ∧ lexed = r.finish line := by
  cases hc : startsComment state line with
  | true =>
    rw [lex, hc] at h
    cases h
    cases hcomment
  | false =>
    rw [lex_eq_feedAll hc] at h
    cases hr : (Reading.start state line).feedAll line with
    | error e => rw [hr] at h; cases h
    | ok r => rw [hr] at h; cases h; exact ⟨rfl, r, rfl, rfl⟩

@[simp]
theorem Reading.start_default (line : Text) : Reading.start {} line = { state := {} } := rfl

end ConfigShell.Line
