import ConfigShell.Proofs.Probe.Pieces
/-!
# Only so many candidates

Of the candidates that an answer names, the first `maxCandidates` that fit are collected. Where the
last of them is, the answer is over as far as the parameter goes: no later line changes it, but one
that names a candidate, fitting or not, is noted as one too many (`Probe.collected_capped`).
`Collects` says what lines come to when there is no limit; an intake does the same as long as it has
room (`Intake.exists_taken`), and then only looks out for one line more
(`Intake.parameter_of_full`).
-/

namespace ConfigShell.Probe

variable {p q : Parameter} {line : Text} {lines : List Text} {n : Nat}

/-! ## Lines that name a candidate -/

/-- The line is a mark and a word, and nothing is left open behind the word. -/
def IsWellFormed (line : Text) : Prop :=
  ∃ (mark : UInt8) (rest : Text) (lexed : Line.Lexed) (token : Line.Token),
    line = mark :: rest ∧ (mark = 0x2D ∨ mark = 0x2A) ∧ Line.lex rest = .ok lexed ∧
      lexed.tokens = [token] ∧ lexed.state.isOpen = false

theorem isWellFormed_iff (line : Text) :
    IsWellFormed line ↔ (candidate? line).isSome = true := by
  constructor
  · rintro ⟨mark, rest, lexed, token, rfl, hmark, hlex, htokens, hclosed⟩
    have hmarked : (mark == 0x2D || mark == 0x2A) = true := by
      simpa using hmark
    obtain ⟨tokens, state, states, isComment, source⟩ := lexed
    obtain rfl : tokens = [token] := htokens
    have hstate : state.isOpen = false := hclosed
    simp [candidate?, hmarked, hlex, hstate]
  · intro hsome
    obtain ⟨⟨token, required⟩, hcandidate⟩ := Option.isSome_iff_exists.mp hsome
    unfold candidate? at hcandidate
    split at hcandidate
    · cases hcandidate
    · rename_i mark rest
      split at hcandidate
      · rename_i hmark
        split at hcandidate
        · rename_i lexedToken state states isComment source hlex
          split at hcandidate
          · cases hcandidate
          · rename_i hclosed
            exact ⟨mark, rest, _, _, rfl, by simpa using hmark, hlex, rfl, by simpa using hclosed⟩
        · cases hcandidate
      · cases hcandidate

instance (line : Text) : Decidable (IsWellFormed line) :=
  decidable_of_iff _ (isWellFormed_iff line).symm

/-- The parameter with the candidate that a line names, if it names one that fits. -/
def acceptLine (p : Parameter) (line : Text) : Option Parameter :=
  (candidate? line).bind fun (token, required) => accept p token required

/-- How many candidates a parameter has. -/
def candidateCount (p : Parameter) : Nat := p.keys.length + p.requiredKeys.length + p.values.length

/-- A candidate is kept in one of the three lists, and nothing is said against the parameter. -/
theorem of_accept {token : Line.Token} {required : Bool} (h : accept p token required = some q) :
    candidateCount q = candidateCount p + 1 ∧ q.fault = p.fault := by
  unfold accept at h
  split at h
  · unfold acceptKeyed at h
    split at h
    · cases h
    · split at h
      · cases h
        simp [candidateCount]
        omega
      · cases h
  · cases h
    unfold acceptBare
    split
    · split
      · simp [candidateCount]
        omega
      · simp [candidateCount]
        omega
    · simp [candidateCount]
      omega

theorem of_acceptLine (h : acceptLine p line = some q) :
    candidateCount q = candidateCount p + 1 ∧ q.fault = p.fault := by
  obtain ⟨⟨token, required⟩, -, haccept⟩ := Option.bind_eq_some_iff.mp h
  exact of_accept haccept

/-! ## Without a limit -/

/-- Taken one after another, however many there are, the lines make `q` of the parameter `p`, and
`n` of them are accepted. -/
inductive Collects : Parameter → List Text → Nat → Parameter → Prop
  | nil (p : Parameter) : Collects p [] 0 p
  | accepted {p p' q : Parameter} {line : Text} {rest : List Text} {n : Nat}
      (fits : acceptLine p line = some p') (others : Collects p' rest n q) :
      Collects p (line :: rest) (n + 1) q
  | passed {p q : Parameter} {line : Text} {rest : List Text} {n : Nat}
      (misfit : acceptLine p line = none) (others : Collects p rest n q) :
      Collects p (line :: rest) n q

namespace Collects

/-- Each line that is accepted adds one candidate. -/
theorem candidateCount_eq (h : Collects p lines n q) : candidateCount q = candidateCount p + n := by
  induction h with
  | nil p => rfl
  | accepted fits others ih =>
    have hsize := (of_acceptLine fits).1
    omega
  | passed misfit others ih => exact ih

theorem fault_eq (h : Collects p lines n q) : q.fault = p.fault := by
  induction h with
  | nil p => rfl
  | accepted fits others ih => exact ih.trans (of_acceptLine fits).2
  | passed misfit others ih => exact ih

end Collects

/-- With `k` candidates before them, the lines fill up the room at their end at the earliest. -/
def LeavesRoom (k : Nat) (p : Parameter) (taken : List Text) : Prop :=
  ∀ shorter m r, shorter <+: taken → shorter ≠ taken → Collects p shorter m r →
    k + m < maxCandidates

namespace LeavesRoom

variable {k : Nat} {taken : List Text}

theorem nil (k : Nat) (p : Parameter) : LeavesRoom k p [] := by
  intro shorter m r hprefix hne
  exact absurd (List.prefix_nil.mp hprefix) hne

theorem accepted (hroom : k < maxCandidates) (hfits : acceptLine p line = some q)
    (h : LeavesRoom (k + 1) q taken) : LeavesRoom k p (line :: taken) := by
  intro shorter m r hprefix hne hcollects
  cases shorter with
  | nil =>
    cases hcollects
    exact hroom
  | cons line' rest =>
    obtain ⟨rfl, hrest⟩ := List.cons_prefix_cons.mp hprefix
    have hne : rest ≠ taken := fun hsame => hne (congrArg _ hsame)
    cases hcollects with
    | accepted fits others =>
      cases hfits.symm.trans fits
      have hless := h rest _ r hrest hne others
      omega
    | passed misfit others => cases hfits.symm.trans misfit

theorem passed (hroom : k < maxCandidates) (hmisfit : acceptLine p line = none)
    (h : LeavesRoom k p taken) : LeavesRoom k p (line :: taken) := by
  intro shorter m r hprefix hne hcollects
  cases shorter with
  | nil =>
    cases hcollects
    exact hroom
  | cons line' rest =>
    obtain ⟨rfl, hrest⟩ := List.cons_prefix_cons.mp hprefix
    have hne : rest ≠ taken := fun hsame => hne (congrArg _ hsame)
    cases hcollects with
    | accepted fits others => cases hmisfit.symm.trans fits
    | passed misfit others => exact h rest m r hrest hne others

end LeavesRoom

namespace Intake

variable {i : Intake}

/-! ## With room left -/

theorem takeLine_of_accepted (hroom : i.count < maxCandidates)
    (h : acceptLine i.parameter line = some q) :
    i.takeLine line = { i with parameter := q, count := i.count + 1 } := by
  obtain ⟨⟨token, required⟩, hcandidate, haccept⟩ := Option.bind_eq_some_iff.mp h
  have hroom' : ¬ maxCandidates ≤ i.count := Nat.not_le_of_lt hroom
  simp only [takeLine, hcandidate, if_neg hroom', haccept]

theorem takeLine_of_passed (hroom : i.count < maxCandidates)
    (h : acceptLine i.parameter line = none) : i.takeLine line = i := by
  have hroom' : ¬ maxCandidates ≤ i.count := Nat.not_le_of_lt hroom
  cases hcandidate : candidate? line with
  | none => simp only [takeLine, hcandidate]
  | some candidate =>
    obtain ⟨token, required⟩ := candidate
    have haccept : accept i.parameter token required = none := by
      rw [acceptLine, hcandidate] at h
      exact h
    simp only [takeLine, hcandidate, if_neg hroom', haccept]

/-- **As long as there is room**, lines are taken as if there were no limit. The lines that are taken
so are all, or else the last of them fills up the room: before it there was some left. -/
theorem exists_taken (hroom : i.count ≤ maxCandidates) (lines : List Text) :
    ∃ (taken later : List Text) (q : Parameter) (n : Nat),
      lines = taken ++ later ∧ Collects i.parameter taken n q ∧
      taken.foldl takeLine i = { i with parameter := q, count := i.count + n } ∧
      (i.count + n = maxCandidates ∨ i.count + n < maxCandidates ∧ later = []) ∧
      LeavesRoom i.count i.parameter taken := by
  induction lines generalizing i with
  | nil =>
    refine ⟨[], [], i.parameter, 0, rfl, .nil _, rfl, ?_, .nil _ _⟩
    rcases Nat.eq_or_lt_of_le hroom with hfull | hless
    · exact .inl hfull
    · exact .inr ⟨hless, rfl⟩
  | cons line rest ih =>
    by_cases hfull : i.count = maxCandidates
    · exact ⟨[], line :: rest, i.parameter, 0, rfl, .nil _, rfl, .inl hfull, .nil _ _⟩
    · have hless : i.count < maxCandidates := Nat.lt_of_le_of_ne hroom hfull
      cases haccept : acceptLine i.parameter line with
      | some p' =>
        have htake := takeLine_of_accepted hless haccept
        obtain ⟨taken, later, q, n, hlines, hcollects, hrun, hend, hleaves⟩ :=
          ih (i := { i with parameter := p', count := i.count + 1 }) hless
        have hcount : i.count + (n + 1) = i.count + 1 + n := by omega
        refine ⟨line :: taken, later, q, n + 1, ?_, .accepted haccept hcollects, ?_, ?_,
          hleaves.accepted hless haccept⟩
        · rw [hlines, List.cons_append]
        · rw [List.foldl_cons, htake, hrun, hcount]
        · rw [hcount]
          exact hend
      | none =>
        have htake := takeLine_of_passed hless haccept
        obtain ⟨taken, later, q, n, hlines, hcollects, hrun, hend, hleaves⟩ := ih hroom
        refine ⟨line :: taken, later, q, n, ?_, .passed haccept hcollects, ?_, hend,
          hleaves.passed hless haccept⟩
        · rw [hlines, List.cons_append]
        · rw [List.foldl_cons, htake, hrun]

/-! ## Without room -/

/-- The parameter, with the note that there was one candidate too many if it has no other fault. -/
def noteOverflow (p : Parameter) : Parameter :=
  { p with fault := some (p.fault.getD (.tooManyCandidates maxCandidates)) }

/-- What has been noted stays. -/
theorem noteOverflow_noteOverflow (p : Parameter) : noteOverflow (noteOverflow p) = noteOverflow p :=
  rfl

/-- A line that names a candidate for which there is no room is noted, and does nothing else. -/
theorem takeLine_of_full (hfull : maxCandidates ≤ i.count) (line : Text) :
    i.takeLine line =
      { i with parameter := if IsWellFormed line then noteOverflow i.parameter else i.parameter } := by
  cases hcandidate : candidate? line with
  | none =>
    have hno : ¬ IsWellFormed line := by
      rw [isWellFormed_iff, hcandidate]
      exact Bool.false_ne_true
    rw [if_neg hno]
    simp only [takeLine, hcandidate]
  | some candidate =>
    have hyes : IsWellFormed line := by
      rw [isWellFormed_iff, hcandidate]
      rfl
    rw [if_pos hyes]
    simp only [takeLine, hcandidate, if_pos hfull, noteOverflow]

/-- **Without room** all that lines can do is to be noted. -/
theorem parameter_of_full (hfull : maxCandidates ≤ i.count) (lines : List Text) :
    (lines.foldl takeLine i).parameter =
      if ∃ line ∈ lines, IsWellFormed line then noteOverflow i.parameter else i.parameter := by
  induction lines generalizing i with
  | nil =>
    have hno : ¬ ∃ line ∈ ([] : List Text), IsWellFormed line := by simp
    rw [if_neg hno]
    rfl
  | cons line rest ih =>
    have htake := takeLine_of_full hfull line
    have hnext : maxCandidates ≤ (i.takeLine line).count := by
      rw [htake]
      exact hfull
    rw [List.foldl_cons, ih hnext, htake]
    by_cases hformed : IsWellFormed line
    · simp [hformed, noteOverflow_noteOverflow]
    · simp [hformed]

end Intake

/-! ## The whole answer -/

/-- Nothing has been collected for the parameter, and nothing is said against it. -/
structure IsFresh (p : Parameter) : Prop where
  keys : p.keys = []
  requiredKeys : p.requiredKeys = []
  values : p.values = []
  fault : p.fault = none

theorem IsFresh.candidateCount_eq (h : IsFresh p) : candidateCount p = 0 := by
  simp [candidateCount, h.keys, h.requiredKeys, h.values]

/-- **Only so many candidates are collected.** Of the lines of an answer those are taken, for a
parameter for which nothing has been collected, that go up to the last of the first `maxCandidates`
accepted ones, or all if fewer are accepted. These lines alone make the parameter what it is in the
end, and it has a candidate for each accepted one. What comes after them is noted if, and only if, one
more line names a candidate, whether or not that would fit. It is the same whatever pieces these lines
come in, and whatever longer ones are between them. -/
theorem collected_capped (hfresh : IsFresh p) (lines : List Text) :
    ∃ (taken later : List Text) (q : Parameter) (n : Nat),
      lines = taken ++ later ∧ Collects p taken n q ∧
      (n = maxCandidates ∨ n < maxCandidates ∧ later = []) ∧
      (∀ shorter m r, shorter <+: taken → shorter ≠ taken → Collects p shorter m r →
        m < maxCandidates) ∧
      (taken.foldl Intake.takeLine { parameter := p }).parameter = q ∧
      (lines.foldl Intake.takeLine { parameter := p }).parameter = { q with
        fault := if ∃ line ∈ later, IsWellFormed line then some (.tooManyCandidates maxCandidates)
          else none } ∧
      q.keys.length + q.requiredKeys.length + q.values.length = n ∧
      ∀ (pieces : List Text) (all : List Text) (rest : Text), Text.CutsInto pieces.flatten all rest →
        all.filter (·.length < maxLine) = lines →
        (pieces.foldl Intake.feed { parameter := p }).parameter =
          (lines.foldl Intake.takeLine { parameter := p }).parameter := by
  have hroom : (0 : Nat) ≤ maxCandidates := Nat.zero_le _
  obtain ⟨taken, later, q, n, hlines, hcollects, hrun, hend, hleaves⟩ :=
    Intake.exists_taken (i := { parameter := p }) hroom lines
  simp only [Nat.zero_add] at hrun hend
  have hfault : q.fault = none := hcollects.fault_eq.trans hfresh.fault
  refine ⟨taken, later, q, n, hlines, hcollects, hend, ?_, by rw [hrun], ?_, ?_, ?_⟩
  · intro shorter m r hprefix hne hfewer
    have hless := hleaves shorter m r hprefix hne hfewer
    rwa [Nat.zero_add] at hless
  · rw [hlines, List.foldl_append, hrun]
    rcases hend with hfull | ⟨-, hall⟩
    · rw [Intake.parameter_of_full (Nat.le_of_eq hfull.symm)]
      split
      · rw [Intake.noteOverflow, hfault]
        rfl
      · rw [← hfault]
    · have hno : ¬ ∃ line ∈ later, IsWellFormed line := by simp [hall]
      rw [if_neg hno, hall, ← hfault]
      rfl
  · have hsize := hcollects.candidateCount_eq
    rw [hfresh.candidateCount_eq, Nat.zero_add] at hsize
    exact hsize
  · intro pieces all rest hcut hshort
    obtain ⟨all', rest', hcut', hread⟩ := Intake.exists_hasRead p pieces
    obtain ⟨rfl, -⟩ :=
      Prod.mk.inj ((Intake.cutLines_eq hcut).symm.trans (Intake.cutLines_eq hcut'))
    have hcollected := congrArg Intake.parameter hread.collected
    rw [Intake.takeLines, hshort] at hcollected
    exact hcollected

/-- A parameter without a key. -/
def bareParameter : Parameter := { name := some [], command := none }

/-- As many values as there is room for, a line that names nothing, and a key. -/
def longAnswer : List Text := List.replicate maxCandidates ("-a" : Text) ++ [("b" : Text), "*c="]

/-- The key is one candidate too many, though it fits. -/
theorem collected_capped_longAnswer :
    ∃ (taken later : List Text) (q : Parameter),
      longAnswer = taken ++ later ∧ Collects bareParameter taken maxCandidates q ∧
      (∃ line ∈ later, IsWellFormed line) ∧ q.fault = none ∧
      q.keys.length + q.requiredKeys.length + q.values.length = maxCandidates ∧
      (longAnswer.foldl Intake.takeLine { parameter := bareParameter }).parameter =
        { q with fault := some (.tooManyCandidates maxCandidates) } := by
  have hfresh : IsFresh bareParameter := ⟨rfl, rfl, rfl, rfl⟩
  obtain ⟨taken, later, q, n, hlines, hcollects, hend, -, -, hresult, hsize, -⟩ :=
    collected_capped hfresh longAnswer
  have hnoted : (longAnswer.foldl Intake.takeLine
      { parameter := bareParameter }).parameter.fault = some (.tooManyCandidates maxCandidates) := by
    decide +kernel
  by_cases hlater : ∃ line ∈ later, IsWellFormed line
  · rw [if_pos hlater] at hresult
    rcases hend with rfl | ⟨-, rfl⟩
    · exact ⟨taken, later, q, hlines, hcollects, hlater, hcollects.fault_eq, hsize, hresult⟩
    · simp at hlater
  · rw [hresult, if_neg hlater] at hnoted
    cases hnoted

end ConfigShell.Probe
