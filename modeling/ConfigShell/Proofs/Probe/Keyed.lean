import ConfigShell.Proofs.Line.ReadBack
import ConfigShell.Proofs.Line.Recovery
import ConfigShell.Proofs.Probe.Pieces
import ConfigShell.Proofs.Text.Boundary
/-!
# The values of a key

Asked about a parameter that has a key, a command declares values for keys, one a line. A line is
accepted if its word begins with the key, and the longer one of this key and the line's own takes
the key's place for the lines to come (`Declaration.Chain`). So the typed key is a beginning of the
key in the end, and of every key that a value has been declared with (`Probe.values_of_key`). Which
key the typed one stands for is up to the first line that matches: unless a line goes on from its
key to another one, this is the key in the end, and all values have been declared with it.
-/

namespace ConfigShell

/-! ## What a line declares -/

/-- A plain equals sign stands between a key and a value. -/
theorem Line.Segment.exists_split {segments : List Segment} {n : Nat}
    (h : equalsIndex segments = some n) :
    ∃ key value, segments.flatMap decoded = key ++ 0x3D :: value ∧ key.length = n := by
  induction segments generalizing n with
  | nil => cases h
  | cons s rest ih =>
    rw [equalsIndex] at h
    split at h
    · rename_i hequals
      obtain rfl := Option.some.inj h
      cases s with
      | plain b isPlain =>
        obtain rfl : b = 0x3D := beq_iff_eq.mp hequals
        exact ⟨[], rest.flatMap decoded, rfl, rfl⟩
      | escape | single | double => cases hequals
    · obtain ⟨m, hm, rfl⟩ := Option.map_eq_some_iff.mp h
      obtain ⟨key, value, hdata, hlength⟩ := ih hm
      exact ⟨s.decoded ++ key, value, by simp [hdata], by simp [hlength]⟩

/-- The key and the value of a word of a line make up the word, with an equals sign between. -/
theorem Line.WrittenWord.data_of_splitEquals {u : WrittenWord} {t : Token} {key : Text}
    (h : (u.decoded, (Segment.equalsIndex u.segments).map Int.ofNat) = (t.data, t.equals))
    (hkey : t.splitEquals.1 = some key) : t.data = key ++ 0x3D :: t.splitEquals.2 := by
  obtain ⟨hdata, hequals⟩ := Prod.mk.inj h
  cases hindex : Segment.equalsIndex u.segments with
  | none =>
    rw [hindex] at hequals
    simp [Token.splitEquals, ← hequals] at hkey
  | some n =>
    obtain ⟨front, back, hsplit, rfl⟩ := Segment.exists_split hindex
    rw [hindex] at hequals
    have htoken : t.data = front ++ 0x3D :: back := hdata.symm.trans hsplit
    have hvalue : Signed.drop ((front.length : Int) + 1) t.data = back := by
      rw [htoken]
      exact (Signed.drop_natCast (front.length + 1) _).trans (by simp)
    simp only [Token.splitEquals, ← hequals, Option.map_some, Int.ofNat_eq_natCast,
      Option.some.injEq] at hkey ⊢
    rw [hvalue, ← hkey, htoken, Signed.take_natCast, List.take_left]

namespace Probe

/-- A value for a key. -/
structure Declaration where
  key : Text
  value : Text
  deriving Repr, DecidableEq

namespace Declaration

/-- The word that it is declared by. -/
def word (d : Declaration) : Text := d.key ++ 0x3D :: d.value

theorem beginsWith_key (d : Declaration) : Text.beginsWith d.word d.key = true :=
  Text.beginsWith_append_ascii (by decide) _ _

/-- A beginning of the word that hides no equals sign is one of the key. -/
theorem beginsWith_word {start : Text} (h : 0x3D ∉ start) (d : Declaration) :
    Text.beginsWith d.word start = Text.beginsWith d.key start :=
  Bool.eq_iff_iff.mpr ⟨fun hword => Text.beginsWith_of_not_mem (by decide) hword h,
    fun hkey => Text.beginsWith_trans hkey d.beginsWith_key⟩

end Declaration

/-- What a line declares. -/
def declaration? (line : Text) : Option Declaration :=
  (candidate? line).bind fun (token, _) =>
    token.splitEquals.1.map fun key => ⟨key, token.splitEquals.2⟩

/-- The word of a candidate is what is declared. -/
theorem data_of_candidate {line : Text} {token : Line.Token} {required : Bool} {key : Text}
    (h : candidate? line = some (token, required)) (hkey : token.splitEquals.1 = some key) :
    token.data = (Declaration.mk key token.splitEquals.2).word := by
  obtain ⟨rest, lexed, hlex, htokens, hclosed⟩ : ∃ rest lexed, Line.lex rest = .ok lexed ∧
      lexed.tokens = [token] ∧ lexed.state.isOpen = false := by
    unfold candidate? at h
    grind
  have hcomment : lexed.isComment = false := by
    unfold Line.lex at hlex
    grind [Line.Reading.finish]
  obtain ⟨layout, -, -, hlayout⟩ := Line.exists_layout_of_lex hlex hcomment hclosed
  have hcontents := layout.contents_tokens
  rw [← hlayout, htokens, List.map_singleton] at hcontents
  obtain ⟨u, -, hu⟩ := List.map_eq_singleton_iff.mp hcontents.symm
  exact Line.WrittenWord.data_of_splitEquals hu hkey

/-! ## One line -/

variable {i : Intake} {key last : Text} {d : Declaration} {line : Text}

namespace Declaration

/-- The key for the lines to come, when the declaration has been accepted for the key so far. -/
def extend (key : Text) (d : Declaration) : Text :=
  if Text.width key ≤ Text.width d.key then d.key else key

theorem extend_of_beginsWith (h : Text.beginsWith d.key key = true) : d.extend key = d.key :=
  if_pos (Text.width_le_of_beginsWith h)

/-- The key only becomes longer. -/
theorem beginsWith_extend (fits : Text.beginsWith d.word key = true) :
    Text.beginsWith (d.extend key) key = true := by
  unfold extend
  split
  · rename_i hlonger
    exact Text.beginsWith_of_width_le fits d.beginsWith_key hlonger
  · exact Text.beginsWith_refl key

end Declaration

/-- The parameter with what a line declares, if that fits. -/
theorem accept_eq {p : Parameter} {token : Line.Token} {required : Bool} (hkey : p.key = some key)
    (h : candidate? line = some (token, required)) :
    accept p token required =
      ((declaration? line).filter (Text.beginsWith ·.word key)).map fun d =>
        { p with
          isRequired := p.isRequired || required, values := p.values ++ [d.value]
          key := some (d.extend key) } := by
  have hdeclaration : declaration? line =
      token.splitEquals.1.map fun own => ⟨own, token.splitEquals.2⟩ := by
    rw [declaration?, h, Option.bind_some]
  rw [hdeclaration, accept, hkey]
  dsimp only
  unfold acceptKeyed
  split
  · rename_i hsplit
    rw [hsplit]
    rfl
  · rename_i own value hsplit
    have hword := data_of_candidate h (congrArg Prod.fst hsplit)
    rw [hsplit] at hword ⊢
    rw [Option.map_some, Option.filter_some, ← hword]
    split <;> rfl

namespace Intake

/-- The line adds a candidate. -/
def Accepts (i : Intake) (line : Text) : Prop := i.count < (i.takeLine line).count

instance (i : Intake) (line : Text) : Decidable (i.Accepts line) :=
  inferInstanceAs (Decidable (i.count < (i.takeLine line).count))

/-- All that a line can do to an intake for a parameter with the key. -/
inductive TakesFor (key : Text) (i : Intake) (line : Text) : Prop
  | passed (not_accepted : ¬ i.Accepts line)
      (sameKey : (i.takeLine line).parameter.key = some key)
      (sameValues : (i.takeLine line).parameter.values = i.parameter.values)
      (sameCount : (i.takeLine line).count = i.count)
      (misfit : i.count < maxCandidates →
        ∀ d, declaration? line = some d → Text.beginsWith d.word key = false)
  | accepted {d : Declaration} (accepts : i.Accepts line) (declares : declaration? line = some d)
      (fits : Text.beginsWith d.word key = true)
      (newKey : (i.takeLine line).parameter.key = some (d.extend key))
      (newValues : (i.takeLine line).parameter.values = i.parameter.values ++ [d.value])

theorem TakesFor.of_same (hkey : (i.takeLine line).parameter.key = some key)
    (hvalues : (i.takeLine line).parameter.values = i.parameter.values)
    (hcount : (i.takeLine line).count = i.count) (misfit : i.count < maxCandidates →
      ∀ d, declaration? line = some d → Text.beginsWith d.word key = false) :
    TakesFor key i line :=
  .passed (fun haccepts => Nat.ne_of_lt haccepts hcount.symm) hkey hvalues hcount misfit

/-- **A line is accepted if what it declares fits**, as long as there is room. -/
theorem takesFor (hkey : i.parameter.key = some key) (line : Text) : TakesFor key i line := by
  have hunchanged (h : i.takeLine line = i) (misfit : i.count < maxCandidates →
      ∀ d, declaration? line = some d → Text.beginsWith d.word key = false) :
      TakesFor key i line :=
    .of_same (h.symm ▸ hkey) (by rw [h]) (by rw [h]) misfit
  cases hcandidate : candidate? line with
  | none =>
    refine hunchanged (by rw [takeLine, hcandidate]) fun _ d hd => ?_
    simp [declaration?, hcandidate] at hd
  | some candidate =>
    obtain ⟨token, required⟩ := candidate
    by_cases hfull : maxCandidates ≤ i.count
    · refine .of_same ?_ ?_ ?_ fun hroom => absurd hroom (Nat.not_lt_of_le hfull)
      all_goals simp [takeLine, hcandidate, hfull, hkey]
    · have haccept := accept_eq hkey hcandidate
      cases hfitting : (declaration? line).filter (Text.beginsWith ·.word key) with
      | none =>
        rw [hfitting] at haccept
        refine hunchanged (by simp [takeLine, hcandidate, hfull, haccept]) fun _ d hd => ?_
        rw [hd, Option.filter_some] at hfitting
        simpa using hfitting
      | some d =>
        rw [hfitting] at haccept
        obtain ⟨declares, fits⟩ := Option.filter_eq_some_iff.mp hfitting
        refine .accepted ?_ declares fits ?_ ?_
        all_goals simp [Accepts, takeLine, hcandidate, hfull, haccept]

/-! ## One line after another -/

/-- What the accepted lines declare. -/
def accepted : Intake → List Text → List Declaration
  | _, [] => []
  | i, line :: rest =>
    (if i.Accepts line then (declaration? line).toList else []) ++ (i.takeLine line).accepted rest

theorem accepted_cons_of_not (h : ¬ i.Accepts line) (rest : List Text) :
    i.accepted (line :: rest) = (i.takeLine line).accepted rest := by
  simp [accepted, h]

theorem accepted_cons (h : i.Accepts line) (hd : declaration? line = some d) (rest : List Text) :
    i.accepted (line :: rest) = d :: (i.takeLine line).accepted rest := by
  simp [accepted, h, hd]

end Intake

/-- Declarations that fit one after another, and the key that they make of one. -/
inductive Declaration.Chain : Text → List Declaration → Text → Prop
  | nil (key : Text) : Chain key [] key
  | cons {key last : Text} {d : Declaration} {rest : List Declaration}
      (fits : Text.beginsWith d.word key = true) (others : Chain (d.extend key) rest last) :
      Chain key (d :: rest) last

namespace Declaration.Chain

variable {ds : List Declaration}

/-- The key is a beginning of the one in the end. -/
theorem beginsWith_last (h : Chain key ds last) : Text.beginsWith last key = true := by
  induction h with
  | nil key => exact Text.beginsWith_refl key
  | cons fits others ih => exact Text.beginsWith_trans (beginsWith_extend fits) ih

/-- All of them fit the key from the start. -/
theorem fits (h : Chain key ds last) : ∀ d ∈ ds, Text.beginsWith d.word key = true := by
  induction h with
  | nil => nofun
  | cons fits others ih =>
    refine List.forall_mem_cons.mpr ⟨fits, fun d hd => ?_⟩
    exact Text.beginsWith_trans (beginsWith_extend fits) (ih d hd)

/-- A key that all of them have stays. -/
theorem last_eq (h : Chain key ds last) (hkeys : ∀ d ∈ ds, d.key = key) : last = key := by
  induction h with
  | nil => rfl
  | cons fits others ih =>
    obtain ⟨hfirst, hrest⟩ := List.forall_mem_cons.mp hkeys
    rw [extend_of_beginsWith (by simp [hfirst]), hfirst] at ih
    exact ih hrest

/-- Where all that fit the key of the first have it, it is the key in the end. -/
theorem settles {first : Declaration} (h : Chain key (first :: ds) last)
    (hfirst : Text.beginsWith first.key key = true)
    (hkeys : ∀ d ∈ ds, Text.beginsWith d.word first.key = true → d.key = first.key) :
    last = first.key ∧ ∀ d ∈ ds, d.key = first.key := by
  cases h with
  | cons fits others =>
    rw [extend_of_beginsWith hfirst] at others
    have hsame (d : Declaration) (hd : d ∈ ds) := hkeys d hd (others.fits d hd)
    exact ⟨others.last_eq hsame, hsame⟩

end Declaration.Chain

namespace Intake

/-- **The accepted lines fit one after another**, and their values are collected. -/
theorem chain_accepted (hkey : i.parameter.key = some key) (lines : List Text) :
    ∃ last, (lines.foldl takeLine i).parameter.key = some last ∧
      Declaration.Chain key (i.accepted lines) last ∧
      (lines.foldl takeLine i).parameter.values =
        i.parameter.values ++ (i.accepted lines).map (·.value) := by
  induction lines generalizing i key with
  | nil => exact ⟨key, hkey, .nil key, (List.append_nil _).symm⟩
  | cons line rest ih =>
    cases takesFor hkey line with
    | passed not_accepted sameKey sameValues =>
      obtain ⟨last, hlast, hchain, hvalues⟩ := ih sameKey
      rw [accepted_cons_of_not not_accepted]
      exact ⟨last, hlast, hchain, sameValues ▸ hvalues⟩
    | accepted accepts declares fits newKey newValues =>
      obtain ⟨last, hlast, hchain, hvalues⟩ := ih newKey
      rw [accepted_cons accepts declares]
      refine ⟨last, hlast, .cons fits hchain, ?_⟩
      rw [newValues, List.append_assoc] at hvalues
      exact hvalues

/-- Accepted lines are lines. -/
theorem accepted_sublist (hkey : i.parameter.key = some key) (lines : List Text) :
    (i.accepted lines).Sublist (lines.filterMap declaration?) := by
  induction lines generalizing i key with
  | nil => exact .slnil
  | cons line rest ih =>
    cases takesFor hkey line with
    | passed not_accepted sameKey =>
      rw [accepted_cons_of_not not_accepted, List.filterMap_cons]
      split
      · exact ih sameKey
      · exact (ih sameKey).cons _
    | accepted accepts declares fits newKey =>
      rw [accepted_cons accepts declares, List.filterMap_cons_some declares]
      exact (ih newKey).cons_cons _

/-- **The first line that fits is the first that is accepted.** -/
theorem head?_accepted (hkey : i.parameter.key = some key) (hroom : i.count < maxCandidates)
    (lines : List Text) :
    (i.accepted lines).head? =
      (lines.filterMap declaration?).find? (Text.beginsWith ·.word key) := by
  induction lines generalizing i with
  | nil => rfl
  | cons line rest ih =>
    cases takesFor hkey line with
    | passed not_accepted sameKey sameValues sameCount misfit =>
      rw [accepted_cons_of_not not_accepted, ih sameKey (sameCount ▸ hroom), List.filterMap_cons]
      split
      · rfl
      · rename_i d hd
        rw [List.find?_cons_of_neg (by simp [misfit hroom d hd])]
    | accepted accepts declares fits =>
      rw [accepted_cons accepts declares, List.filterMap_cons_some declares, List.find?_cons, fits]
      rfl

end Intake

/-! ## The whole answer -/

/-- What lines declare that are not too long. -/
def declared (lines : List Text) : List Declaration :=
  (lines.filter (·.length < maxLine)).filterMap declaration?

/-- What those of them declare that are accepted for a parameter. -/
def acceptedFor (p : Parameter) (lines : List Text) : List Declaration :=
  Intake.accepted { parameter := p } (lines.filter (·.length < maxLine))

/-- **The values of a key.** A typed key without an equals sign is a beginning of the key that it
becomes, and of the key that each value has been declared with. It stays if no line declares a value
for a key that begins with it. Otherwise the first such line is accepted: unless a line goes on from
its key to another one, this is the key in the end, and each value has been declared with it. -/
theorem values_of_key {p : Parameter} {typed : Text} (hkey : p.key = some typed)
    (hplain : 0x3D ∉ typed) (pieces : List Text) :
    ∃ (lines : List Text) (rest : Text) (q : Parameter) (key : Text),
      Text.CutsInto pieces.flatten lines rest ∧
      (pieces.foldl Intake.feed { parameter := p }).parameter = q ∧
      q.key = some key ∧ Text.beginsWith key typed = true ∧
      q.values = p.values ++ (acceptedFor p lines).map (·.value) ∧
      (acceptedFor p lines).Sublist (declared lines) ∧
      (∀ d ∈ acceptedFor p lines, Text.beginsWith d.key typed = true) ∧
      ((∀ d ∈ declared lines, Text.beginsWith d.key typed = false) → key = typed) ∧
      ∀ first, (declared lines).find? (Text.beginsWith ·.key typed) = some first →
        first ∈ acceptedFor p lines ∧
        ((∀ d ∈ declared lines, Text.beginsWith d.word first.key = true → d.key = first.key) →
          key = first.key ∧ ∀ d ∈ acceptedFor p lines, d.key = key) := by
  obtain ⟨lines, rest, hcut, hread⟩ := Intake.exists_hasRead p pieces
  have hq := congrArg Intake.parameter hread.collected
  have hstart : (Intake.mk p 0 [] false).parameter.key = some typed := hkey
  obtain ⟨key, hlast, hchain, hvalues⟩ :=
    Intake.chain_accepted hstart (lines.filter (·.length < maxLine))
  have hsublist : (acceptedFor p lines).Sublist (declared lines) :=
    Intake.accepted_sublist hstart _
  have hhead : (acceptedFor p lines).head? =
      (declared lines).find? (Text.beginsWith ·.key typed) := by
    have hroom : 0 < maxCandidates := by decide
    have hfirst := Intake.head?_accepted hstart hroom (lines.filter (·.length < maxLine))
    simp only [Declaration.beginsWith_word hplain] at hfirst
    exact hfirst
  refine ⟨lines, rest, _, key, hcut, hq, hlast,
    hchain.beginsWith_last, hvalues, hsublist, fun d hd => ?_, fun hnone => ?_,
    fun first hfirst => ?_⟩
  · rw [← Declaration.beginsWith_word hplain]
    exact hchain.fits d hd
  · have hempty : acceptedFor p lines = [] := by
      rw [← List.head?_eq_none_iff, hhead, List.find?_eq_none]
      exact fun d hd => by simp [hnone d hd]
    refine hchain.last_eq fun d hd => ?_
    rw [show Intake.accepted _ _ = [] from hempty] at hd
    cases hd
  · rw [hfirst] at hhead
    obtain ⟨others, hothers⟩ := List.head?_eq_some_iff.mp hhead
    refine ⟨hothers ▸ List.mem_cons_self, fun hsettled => ?_⟩
    rw [show Intake.accepted _ _ = first :: others from hothers] at hchain
    have hbegins : Text.beginsWith first.key typed = true := by simpa using List.find?_some hfirst
    obtain ⟨rfl, hkeys⟩ := hchain.settles hbegins fun d hd =>
      hsettled d (hsublist.subset (hothers ▸ List.mem_cons_of_mem _ hd))
    exact ⟨rfl, hothers ▸ List.forall_mem_cons.mpr ⟨rfl, hkeys⟩⟩

/-- A parameter with a key, as it is typed. -/
def keyedHost : Parameter := { name := some "host=", command := none, key := some "host" }

/-- The first line that matches is for a longer key, and only those for this one are accepted. -/
theorem values_of_key_hostname :
    ∃ q, [("-hostname=a\n-ho" : Text), "st=b\n*hostname=c\n"].foldl Intake.feed
        { parameter := keyedHost } = q ∧
      q.parameter.key = some "hostname" ∧ q.parameter.values = [("a" : Text), "c"] := by
  obtain ⟨lines, rest, q, key, hcut, hq, hkey, -, hvalues, -, -, -, hfirst⟩ :=
    values_of_key (show keyedHost.key = some "host" from rfl) (by decide)
      ["-hostname=a\n-ho", "st=b\n*hostname=c\n"]
  have hlines : (Intake.cutLines
      [("-hostname=a\n-ho" : Text), "st=b\n*hostname=c\n"].flatten).1 =
        [("-hostname=a" : Text), "-host=b", "*hostname=c"] := by decide +kernel
  rw [Intake.cutLines_eq hcut] at hlines
  obtain rfl : lines = _ := hlines
  obtain ⟨-, hsettles⟩ := hfirst ⟨"hostname", "a"⟩ (by decide +kernel)
  obtain ⟨rfl, -⟩ := hsettles (by decide +kernel)
  refine ⟨_, rfl, hq ▸ hkey, hq ▸ hvalues.trans ?_⟩
  decide +kernel

/-- A line may declare a value for the typed key when a longer one has taken its place. A value that
has been declared before that stays. -/
theorem host_taken_by_hostname :
    ⟨"host", "b"⟩ ∈ declared ["-hostname=a", "-host=b"] ∧
      (collect keyedHost "-hostname=a\n-host=b\n").key = some "hostname" ∧
    acceptedFor keyedHost ["-host=a", "-hostname=b"] = [⟨"host", "a"⟩, ⟨"hostname", "b"⟩] ∧
      (collect keyedHost "-host=a\n-hostname=b\n").key = some "hostname" ∧
      (collect keyedHost "-host=a\n-hostname=b\n").values = [("a" : Text), "b"] := by
  decide +kernel

end Probe

end ConfigShell
