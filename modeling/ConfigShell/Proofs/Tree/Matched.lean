import ConfigShell.Proofs.Text.Beginning
import ConfigShell.Proofs.Tree.Unasked
/-!
# Words matched against candidates

The candidates of a parameter are held in lists, which its command has filled line by line: a word
without a key is matched against three of them, a value of a key against one. Each entry counts,
also where a name has been declared before. A parameter is settled by an entry equal to what has
been typed or by the only entry that begins with it, and it is ambiguous if there are more
(`Parameter.Settles`). A name that has been typed stays the value, and one that has been abbreviated
may become the key, but the command cannot see that: what counts for it is the pair of words.
-/

namespace ConfigShell

open Shell (perform perform_bind_eq_ok_iff perform_bind_of_ok perform_map)

variable {site : Site} {l next : Landing} {command : Command} {p p' : Parameter}
  {word name : Text} {token : Option Line.Token} {journal journal' : Journal}

namespace Parameter

/-! ## What a parameter is matched against -/

/-- The lists that a parameter is matched against. -/
def lists (p : Parameter) : List (List Text) :=
  match p.key with
  | some _ => [p.values]
  | none => [p.keys, p.requiredKeys, p.values]

/-- The candidates, as often as they are in the lists. -/
def candidates (p : Parameter) : List Text := p.lists.flatten

/-- The candidates that begin with what has been typed. -/
def begun (p : Parameter) : List Text := Names.beginningWith p.value p.candidates

/-- The two words that the parameter is for its command with the name for what has been typed. -/
def pairWith (p : Parameter) (name : Text) : Text × Text :=
  match p.key with
  | some key => (key, name)
  | none => (name, [])

/-- The parameter is required, or becomes so by the name. -/
def requires (p : Parameter) (name : Text) : Bool :=
  p.isRequired || (p.key.isNone && p.requiredKeys.contains name)

/-- Without a key the whole word is the value, and it is not required yet. -/
structure IsTyped (p : Parameter) (word : Text) : Prop where
  value : p.key = none → p.value = word
  optional : p.key = none → p.isRequired = false

/-- The parameters have the same lists to be matched against. -/
structure SameOffer (p p' : Parameter) : Prop where
  key : p'.key = p.key
  keys : p'.keys = p.keys
  requiredKeys : p'.requiredKeys = p.requiredKeys
  values : p'.values = p.values
  isRequired : p'.isRequired = p.isRequired

theorem pair_eq (p : Parameter) : p.pair = p.pairWith p.value := by
  unfold pair pairWith
  cases p.key <;> rfl

theorem SameOffer.candidates_eq (h : p.SameOffer p') : p'.candidates = p.candidates := by
  unfold candidates lists
  rw [h.key, h.keys, h.requiredKeys, h.values]

theorem SameOffer.pairWith_eq (h : p.SameOffer p') (name : Text) :
    p'.pairWith name = p.pairWith name := by
  unfold pairWith
  rw [h.key]

theorem SameOffer.requires_eq (h : p.SameOffer p') (name : Text) :
    p'.requires name = p.requires name := by
  unfold requires
  rw [h.isRequired, h.key, h.requiredKeys]

theorem isTyped_ofWord (typed : ∀ t, token = some t → t.data = word) :
    (ofWord command word token).IsTyped word := by
  refine ⟨fun hbare => ?_, fun _ => rfl⟩
  have hdata : (token.getD (Line.Token.ofWord word)).data = word := by
    cases token with
    | none => rfl
    | some t => exact typed t rfl
  unfold ofWord Line.Token.splitEquals at hbare ⊢
  cases hequals : (token.getD (Line.Token.ofWord word)).equals with
  | none => simpa [hequals] using hdata
  | some i => simp [hequals] at hbare

/-- Asking about a word does not change it. -/
theorem IsTyped.answered (h : p.IsTyped word) (hp : Probe.Keeps p p') : p'.IsTyped word := by
  have hbare (hp' : p'.key = none) : p.key = none := by
    have hkeyed := hp.keyed
    rw [hp'] at hkeyed
    simpa using hkeyed.symm
  constructor
  · intro hp'
    exact hp.value.trans (h.value (hbare hp'))
  · intro hp'
    exact (hp.required (hbare hp')).trans (h.optional (hbare hp'))

/-! ## Matching -/

/-- What a parameter comes to when it is matched. The command sees the name that has been typed or
the only one that begins with it; the parameter is ambiguous among all that begin with it
otherwise. -/
inductive Settles (p : Parameter) : Node → Prop
  | named {q : Parameter} (listed : p.value ∈ p.candidates) (pair : q.pair = p.pairWith p.value)
      (required : q.isRequired = p.requires p.value) : Settles p (.parameter q)
  | unknown (none : p.begun = []) : Settles p (.parameter p)
  | begins {q : Parameter} {name : Text} (unlisted : p.value ∉ p.candidates)
      (one : p.begun = [name]) (pair : q.pair = p.pairWith name)
      (required : q.isRequired = p.requires name) : Settles p (.parameter q)
  | ambiguous {a : Ambiguity} (unlisted : p.value ∉ p.candidates) (several : 2 ≤ p.begun.length)
      (all : a.candidates = p.begun) : Settles p (.ambiguous a)

/-- A name equal to what has been typed is not an abbreviation. -/
theorem begun_ne_nil_of_listed (listed : p.value ∈ p.candidates) : p.begun ≠ [] :=
  List.ne_nil_of_mem (List.mem_filter.mpr ⟨listed, Text.beginsWith_refl p.value⟩)

theorem mem_candidates_of_begun (hone : p.begun = [name]) : name ∈ p.candidates :=
  (List.mem_filter.mp (hone ▸ List.mem_singleton_self name : name ∈ p.begun)).1

namespace Settles

variable {n : Node}

theorem of_listed (h : p.Settles n) (listed : p.value ∈ p.candidates) :
    ∃ q, n = .parameter q ∧ q.pair = p.pairWith p.value ∧ q.isRequired = p.requires p.value := by
  cases h with
  | named _ pair required => exact ⟨_, rfl, pair, required⟩
  | unknown none => exact absurd none (begun_ne_nil_of_listed listed)
  | begins unlisted | ambiguous unlisted => exact absurd listed unlisted

theorem of_one (h : p.Settles n) (unlisted : p.value ∉ p.candidates) (hone : p.begun = [name]) :
    ∃ q, n = .parameter q ∧ q.pair = p.pairWith name ∧ q.isRequired = p.requires name := by
  cases h with
  | named listed => exact absurd listed unlisted
  | unknown none => simp [none] at hone
  | begins _ one pair required =>
    obtain rfl := List.singleton_inj.mp (one.symm.trans hone)
    exact ⟨_, rfl, pair, required⟩
  | ambiguous _ several => simp [hone] at several

/-- A name that has been typed, or the only one that begins with it, is what the command sees. -/
theorem of_name (h : p.Settles n)
    (hname : (p.value = name ∧ name ∈ p.candidates) ∨ p.begun = [name]) :
    ∃ q, n = .parameter q ∧ q.pair = p.pairWith name := by
  by_cases listed : p.value ∈ p.candidates
  · obtain rfl : p.value = name := by
      rcases hname with ⟨hvalue, -⟩ | hone
      · exact hvalue
      · have hself : p.value ∈ p.begun :=
          List.mem_filter.mpr ⟨listed, Text.beginsWith_refl p.value⟩
        exact List.mem_singleton.mp (hone ▸ hself)
    obtain ⟨q, hq, hpair, -⟩ := h.of_listed listed
    exact ⟨q, hq, hpair⟩
  · rcases hname with ⟨rfl, hmem⟩ | hone
    · exact absurd hmem listed
    · obtain ⟨q, hq, hpair, -⟩ := h.of_one listed hone
      exact ⟨q, hq, hpair⟩

theorem of_none (h : p.Settles n) (hnone : p.begun = []) : n = .parameter p := by
  cases h with
  | named listed => exact absurd hnone (begun_ne_nil_of_listed listed)
  | unknown => rfl
  | begins _ one => simp [hnone] at one
  | ambiguous _ several => simp [hnone] at several

theorem of_several (h : p.Settles n) (unlisted : p.value ∉ p.candidates)
    (hseveral : 2 ≤ p.begun.length) : ∃ a, n = .ambiguous a := by
  cases h with
  | named listed => exact absurd listed unlisted
  | unknown none => simp [none] at hseveral
  | begins _ one => simp [one] at hseveral
  | ambiguous => exact ⟨_, rfl⟩

end Settles

theorem settles_matchValue {key : Text} (hkey : p.key = some key) (word : Text)
    (token : Option Line.Token) : p.Settles (p.matchValue key word token) := by
  have hcandidates : p.candidates = p.values := by simp [candidates, lists, hkey]
  have hbegun : p.begun = Names.beginningWith p.value p.values := by rw [begun, hcandidates]
  unfold matchValue
  split
  · rename_i hlisted
    refine .named ?_ p.pair_eq (by simp [requires, hkey])
    rw [hcandidates]
    simpa using hlisted
  rename_i hunlisted
  have unlisted : p.value ∉ p.candidates := by
    rw [hcandidates]
    simpa using hunlisted
  split
  · rename_i hnone
    exact .unknown (hbegun.trans hnone)
  · rename_i value hone
    refine .begins unlisted (hbegun.trans hone) ?_ (by simp [requires, hkey])
    simp [pair, pairWith, hkey]
  · rename_i hnotNone hnotOne
    refine .ambiguous unlisted ?_ ?_
    · rw [hbegun]
      match hvalues : Names.beginningWith p.value p.values with
      | [] => exact absurd hvalues hnotNone
      | [value] => exact absurd hvalues (hnotOne value)
      | _ :: _ :: _ => simp
    · simp [Ambiguity.candidates, hbegun]

/-- Three lists that hold neither nothing nor a single name hold two. -/
theorem two_le_length_append {names others more : List Text}
    (hnone : names = [] → others = [] → more = [] → False)
    (hfirst : ∀ name, names = [name] → others = [] → more = [] → False)
    (hsecond : ∀ name, names = [] → others = [name] → more = [] → False)
    (hthird : ∀ name, names = [] → others = [] → more = [name] → False) :
    2 ≤ (names ++ others ++ more).length := by
  rcases names with _ | ⟨_, _ | ⟨_, _⟩⟩ <;> rcases others with _ | ⟨_, _ | ⟨_, _⟩⟩ <;>
    rcases more with _ | ⟨_, _ | ⟨_, _⟩⟩ <;> simp_all

theorem settles_matchWord (hkey : p.key = none) (h : p.IsTyped word) (token : Option Line.Token) :
    p.Settles (p.matchWord word token) := by
  obtain rfl := h.value hkey
  have hoptional := h.optional hkey
  have hcandidates : p.candidates = p.keys ++ p.requiredKeys ++ p.values := by
    simp [candidates, lists, hkey]
  have hrequires (name : Text) : p.requires name = p.requiredKeys.contains name := by
    simp [requires, hoptional, hkey]
  unfold matchWord
  split
  · rename_i hrequired
    refine .named ?_ p.pair_eq (by rw [hrequires, hrequired])
    rw [hcandidates]
    simp_all
  rename_i hnotRequired
  split
  · rename_i hlisted
    refine .named ?_ p.pair_eq ?_
    · rw [hcandidates]
      rcases Bool.or_eq_true_iff.mp hlisted with hlisted | hlisted <;> simp_all
    · rw [hrequires, hoptional]
      simpa using hnotRequired
  rename_i hunlisted
  have unlisted : p.value ∉ p.candidates := by
    rw [hcandidates]
    simp_all
  have hbegun : p.begun = Names.beginningWith p.value p.keys ++
      Names.beginningWith p.value p.requiredKeys ++ Names.beginningWith p.value p.values := by
    rw [begun, hcandidates]
    simp [Names.beginningWith]
  have hlists {keys required values : List Text}
      (hkeys : Names.beginningWith p.value p.keys = keys)
      (hrequired : Names.beginningWith p.value p.requiredKeys = required)
      (hvalues : Names.beginningWith p.value p.values = values) :
      p.begun = keys ++ required ++ values := by
    rw [hbegun, hkeys, hrequired, hvalues]
  -- a name that begins with the word is in no list of which nothing begins with it
  have hbegins {names : List Text} {name : Text}
      (hone : Names.beginningWith p.value names = [name]) :
      name ∈ names ∧ Text.beginsWith name p.value = true :=
    List.mem_filter.mp (hone ▸ List.mem_singleton_self name)
  have hother {names others : List Text} {name : Text}
      (hone : Names.beginningWith p.value names = [name])
      (hnone : Names.beginningWith p.value others = []) : name ∉ others := by
    intro hmem
    exact List.filter_eq_nil_iff.mp hnone name hmem (hbegins hone).2
  dsimp only
  split
  · rename_i hkeys hrequired hvalues
    exact .unknown (hlists hkeys hrequired hvalues)
  · rename_i key hkeys hrequired hvalues
    refine .begins unlisted (hlists hkeys hrequired hvalues) ?_ ?_
    · simp [completeKey, pair, pairWith, hkey]
    · rw [hrequires]
      simpa [completeKey] using hother hkeys hrequired
  · rename_i key hkeys hrequired hvalues
    refine .begins unlisted (hlists hkeys hrequired hvalues) ?_ ?_
    · simp [completeKey, pair, pairWith, hkey]
    · rw [hrequires]
      simpa [completeKey] using (hbegins hrequired).1
  · rename_i value hkeys hrequired hvalues
    refine .begins unlisted (hlists hkeys hrequired hvalues) ?_ ?_
    · simp [pair, pairWith, hkey]
    · rw [hrequires]
      simpa [hoptional] using hother hvalues hrequired
  · refine .ambiguous unlisted ?_ ?_
    · rw [hbegun]
      exact two_le_length_append ‹_› ‹_› ‹_› ‹_›
    · simp [Ambiguity.candidates, hbegun]

/-- **What a parameter comes to when it is matched.** -/
theorem settles_matchCandidates (h : p.IsTyped word) (token : Option Line.Token) :
    p.Settles (p.matchCandidates word token) := by
  unfold matchCandidates
  split
  · rename_i key hkey
    exact settles_matchValue hkey word token
  · rename_i hkey
    exact settles_matchWord hkey h token

/-! ## Several candidates -/

theorem begun_eq (p : Parameter) :
    p.begun = (p.lists.map (Names.beginningWith p.value)).flatten :=
  List.filter_flatten

/-- Lists without repetitions that hold but one name hold it once each. -/
theorem length_flatten_le_countP {lists : List (List Text)}
    (distinct : ∀ names ∈ lists, names.Nodup) (hname : ∀ other ∈ lists.flatten, other = name) :
    lists.flatten.length ≤ lists.countP (name ∈ ·) := by
  induction lists with
  | nil => exact Nat.le_refl 0
  | cons names rest ih =>
    obtain ⟨hnames, hrest⟩ := List.forall_mem_cons.mp distinct
    have hothers := ih hrest fun other hother => hname other (by simp [hother])
    rw [List.flatten_cons, List.length_append, List.countP_cons]
    have hsame : ∀ other ∈ names, other = name := fun other hother => hname other (by simp [hother])
    match names with
    | [] => simpa using hothers
    | [first] =>
      obtain rfl := hsame first (by simp)
      rw [if_pos (by simp), List.length_singleton]
      omega
    | first :: second :: more =>
      have hfirst := hsame first (by simp)
      have hsecond := hsame second (by simp)
      simp [hfirst, hsecond] at hnames

/-- Two candidates are two names or in two lists, unless a list repeats one. -/
theorem two_names_or_two_lists {lists : List (List Text)}
    (distinct : ∀ names ∈ lists, names.Nodup) (several : 2 ≤ lists.flatten.length) :
    (∃ x ∈ lists.flatten, ∃ y ∈ lists.flatten, x ≠ y) ∨
      ∃ x ∈ lists.flatten, 2 ≤ lists.countP (x ∈ ·) := by
  obtain ⟨first, hfirst⟩ := List.exists_mem_of_length_pos (Nat.lt_of_lt_of_le Nat.two_pos several)
  by_cases hsame : ∀ other ∈ lists.flatten, other = first
  · exact .inr ⟨first, hfirst, Nat.le_trans several (length_flatten_le_countP distinct hsame)⟩
  · simp only [Classical.not_forall] at hsame
    obtain ⟨other, hother, hne⟩ := hsame
    exact .inl ⟨other, hother, first, hfirst, hne⟩

/-- Several candidates leave a choice, or one name is in two lists, unless a list repeats one. -/
theorem choice_of_several (p : Parameter)
    (distinct : ∀ names ∈ p.lists, (Names.beginningWith p.value names).Nodup)
    (several : 2 ≤ p.begun.length) :
    (∃ x ∈ p.begun, ∃ y ∈ p.begun, x ≠ y) ∨ ∃ x ∈ p.begun, 2 ≤ p.lists.countP (x ∈ ·) := by
  rw [begun_eq] at several ⊢
  refine (two_names_or_two_lists (List.forall_mem_map.mpr distinct) several).imp_right ?_
  rintro ⟨x, hx, htwice⟩
  rw [List.countP_map] at htwice
  refine ⟨x, hx, Nat.le_trans htwice (List.countP_mono_left fun names _ hmem => ?_)⟩
  have hbegun : x ∈ Names.beginningWith p.value names := by simpa using hmem
  simpa using (List.mem_filter.mp hbegun).1

/-- As many lists as hold something that begins with what has been typed, as many candidates do. -/
theorem countP_le_length_begun (p : Parameter) :
    p.lists.countP (fun names => Names.beginningWith p.value names != []) ≤ p.begun.length := by
  rw [begun_eq]
  induction p.lists with
  | nil => exact Nat.le_refl 0
  | cons names rest ih =>
    rw [List.countP_cons, List.map_cons, List.flatten_cons, List.length_append]
    match hbegun : Names.beginningWith p.value names with
    | [] => simpa using ih
    | _ :: _ =>
      rw [if_pos (by simp), List.length_cons]
      omega

end Parameter

/-! ## Asking about a word -/

namespace Landing

/-- The command has been asked about the word, and this is the parameter with the lists that the
answer has filled. -/
structure Asked (site : Site) (l : Landing) (command : Command) (word : Text)
    (token : Option Line.Token) (journal : Journal) (p : Parameter) (journal' : Journal) :
    Prop where
  clear : (Parameter.ofWord command word token).fault = none
  answered : perform (Probe.run site.host site.tree.environment l
    (Parameter.ofWord command word token)) journal = (.ok p, journal')

theorem Asked.keeps (h : l.Asked site command word token journal p journal') :
    Probe.Keeps (Parameter.ofWord command word token) p :=
  l.comesTo_probe _ journal p (by rw [h.answered])

theorem Asked.isTyped (h : l.Asked site command word token journal p journal')
    (typed : ∀ t, token = some t → t.data = word) : p.IsTyped word :=
  (Parameter.isTyped_ofWord typed).answered h.keeps

/-- **A word below a command leads to what its parameter comes to** when it is matched against the
lists that the command has filled. -/
theorem Asked.perform_resolve (h : l.Asked site command word token journal p journal')
    (below : l.node.parametersOf? = some command) :
    perform (l.resolve site word token true) journal =
      (.ok (.ok (l.enter (p.matchCandidates word token))), journal') := by
  have hparameter : l.resolveParameter site command word token true = do
      let p ← Probe.run site.host site.tree.environment l (Parameter.ofWord command word token)
      return l.enter (p.matchCandidates word token) := by
    unfold resolveParameter
    simp [h.clear]
  rw [resolve_below below, hparameter, perform_map, perform_bind_of_ok h.answered]
  rfl

/-- A word below a command has been asked about, or it is a parameter with a fault. -/
theorem exists_asked (below : l.node.parametersOf? = some command)
    (h : perform (l.resolve site word token true) journal = (.ok (.ok next), journal')) :
    next = l.enter (.parameter (Parameter.ofWord command word token)) ∨
      ∃ p, l.Asked site command word token journal p journal' ∧
        next = l.enter (p.matchCandidates word token) := by
  rw [resolve_below below, ← bind_pure_comp] at h
  obtain ⟨next', journal₁, hparameter, hnext⟩ := perform_bind_eq_ok_iff.mp h
  cases hnext
  unfold resolveParameter at hparameter
  dsimp only at hparameter
  split at hparameter
  · cases hparameter
    exact .inl rfl
  · rename_i clear
    obtain ⟨p, journal₂, hprobe, hmatched⟩ := perform_bind_eq_ok_iff.mp hparameter
    cases hmatched
    exact .inr ⟨p, ⟨by simpa using clear, hprobe⟩, rfl⟩

/-! ## What a word means -/

/-- A machine whose programs all print the same. -/
def printing (out : Text) : Site where
  host := { Host.bare with
    isDirectory := fun _ => .ok true
    reply := fun _ _ => .ok { out := out } }
  tree := {}

/-- A command of it. -/
def ping : Command := { name := some "ping", executable := "/tree/ping", sysconf := "/conf" }

/-- The parameter of a word for this command, with the lists that the machine's answer fills. -/
def offered (out word : Text) : Parameter :=
  Probe.answered (Parameter.ofWord ping word none) (.ok { out := out })

/-- **An abbreviated parameter means the full name.** A text that equals no candidate and begins one
entry of the lists makes the parameter the same for its command as that name, and as much required:
however a parameter is typed that is matched against the same lists, with this name it comes to the
same pair of words. Without a key the three lists count and the name goes first; with a key only the
values count, and the name goes behind the key. A text that begins no candidate is kept. -/
theorem Asked.abbreviation_as_name (asked : l.Asked site command word token journal p journal')
    (below : l.node.parametersOf? = some command)
    (typed : ∀ t, token = some t → t.data = word) :
    p.value = (Parameter.ofWord command word token).value ∧
    p.key.isSome = (Parameter.ofWord command word token).key.isSome ∧
    (p.key = none → p.value = word) ∧
    (∀ name, p.value ∉ p.candidates → p.begun = [name] →
      ∃ q, perform (l.resolve site word token true) journal =
          (.ok (.ok (l.enter (.parameter q))), journal') ∧
        q.pair = p.pairWith name ∧
        ∀ p' word' token', p'.IsTyped word' → p.SameOffer p' → p'.value = name →
          ∃ q', p'.matchCandidates word' token' = .parameter q' ∧ q'.pair = q.pair ∧
            q'.isRequired = q.isRequired) ∧
    (p.begun = [] →
      ∃ q, perform (l.resolve site word token true) journal =
          (.ok (.ok (l.enter (.parameter q))), journal') ∧
        q.pair = p.pairWith p.value) := by
  have hsettles := Parameter.settles_matchCandidates (asked.isTyped typed) token
  have hresolve := asked.perform_resolve below
  refine ⟨asked.keeps.value, asked.keeps.keyed, (asked.isTyped typed).value, ?_, ?_⟩
  · intro name unlisted hone
    obtain ⟨q, hq, hpair, hrequired⟩ := hsettles.of_one unlisted hone
    rw [hq] at hresolve
    refine ⟨q, hresolve, hpair, fun p' word' token' typed' same hname => ?_⟩
    have hlisted : p'.value ∈ p'.candidates := by
      rw [same.candidates_eq, hname]
      exact Parameter.mem_candidates_of_begun hone
    obtain ⟨q', hq', hpair', hrequired'⟩ :=
      (Parameter.settles_matchCandidates typed' token').of_listed hlisted
    refine ⟨q', hq', ?_, ?_⟩
    · rw [hpair', hpair, same.pairWith_eq, hname]
    · rw [hrequired', hrequired, same.requires_eq, hname]
  · intro hnone
    rw [hsettles.of_none hnone] at hresolve
    exact ⟨p, hresolve, p.pair_eq⟩

/-- The command gets the same of an abbreviated key as of the whole one. -/
theorem abbreviation_as_name_count :
    let answer : Text := "-count=\n*host=\n-all\n"
    ∃ (journal : Journal) (q q' : Parameter),
      perform ((⟨.command ping, []⟩ : Landing).resolve (printing answer) "co" none true) {} =
        (.ok (.ok ⟨.parameter q, [.command ping]⟩), journal) ∧
      q.pair = (("count" : Text), ([] : Text)) ∧
      (offered answer "count").matchCandidates "count" none = .parameter q' ∧
      q'.pair = q.pair ∧ q'.isRequired = q.isRequired := by
  intro answer
  have asked : (⟨.command ping, []⟩ : Landing).Asked (printing answer) ping "co" none {}
      (offered answer "co") _ := ⟨rfl, rfl⟩
  obtain ⟨-, -, -, habbreviated, -⟩ := asked.abbreviation_as_name rfl nofun
  obtain ⟨q, hresolve, hpair, hnamed⟩ :=
    habbreviated "count" (by decide +kernel) (by decide +kernel)
  obtain ⟨q', hq', hpair', hrequired⟩ := hnamed (offered answer "count") "count" none
    ⟨fun _ => rfl, fun _ => rfl⟩ ⟨rfl, rfl, rfl, rfl, rfl⟩ rfl
  have hcount : (offered answer "co").pairWith "count" = (("count" : Text), ([] : Text)) := by
    decide +kernel
  exact ⟨_, q, q', hresolve, hpair.trans hcount, hq', hpair', hrequired⟩

/-- **An ambiguous parameter leaves a choice among candidates.** It names all entries of the lists
that begin with what has been typed, and these are two at least: two names, or one that is in two of
the lists, unless a list repeats one. A name that has been typed in full is meant however often it
has been declared, and so is the only entry that begins with what has been typed. Names in different
lists are ambiguous, even if they are the same. -/
theorem choice_of_ambiguous (below : l.node.parametersOf? = some command)
    (typed : ∀ t, token = some t → t.data = word) (journal : Journal) :
    (∀ next journal' a,
      perform (l.resolve site word token true) journal = (.ok (.ok next), journal') →
      next.node = .ambiguous a →
        ∃ p, l.Asked site command word token journal p journal' ∧ a.candidates = p.begun ∧
          2 ≤ a.candidates.length ∧
          ((∀ names ∈ p.lists, (Names.beginningWith p.value names).Nodup) →
            (∃ x ∈ a.candidates, ∃ y ∈ a.candidates, x ≠ y) ∨
              ∃ x ∈ a.candidates, 2 ≤ p.lists.countP (x ∈ ·))) ∧
    ∀ p journal', l.Asked site command word token journal p journal' →
      (p.key = none → p.value = word) ∧
      (∀ name, (p.value = name ∧ name ∈ p.candidates) ∨ p.begun = [name] →
        ∃ q, perform (l.resolve site word token true) journal =
            (.ok (.ok (l.enter (.parameter q))), journal') ∧
          q.pair = p.pairWith name) ∧
      (p.value ∉ p.candidates →
        2 ≤ p.lists.countP (fun names => Names.beginningWith p.value names != []) →
        ∃ a, perform (l.resolve site word token true) journal =
            (.ok (.ok (l.enter (.ambiguous a))), journal')) := by
  refine ⟨fun next journal' a hresolve hnode => ?_, fun p journal' asked => ?_⟩
  · rcases exists_asked below hresolve with rfl | ⟨p, asked, rfl⟩
    · cases hnode
    have hsettles := Parameter.settles_matchCandidates (asked.isTyped typed) token
    have hmatched : p.matchCandidates word token = .ambiguous a := hnode
    rw [hmatched] at hsettles
    cases hsettles with
    | ambiguous _ several all =>
      refine ⟨p, asked, all, all ▸ several, fun distinct => ?_⟩
      rw [all]
      exact p.choice_of_several distinct several
  · have hsettles := Parameter.settles_matchCandidates (asked.isTyped typed) token
    have hresolve := asked.perform_resolve below
    refine ⟨(asked.isTyped typed).value, fun name hname => ?_, fun unlisted hlists => ?_⟩
    · obtain ⟨q, hq, hpair⟩ := hsettles.of_name hname
      rw [hq] at hresolve
      exact ⟨q, hresolve, hpair⟩
    · obtain ⟨a, ha⟩ :=
        hsettles.of_several unlisted (Nat.le_trans hlists p.countP_le_length_begun)
      rw [ha] at hresolve
      exact ⟨a, hresolve⟩

/-- Two names of one list leave a choice, and the beginning of another one leaves none. -/
theorem choice_of_ambiguous_hosts :
    let l : Landing := ⟨.command ping, []⟩
    let answer : Text := "-host=\n-hosts=\n*user=\n"
    (∃ a journal, perform (l.resolve (printing answer) "ho" none true) {} =
        (.ok (.ok (l.enter (.ambiguous a))), journal) ∧
      ∃ x ∈ a.candidates, ∃ y ∈ a.candidates, x ≠ y) ∧
    ∃ q journal, perform (l.resolve (printing answer) "us" none true) {} =
        (.ok (.ok (l.enter (.parameter q))), journal) ∧
      q.pair = (("user" : Text), ([] : Text)) := by
  intro l answer
  have below : l.node.parametersOf? = some ping := rfl
  constructor
  · obtain ⟨hchoice, -⟩ := @choice_of_ambiguous (printing answer) l ping "ho" none below nofun {}
    have asked : l.Asked (printing answer) ping "ho" none {} (offered answer "ho") _ := ⟨rfl, rfl⟩
    have hresolve := asked.perform_resolve below
    obtain ⟨a, ha⟩ : ∃ a, (offered answer "ho").matchCandidates "ho" none = .ambiguous a :=
      ⟨_, rfl⟩
    rw [ha] at hresolve
    obtain ⟨p, asked', hall, -, hnames⟩ := hchoice _ _ a hresolve rfl
    obtain rfl : offered answer "ho" = p := by
      cases asked.answered.symm.trans asked'.answered
      rfl
    refine ⟨a, _, hresolve, (hnames (by decide +kernel)).resolve_right ?_⟩
    rw [hall]
    decide +kernel
  · obtain ⟨-, hmeant⟩ := @choice_of_ambiguous (printing answer) l ping "us" none below nofun {}
    obtain ⟨-, hname, -⟩ := hmeant (offered answer "us") _ ⟨rfl, rfl⟩
    obtain ⟨q, hresolve, hpair⟩ := hname "user" (.inr (by decide +kernel))
    have huser : (offered answer "us").pairWith "user" = (("user" : Text), ([] : Text)) := by
      decide +kernel
    exact ⟨q, _, hresolve, hpair.trans huser⟩

/-- A key that has been declared as optional and as required is ambiguous with itself. -/
theorem ambiguous_with_itself :
    let answer : Text := "-host=\n*host=\n"
    let l : Landing := ⟨.command ping, []⟩
    (offered answer "ho").lists = [[("host" : Text)], [("host" : Text)], []] ∧
      ∃ a journal, perform (l.resolve (printing answer) "ho" none true) {} =
          (.ok (.ok (l.enter (.ambiguous a))), journal) ∧
        ¬ ∃ x ∈ a.candidates, ∃ y ∈ a.candidates, x ≠ y := by
  intro answer l
  refine ⟨by decide +kernel, _, _, rfl, ?_⟩
  decide +kernel

end Landing

end ConfigShell
