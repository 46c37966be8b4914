import ConfigShell.Proofs.Text.Beginning
import ConfigShell.Proofs.Tree.Bare
import ConfigShell.Proofs.Tree.Ends
/-!
# Abbreviated words in a container

What a container offers can be put in one row, builtins before commands before containers
(`Container.listed`). A word then leads to the first entry of its name, or else to the only one
whose name it begins, and it is ambiguous if there are several (`Container.lookUp_eq`). All that is
said here of longer and shorter words is said of the entries that match them: a longer word matches
fewer, and with what the matching names share behind it a word matches just the same.
-/

namespace ConfigShell

open Shell (perform perform_map perform_pure IsQuiet)

variable {site : Site} {l next : Landing} {c : Container} {word longer : Text}
  {token : Option Line.Token} {validate : Bool} {journal journal' : Journal}
  {e : NodeKind × Text}

/-! ## What a container offers -/

namespace Container

/-- The names that a container offers, each with what it names. -/
def listed (c : Container) : List (NodeKind × Text) :=
  c.builtins.map (.builtin, ·) ++ c.commands.map (.command, ·) ++ c.containers.map (.container, ·)

/-- The entries that a word may stand for: the first of its name, or else all that it begins. -/
def matching (c : Container) (word : Text) : List (NodeKind × Text) :=
  match c.listed.find? (·.2 == word) with
  | some e => [e]
  | none => c.listed.filter (Text.beginsWith ·.2 word)

/-- Goes to an entry. -/
def entry (site : Site) (c : Container) (token : Option Line.Token) : NodeKind × Text → Shell Node
  | (.container, name) => .container <$> site.tree.container site.host c name token
  | (.command, name) => pure (.command (c.command name token))
  | (_, name) => pure (.builtin { name := some name, token := token })

theorem mem_listed : e ∈ c.listed ↔
    (e.1 = .builtin ∧ e.2 ∈ c.builtins) ∨ (e.1 = .command ∧ e.2 ∈ c.commands) ∨
      (e.1 = .container ∧ e.2 ∈ c.containers) := by
  obtain ⟨kind, name⟩ := e
  simp [listed, and_comm, eq_comm]

/-- The names of an ambiguity are those of the entries that the word begins. -/
theorem candidates_ambiguity (c : Container) (word : Text) (token : Option Line.Token) :
    (c.ambiguity word token).candidates =
      (c.listed.filter (Text.beginsWith ·.2 word)).map (·.2) := by
  simp [Ambiguity.candidates, ambiguity, listed, Names.beginningWith, List.filter_map,
    Function.comp_def]

/-- **A word leads to the entry that matches it**, if that is the only one. -/
theorem lookUp_eq (site : Site) (c : Container) (word : Text) (token : Option Line.Token) :
    c.lookUp site word token =
      match c.matching word with
      | [] => pure (.error ⟨word, token, .notFound⟩)
      | [e] => .ok <$> c.entry site token e
      | _ => pure (.ok (.ambiguous (c.ambiguity word token))) := by
  have hnamed (kind : NodeKind) (names : List Text) :
      (names.map (kind, ·)).find? (·.2 == word) =
        if names.contains word then some (kind, word) else none := by
    induction names with
    | nil => rfl
    | cons name names ih =>
      rw [List.map_cons, List.find?_cons, ih, List.contains_cons]
      cases hname : name == word with
      | true => simp [beq_iff_eq.mp hname]
      | false => simp [Ne.symm (beq_eq_false_iff_ne.mp hname)]
  have hbegun (kind : NodeKind) (names : List Text) :
      (names.map (kind, ·)).filter (Text.beginsWith ·.2 word) =
        (Names.beginningWith word names).map (kind, ·) := List.filter_map
  have hcontainer (name : Text) :
      (do return (.ok (← Node.container <$> site.tree.container site.host c name token) :
        Except WordError Node)) = Except.ok <$> c.entry site token (.container, name) :=
    bind_pure_comp _ _
  unfold lookUp matching listed
  simp only [List.find?_append, List.filter_append, hnamed, hbegun, hcontainer]
  split
  · rfl
  split
  · rfl
  split
  · rfl
  simp only [ambiguity]
  generalize Names.beginningWith word c.builtins = builtins
  generalize Names.beginningWith word c.commands = commands
  generalize Names.beginningWith word c.containers = containers
  rcases builtins with _ | ⟨_, _ | ⟨_, _⟩⟩ <;> rcases commands with _ | ⟨_, _ | ⟨_, _⟩⟩ <;>
    rcases containers with _ | ⟨_, _ | ⟨_, _⟩⟩ <;> rfl

/-! ## Longer words and shorter ones -/

/-- Either the word is a name, or it matches all that it begins. -/
theorem matching_cases (c : Container) (word : Text) :
    (∃ e ∈ c.listed, e.2 = word ∧ c.matching word = [e]) ∨
      (∀ e ∈ c.listed, e.2 ≠ word) ∧
        c.matching word = c.listed.filter (Text.beginsWith ·.2 word) := by
  unfold matching
  split
  · rename_i e hfound
    exact .inl ⟨e, List.mem_of_find?_eq_some hfound, by simpa using List.find?_some hfound, rfl⟩
  · rename_i hnone
    exact .inr ⟨by simpa using hnone, rfl⟩

theorem mem_listed_of_mem_matching (h : e ∈ c.matching word) :
    e ∈ c.listed ∧ Text.beginsWith e.2 word = true := by
  rcases c.matching_cases word with ⟨e', he', rfl, hmatching⟩ | ⟨-, hmatching⟩
  · rw [hmatching, List.mem_singleton] at h
    exact ⟨h ▸ he', h ▸ Text.beginsWith_refl e.2⟩
  · exact List.mem_filter.mp (hmatching ▸ h)

/-- What a longer word begins, a shorter one does, too. -/
theorem filter_beginsWith_longer (entries : List (NodeKind × Text))
    (h : Text.beginsWith longer word = true) :
    entries.filter (Text.beginsWith ·.2 longer) =
      (entries.filter (Text.beginsWith ·.2 word)).filter (Text.beginsWith ·.2 longer) := by
  rw [List.filter_filter]
  refine List.filter_congr fun e _ => (Bool.and_eq_left_iff_imp.mpr fun hlonger => ?_).symm
  exact Text.beginsWith_trans h hlonger

/-- **A longer word matches the one entry that a shorter word matches**, as long as it is a
beginning of its name. -/
theorem matching_longer_of_one (h : c.matching word = [e])
    (hlonger : Text.beginsWith longer word = true) (hname : Text.beginsWith e.2 longer = true) :
    c.matching longer = [e] := by
  rcases c.matching_cases word with ⟨e', -, rfl, hmatching⟩ | ⟨-, hmatching⟩
  · -- a name has no longer beginning than itself
    obtain rfl := List.singleton_inj.mp (hmatching.symm.trans h)
    rwa [← Text.beginsWith_antisymm hname hlonger]
  · rw [hmatching] at h
    rcases c.matching_cases longer with ⟨e', he', rfl, hmatching'⟩ | ⟨-, hmatching'⟩
    · have honly : e' ∈ [e] := h ▸ List.mem_filter.mpr ⟨he', hlonger⟩
      rw [hmatching', List.mem_singleton.mp honly]
    · rw [hmatching', filter_beginsWith_longer _ hlonger, h]
      exact List.filter_cons_of_pos hname

/-- **A longer word matches nothing that a shorter word does not match.** -/
theorem matching_longer_of_nil (h : c.matching word = [])
    (hlonger : Text.beginsWith longer word = true) : c.matching longer = [] := by
  have hnone : ∀ e ∈ c.listed, Text.beginsWith e.2 word = false := by
    rcases c.matching_cases word with ⟨e', -, -, hmatching⟩ | ⟨-, hmatching⟩
    · rw [hmatching] at h
      cases h
    · exact fun e he => by simpa using List.filter_eq_nil_iff.mp (hmatching.symm.trans h) e he
  refine List.eq_nil_iff_forall_not_mem.mpr fun e he => ?_
  obtain ⟨hlisted, hbegins⟩ := mem_listed_of_mem_matching he
  exact absurd (Text.beginsWith_trans hlonger hbegins) (by simp [hnone e hlisted])

/-- A word that matches several entries matches all that it begins. -/
theorem matching_of_many (h : 2 ≤ (c.matching word).length) :
    c.matching word = c.listed.filter (Text.beginsWith ·.2 word) := by
  rcases c.matching_cases word with ⟨e, -, -, hmatching⟩ | ⟨-, hmatching⟩
  · simp [hmatching] at h
  · exact hmatching

/-- **With what the matching names share behind it, a word begins the same names**, and they share
nothing behind that. -/
theorem exists_common (h : 2 ≤ (c.matching word).length) (token : Option Line.Token) :
    ∃ run, (c.ambiguity word token).common = some run ∧
      (∀ e ∈ c.listed, Text.beginsWith e.2 (word ++ run) = Text.beginsWith e.2 word) ∧
      ∀ token', (c.ambiguity (word ++ run) token').common = some [] := by
  have hcommon (word : Text) (token : Option Line.Token) : (c.ambiguity word token).common =
      Names.commonRun word ((c.listed.filter (Text.beginsWith ·.2 word)).map (·.2)) := by
    simp [ambiguity, listed, Names.beginningWith, List.filter_map, Function.comp_def]
  have hbegun (word : Text) : ∀ name ∈ (c.listed.filter (Text.beginsWith ·.2 word)).map (·.2),
      Text.beginsWith name word = true :=
    List.forall_mem_map.mpr fun e he => (List.mem_filter.mp he).2
  have hne : (c.listed.filter (Text.beginsWith ·.2 word)).map (·.2) ≠ [] := by
    intro hnil
    simp [matching_of_many h, List.map_eq_nil_iff.mp hnil] at h
  obtain ⟨run, hrun, hlongest⟩ := Names.exists_commonRun hne (hbegun word)
  have hword : Text.beginsWith (word ++ run) word = true := (hlongest word).mpr (hbegun word)
  have hsame : ∀ e ∈ c.listed,
      Text.beginsWith e.2 (word ++ run) = Text.beginsWith e.2 word := by
    intro e he
    refine Bool.eq_iff_iff.mpr ⟨Text.beginsWith_trans hword, fun hbegins => ?_⟩
    exact (hlongest _).mp (Text.beginsWith_refl _) _
      (List.mem_map_of_mem (List.mem_filter.mpr ⟨he, hbegins⟩))
  refine ⟨run, (hcommon word token).trans hrun, hsame, fun token' => ?_⟩
  -- what is shared behind that again would be behind the word already
  have hfilter := List.filter_congr hsame
  obtain ⟨more, hmore, hlongest'⟩ := Names.exists_commonRun (hfilter ▸ hne) (hbegun (word ++ run))
  have hall := (hlongest' _).mp (Text.beginsWith_refl (word ++ run ++ more))
  rw [hfilter] at hall
  have hback : word ++ run ++ more = word ++ run :=
    Text.beginsWith_antisymm ((hlongest' _).mpr (hbegun _)) ((hlongest _).mpr hall)
  rw [hcommon, hmore, List.append_right_eq_self.mp hback]

/-- Words that begin the same names are ambiguous between the same. -/
theorem ambiguity_eq (hsame : ∀ e ∈ c.listed,
      Text.beginsWith e.2 longer = Text.beginsWith e.2 word) (token token' : Option Line.Token) :
    c.ambiguity longer token' = { c.ambiguity word token with
      name := some longer, token := token', typed := longer
      common := (c.ambiguity longer token').common } := by
  have hbuiltins : Names.beginningWith longer c.builtins = Names.beginningWith word c.builtins :=
    List.filter_congr fun name hname => hsame (.builtin, name) (mem_listed.mpr (.inl ⟨rfl, hname⟩))
  have hcommands : Names.beginningWith longer c.commands = Names.beginningWith word c.commands :=
    List.filter_congr fun name hname =>
      hsame (.command, name) (mem_listed.mpr (.inr (.inl ⟨rfl, hname⟩)))
  have hcontainers :
      Names.beginningWith longer c.containers = Names.beginningWith word c.containers :=
    List.filter_congr fun name hname =>
      hsame (.container, name) (mem_listed.mpr (.inr (.inr ⟨rfl, hname⟩)))
  simp only [ambiguity, hbuiltins, hcommands, hcontainers]

/-! ## The node of an entry -/

/-- What an entry is. -/
def nodeOf (site : Site) (c : Container) (token : Option Line.Token) : NodeKind × Text → Node
  | (.container, name) =>
    let directory := c.libexec.child name
    let listing := Listing.ofEntries site.tree.suffixes (site.host.entries directory)
    .container {
      name := some name, token := token, libexec := directory, sysconf := c.sysconf.child name
      containers := listing.containers, commands := listing.commands, files := listing.files }
  | (.command, name) => .command (c.command name token)
  | (_, name) => .builtin { name := some name, token := token }

/-- All but a container that cannot be listed can be gone to. -/
def CanEnter (c : Container) (e : NodeKind × Text) : Prop :=
  e.1 = .container → (c.libexec.child e.2).isPassable = true

theorem perform_entry (h : c.CanEnter e) (token : Option Line.Token) (journal : Journal) :
    perform (c.entry site token e) journal = (.ok (c.nodeOf site token e), journal) := by
  obtain ⟨kind, name⟩ := e
  cases kind with
  | container =>
    rw [entry, perform_map, CommandTree.container, perform_containerAt, if_pos (h rfl)]
    rfl
  | command | builtin | parameter | option | ambiguous => rfl

theorem canEnter_of_entry {n : Node}
    (h : perform (c.entry site token e) journal = (.ok n, journal')) : c.CanEnter e := by
  intro hcontainer
  obtain ⟨_, name⟩ := e
  obtain rfl := hcontainer
  rw [entry, perform_map, CommandTree.container, perform_containerAt] at h
  split at h
  · assumption
  · cases h

/-- An entry is the same whatever word leads to it. -/
theorem bare_nodeOf (token token' : Option Line.Token) (e : NodeKind × Text) :
    (c.nodeOf site token e).bare = (c.nodeOf site token' e).bare := by
  obtain ⟨kind, name⟩ := e
  cases kind <;> rfl

@[simp]
theorem name_nodeOf (token : Option Line.Token) (e : NodeKind × Text) :
    (c.nodeOf site token e).name = some e.2 := by
  obtain ⟨kind, name⟩ := e
  cases kind <;> rfl

theorem kind_nodeOf (he : e ∈ c.listed) (token : Option Line.Token) :
    (c.nodeOf site token e).kind = e.1 := by
  obtain ⟨kind, name⟩ := e
  rcases mem_listed.mp he with ⟨rfl, -⟩ | ⟨rfl, -⟩ | ⟨rfl, -⟩ <;> rfl

end Container

/-! ## Where a word leads from a container -/

namespace Landing

/-- The word leads to this, whatever has been done before, and nothing is done. -/
def ResolvesTo (site : Site) (l : Landing) (word : Text) (token : Option Line.Token)
    (validate : Bool) (r : Except WordError Landing) : Prop :=
  ∀ journal, perform (l.resolve site word token validate) journal = (.ok r, journal)

/-- **Where a word leads from a container.** -/
theorem resolvesTo_iff (hl : l.node = .container c) (hup : word ≠ "..")
    {r : Except WordError Landing} :
    l.ResolvesTo site word token validate r ↔
      match c.matching word with
      | [] => r = .error ⟨word, token, .notFound⟩
      | [e] => c.CanEnter e ∧ r = .ok (l.enter (c.nodeOf site token e))
      | _ => r = .ok (l.enter (.ambiguous (c.ambiguity word token))) := by
  have hword : (word == "..") = false := beq_eq_false_iff_ne.mpr hup
  have hresolve : l.resolve site word token validate =
      (·.map l.enter) <$> c.lookUp site word token := by
    simp only [resolve, hl, hword, Bool.false_eq_true, if_false]
  have hsettled (r' : Except WordError Landing) :
      (∀ journal, perform (pure r' : Shell (Except WordError Landing)) journal = (.ok r, journal)) ↔
        r = r' := by
    constructor
    · intro h
      cases h {}
      rfl
    · rintro rfl _
      rfl
  rw [ResolvesTo, hresolve, Container.lookUp_eq]
  match c.matching word with
  | [] => exact hsettled _
  | _ :: _ :: _ => exact hsettled _
  | [e] =>
    simp only [perform_map]
    constructor
    · intro h
      have hentered := h {}
      cases hentry : perform (c.entry site token e) {} with
      | mk outcome journal =>
        cases outcome with
        | error b => simp [hentry, Except.map] at hentered
        | ok n =>
          have hcan := Container.canEnter_of_entry hentry
          rw [Container.perform_entry hcan] at hentered
          cases hentered
          exact ⟨hcan, rfl⟩
    · rintro ⟨hcan, rfl⟩ journal
      rw [Container.perform_entry hcan]
      rfl

end Landing

/-! ## Containers of a tree -/

/-- What a machine gives as the names of a directory: each entry has one of its own, which is not
empty and has no zero byte. -/
structure Host.NamesEntries (host : Host) : Prop where
  whole : ∀ p, ∀ e ∈ host.entries p, 0 ∉ e.name
  nonempty : ∀ p, ∀ e ∈ host.entries p, e.name ≠ []
  distinct : ∀ p, ((host.entries p).map (·.name)).Nodup

namespace Site

/-- The container offers what its directory has, and the builtins if it is the top. -/
structure Lists (site : Site) (c : Container) : Prop where
  passable : c.libexec.isPassable = true
  containers : c.containers =
    (Listing.ofEntries site.tree.suffixes (site.host.entries c.libexec)).containers
  commands : c.commands =
    (Listing.ofEntries site.tree.suffixes (site.host.entries c.libexec)).commands
  builtins : c.builtins = rootBuiltins ∨ c.builtins = []

end Site

namespace Site.Lists

/-- What is listed is a builtin, or an entry of the directory that is not hidden, without a suffix
if it is a command. -/
theorem origin (h : site.Lists c) (he : e ∈ c.listed) :
    (e.1 = .builtin ∧ e.2 ∈ rootBuiltins) ∨
      ∃ entry ∈ site.host.entries c.libexec, Listing.isHidden entry = false ∧
        (e.1 = .command ∧ Listing.commandName? site.tree.suffixes entry = some e.2 ∨
          e.1 = .container ∧ entry.name = e.2) := by
  rcases Container.mem_listed.mp he with ⟨hkind, he⟩ | ⟨hkind, he⟩ | ⟨hkind, he⟩
  · refine .inl ⟨hkind, ?_⟩
    rcases h.builtins with hbuiltins | hbuiltins
    · exact hbuiltins ▸ he
    · rw [hbuiltins] at he
      cases he
  · rw [h.commands] at he
    obtain ⟨file, hfile⟩ := Listing.exists_file_of_mem_commands he
    obtain ⟨entry, hentry, -, -, hvisible, hname⟩ :=
      Listing.exists_entry_of_mem_files (Listing.mem_files_of_lookup hfile)
    exact .inr ⟨entry, hentry, hvisible, .inl ⟨hkind, hname⟩⟩
  · rw [h.containers] at he
    obtain ⟨entry, hentry, hname, -, hvisible⟩ := Listing.mem_containers_ofEntries.mp he
    exact .inr ⟨entry, hentry, hvisible, .inr ⟨hkind, hname⟩⟩

/-- Nothing hidden is listed. -/
theorem visible (h : site.Lists c) (he : e ∈ c.listed) : e.2.head? ≠ some 0x2E := by
  rcases h.origin he with ⟨-, hbuiltin⟩ | ⟨entry, -, hvisible, hname⟩
  · have hbuiltins : ∀ name ∈ rootBuiltins, name.head? ≠ some 0x2E := by decide
    exact hbuiltins _ hbuiltin
  · refine Listing.head?_of_prefix hvisible ?_
    rcases hname with ⟨-, hname⟩ | ⟨-, hname⟩
    · exact Listing.prefix_of_commandName? hname
    · exact hname ▸ List.prefix_rfl

/-- So no word that begins a listed name means going up. -/
theorem ne_up (h : site.Lists c) (he : e ∈ c.listed) (hword : Text.beginsWith e.2 word = true) :
    word ≠ ".." := by
  rintro rfl
  obtain ⟨rest, hrest⟩ := Text.prefix_of_beginsWith hword
  exact h.visible he (hrest ▸ rfl)

/-- What is listed can be gone to. -/
theorem canEnter (h : site.Lists c) (hnames : site.host.NamesEntries) (he : e ∈ c.listed) :
    c.CanEnter e := by
  intro hcontainer
  have hname : 0 ∉ e.2 := by
    rcases h.origin he with ⟨hkind, -⟩ | ⟨entry, hentry, -, ⟨hkind, -⟩ | ⟨-, hname⟩⟩
    · simp [hkind] at hcontainer
    · simp [hkind] at hcontainer
    · exact hname ▸ hnames.whole _ entry hentry
  exact Path.isPassable_append h.passable (Path.isPassable_ofText hname)

end Site.Lists

/-- A tree with a command and a container that begin alike. -/
def Site.netted : Site where
  host := { Host.bare with
    entries := fun p =>
      if p = "/tree" then [⟨"network", .directory, false⟩, ⟨"netmask", .file, true⟩] else [] }
  tree := { libexec := "/tree" }

/-- Its top. -/
def Site.nettedTop : Container where
  name := none
  libexec := "/tree"
  sysconf := "/etc/device"
  containers := ["network"]
  commands := ["netmask"]
  files := [("netmask", "netmask")]
  builtins := rootBuiltins

theorem Site.namesEntries_netted : netted.host.NamesEntries := by
  have hentries (p : Path) : netted.host.entries p =
      if p = "/tree" then [⟨"network", .directory, false⟩, ⟨"netmask", .file, true⟩] else [] := rfl
  refine ⟨fun p => ?_, fun p => ?_, fun p => ?_⟩
  all_goals
    rw [hentries]
    split <;> decide

/-! ## Abbreviations -/

namespace Landing.ResolvesTo

/-- A word that leads to a node matches one entry, which is that node. -/
theorem exists_entry (h : l.ResolvesTo site word token validate (.ok next))
    (hl : l.node = .container c) (hup : word ≠ "..") (unambiguous : next.node.kind ≠ .ambiguous) :
    ∃ e, c.matching word = [e] ∧ c.CanEnter e ∧ next = l.enter (c.nodeOf site token e) := by
  rw [resolvesTo_iff hl hup] at h
  match hmatching : c.matching word with
  | [] =>
    rw [hmatching] at h
    cases h
  | [e] =>
    rw [hmatching] at h
    exact ⟨e, rfl, h.1, Except.ok.inj h.2⟩
  | _ :: _ :: _ =>
    rw [hmatching] at h
    cases h
    exact absurd rfl unambiguous

/-- An ambiguous word matches several entries. -/
theorem of_ambiguous (h : l.ResolvesTo site word token validate (.ok next))
    (hl : l.node = .container c) (hup : word ≠ "..") {a : Ambiguity}
    (ha : next.node = .ambiguous a) :
    2 ≤ (c.matching word).length ∧ a = c.ambiguity word token := by
  rw [resolvesTo_iff hl hup] at h
  match hmatching : c.matching word with
  | [] =>
    rw [hmatching] at h
    cases h
  | [e] =>
    have he : e ∈ c.listed :=
      (Container.mem_listed_of_mem_matching (hmatching ▸ List.mem_singleton_self e)).1
    rw [hmatching] at h
    cases h.2
    have hkind : Node.kind (c.nodeOf site token e) = e.1 := Container.kind_nodeOf he token
    have ha : c.nodeOf site token e = .ambiguous a := ha
    rw [ha] at hkind
    rcases Container.mem_listed.mp he with ⟨he, -⟩ | ⟨he, -⟩ | ⟨he, -⟩ <;>
      simp [he, Node.kind] at hkind
  | _ :: _ :: others =>
    rw [hmatching] at h
    cases h
    cases ha
    exact ⟨by simp, rfl⟩

/-- **A word between one that leads to a node and the name of that node leads there, too.** -/
theorem between (h : l.ResolvesTo site word token validate (.ok next)) (hl : l.node = .container c)
    (hup : word ≠ "..") (unambiguous : next.node.kind ≠ .ambiguous) {name : Text}
    (hname : next.node.name = some name) (hup' : longer ≠ "..")
    (hlonger : Text.beginsWith longer word = true) (hbegins : Text.beginsWith name longer = true)
    (token' : Option Line.Token) (validate' : Bool) :
    ∃ next', l.ResolvesTo site longer token' validate' (.ok next') ∧ next'.bare = next.bare := by
  obtain ⟨e, hmatching, hcan, rfl⟩ := h.exists_entry hl hup unambiguous
  have hname : e.2 = name := by simpa [enter] using hname
  refine ⟨l.enter (c.nodeOf site token' e), (resolvesTo_iff hl hup').mpr ?_,
    enter_bare_eq rfl (Container.bare_nodeOf token' token e)⟩
  rw [Container.matching_longer_of_one hmatching hlonger (hname ▸ hbegins)]
  exact ⟨hcan, rfl⟩

/-- **With what the candidates of an ambiguous word share behind it**, the word leads to an entry of
just this name or is ambiguous between the same candidates, which share nothing more. -/
theorem common (h : l.ResolvesTo site word token validate (.ok next)) (hl : l.node = .container c)
    (hup : word ≠ "..") (listed : site.Lists c) (hnames : site.host.NamesEntries) {a : Ambiguity}
    (ha : next.node = .ambiguous a) :
    ∃ run, a.common = some run ∧
      (∀ name ∈ a.candidates, Text.beginsWith name (word ++ run) = true) ∧
      ∀ token' validate', ∃ next',
        l.ResolvesTo site (word ++ run) token' validate' (.ok next') ∧
        ((next'.node.kind, word ++ run) ∈ c.listed ∧ next'.node.name = some (word ++ run) ∨
          next'.node = .ambiguous { a with
            name := some (word ++ run), token := token', typed := word ++ run
            common := some [] }) := by
  obtain ⟨hmany, rfl⟩ := h.of_ambiguous hl hup ha
  obtain ⟨run, hrun, hsame, hnothing⟩ := Container.exists_common hmany token
  have hbegins : ∀ e ∈ c.matching word, Text.beginsWith e.2 (word ++ run) = true := fun e he =>
    (hsame e (Container.mem_listed_of_mem_matching he).1).trans
      (Container.mem_listed_of_mem_matching he).2
  refine ⟨run, hrun, ?_, fun token' validate' => ?_⟩
  · rw [Container.candidates_ambiguity, ← Container.matching_of_many hmany]
    exact List.forall_mem_map.mpr hbegins
  have hup' : word ++ run ≠ ".." := by
    obtain ⟨e, he⟩ := List.exists_mem_of_length_pos (Nat.lt_of_lt_of_le Nat.two_pos hmany)
    exact listed.ne_up (Container.mem_listed_of_mem_matching he).1 (hbegins e he)
  rcases c.matching_cases (word ++ run) with ⟨e, he, hname, hmatching⟩ | ⟨-, hmatching⟩
  · refine ⟨l.enter (c.nodeOf site token' e), (resolvesTo_iff hl hup').mpr ?_, .inl ?_⟩
    · rw [hmatching]
      exact ⟨listed.canEnter hnames he, rfl⟩
    · rw [enter, Container.kind_nodeOf he, Container.name_nodeOf, ← hname]
      exact ⟨he, rfl⟩
  · rw [List.filter_congr hsame, ← Container.matching_of_many hmany] at hmatching
    refine ⟨l.enter (.ambiguous (c.ambiguity (word ++ run) token')),
      (resolvesTo_iff hl hup').mpr ?_, .inr ?_⟩
    · rw [hmatching]
      cases hlist : c.matching word with
      | nil => simp [hlist] at hmany
      | cons first others =>
        cases others with
        | nil => simp [hlist] at hmany
        | cons second others => rfl
    · rw [enter, Container.ambiguity_eq hsame token token', hnothing]

/-- **A word for which nothing is found is not made up for by going on with it.** -/
theorem notFound (h : l.ResolvesTo site word token validate (.error ⟨word, token, .notFound⟩))
    (hl : l.node = .container c) (hup : word ≠ "..") (hup' : longer ≠ "..")
    (hlonger : Text.beginsWith longer word = true) (token' : Option Line.Token)
    (validate' : Bool) :
    l.ResolvesTo site longer token' validate' (.error ⟨longer, token', .notFound⟩) := by
  rw [resolvesTo_iff hl hup] at h
  match hmatching : c.matching word with
  | [] =>
    rw [resolvesTo_iff hl hup', Container.matching_longer_of_nil hmatching hlonger]
  | [e] =>
    rw [hmatching] at h
    cases h.2
  | _ :: _ :: _ =>
    rw [hmatching] at h
    cases h

end Landing.ResolvesTo

namespace Landing

open Site (netted nettedTop namesEntries_netted)

/-- **What abbreviations come to in a container.** A word between one that leads to a node and the
name of that node leads there, too. What the candidates of an ambiguous word share can be put
behind it, and that leads to an entry of exactly this name or leaves the candidates as they are. A
word that nothing is found for is not made up for by going on with it. -/
theorem abbreviation_laws (hnames : site.host.NamesEntries) (hl : l.node = .container c)
    (listed : site.Lists c) (hup : word ≠ "..") :
    (∀ next name, l.ResolvesTo site word token validate (.ok next) →
      next.node.kind ≠ .ambiguous → next.node.name = some name →
      ∀ longer : Text, longer ≠ ".." → Text.beginsWith longer word = true →
        Text.beginsWith name longer = true → ∀ token' validate',
        ∃ next', l.ResolvesTo site longer token' validate' (.ok next') ∧ next'.bare = next.bare) ∧
    (∀ next a, l.ResolvesTo site word token validate (.ok next) → next.node = .ambiguous a →
      ∃ run, a.common = some run ∧
        (∀ name ∈ a.candidates, Text.beginsWith name (word ++ run) = true) ∧
        ∀ token' validate', ∃ next',
          l.ResolvesTo site (word ++ run) token' validate' (.ok next') ∧
          ((next'.node.kind, word ++ run) ∈ c.listed ∧ next'.node.name = some (word ++ run) ∨
            next'.node = .ambiguous { a with
              name := some (word ++ run), token := token', typed := word ++ run
              common := some [] })) ∧
    (l.ResolvesTo site word token validate (.error ⟨word, token, .notFound⟩) →
      ∀ longer : Text, longer ≠ ".." → Text.beginsWith longer word = true → ∀ token' validate',
        l.ResolvesTo site longer token' validate' (.error ⟨longer, token', .notFound⟩)) := by
  refine ⟨fun next name h unambiguous hname longer hup' hlonger hbegins token' validate' => ?_,
    fun next a h ha => h.common hl hup listed hnames ha,
    fun h longer hup' hlonger token' validate' => h.notFound hl hup hup' hlonger token' validate'⟩
  exact h.between hl hup unambiguous hname hup' hlonger hbegins token' validate'

/-- At its top a word leads to the container, a shorter one is ambiguous, and another leads
nowhere. -/
theorem abbreviation_laws_netted :
    ∃ l next next' : Landing, ∃ a run,
      l.ResolvesTo netted "netw" none false (.ok next) ∧
      l.ResolvesTo netted "networ" none true (.ok next') ∧ next'.bare = next.bare ∧
      l.ResolvesTo netted "n" none false (.ok (l.enter (.ambiguous a))) ∧ a.common = some run ∧
      (∀ name ∈ a.candidates, Text.beginsWith name ("n" ++ run) = true) ∧
      l.ResolvesTo netted "x" none false (.error ⟨"x", none, .notFound⟩) ∧
      l.ResolvesTo netted "xy" none true (.error ⟨"xy", none, .notFound⟩) := by
  have listed : netted.Lists nettedTop :=
    ⟨by decide +kernel, by decide +kernel, by decide +kernel, .inl rfl⟩
  have hcan : nettedTop.CanEnter (.container, "network") :=
    listed.canEnter namesEntries_netted (by decide +kernel)
  obtain ⟨l, hnode⟩ : ∃ l : Landing, l.node = .container nettedTop := ⟨⟨_, []⟩, rfl⟩
  have hone : l.ResolvesTo netted "netw" none false
      (.ok (l.enter (nettedTop.nodeOf netted none (.container, "network")))) := by
    have hmatching : nettedTop.matching "netw" = [(.container, ("network" : Text))] := by
      decide +kernel
    rw [resolvesTo_iff hnode (by decide), hmatching]
    exact ⟨hcan, rfl⟩
  have hmany : l.ResolvesTo netted "n" none false
      (.ok (l.enter (.ambiguous (nettedTop.ambiguity "n" none)))) := by
    have hmatching : nettedTop.matching "n" =
        [(.command, ("netmask" : Text)), (.container, ("network" : Text))] := by decide +kernel
    rw [resolvesTo_iff hnode (by decide), hmatching]
  have hnone : l.ResolvesTo netted "x" none false (.error ⟨"x", none, .notFound⟩) := by
    have hmatching : nettedTop.matching "x" = [] := by decide +kernel
    rw [resolvesTo_iff hnode (by decide), hmatching]
  obtain ⟨hlonger, -, -⟩ :=
    abbreviation_laws namesEntries_netted hnode listed (show ("netw" : Text) ≠ ".." by decide)
  obtain ⟨-, hcommon, -⟩ :=
    abbreviation_laws namesEntries_netted hnode listed (show ("n" : Text) ≠ ".." by decide)
  obtain ⟨-, -, hnothing⟩ :=
    abbreviation_laws namesEntries_netted hnode listed (show ("x" : Text) ≠ ".." by decide)
  obtain ⟨next', hnext', hbare⟩ := hlonger _ "network" hone nofun rfl "networ" (by decide)
    (by decide +kernel) (by decide +kernel) none true
  obtain ⟨run, hrun, hbegin, -⟩ := hcommon _ _ hmany rfl
  exact ⟨l, _, next', _, run, hone, hnext', hbare, hmany, hrun, hbegin, hnone,
    hnothing hnone "xy" (by decide) (by decide +kernel) none true⟩

end Landing

end ConfigShell
