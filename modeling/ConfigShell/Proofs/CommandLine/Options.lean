import ConfigShell.CommandLine.Options
/-!
# Why there are no options

The options of a run are looked for in a fixed order: the home, the configuration file, the two
paths of the tree, the suffixes and the history file. `Options.Refused` names for each of these
what may be wrong with it, provided nothing is wrong before it. A run has no options for one of
these reasons and for no other (`Options.resolve_eq_error_iff`).
-/

namespace ConfigShell.CommandLine

open Config (Table Value)

variable {host : Host} {environment : List (Text × Text)} {a : Arguments} {table : Table}
  {fault : OptionsFault}

/-! ## Steps that may fail -/

/-- Two steps fail if the first does, or the second after it. -/
theorem bind_eq_error_iff {ε α β : Type} {first : Except ε α} {next : α → Except ε β} {e : ε} :
    first >>= next = .error e ↔ first = .error e ∨ ∃ v, first = .ok v ∧ next v = .error e := by
  cases first <;> simp [bind, Except.bind]

theorem exists_eq_ok_iff {ε α : Type} {r : Except ε α} : (∃ v, r = .ok v) ↔ ∀ e, r ≠ .error e := by
  cases r <;> simp

/-! ## Paths -/

/-- The text writes a path that starts at the home of the named user, or at one's own home if the
name is empty. -/
def StartsAtHome (t name : Text) : Prop :=
  (Path.ofText t).isAbsolute = false ∧ ∃ rest, (Path.ofText t).parts = (0x7E :: name) :: rest

/-- Why the home that a path starts at is not found. -/
inductive HomeFault (host : Host) (t : Text) : OptionsFault → Prop
  | zeroByte {name : Text} (starts : StartsAtHome t name) (zero : 0 ∈ name) :
      HomeFault host t .zeroByte
  | noHome {name : Text} (starts : StartsAtHome t name) (whole : 0 ∉ name)
      (unknown : host.home (if name.isEmpty then none else some name) = none) :
      HomeFault host t .noHome

/-- What is wrong with the path at a key of a table. -/
inductive PathFault (host : Host) (table : Table) (key : Text) : OptionsFault → Prop
  | noText {v : Value} (found : table.value? key = some v) (other : ∀ t, v ≠ .text t) :
      PathFault host table key (.ofValue host key .text v)
  | noHome {t : Text} {fault : OptionsFault} (found : table.value? key = some (.text t))
      (homeless : HomeFault host t fault) : PathFault host table key fault

theorem expandHome_eq_error_iff {t : Text} :
    expandHome host (Path.ofText t) = .error fault ↔ HomeFault host t fault := by
  constructor
  · intro h
    unfold expandHome at h
    split at h
    · rename_i name rest habsolute hparts
      have hstarts : StartsAtHome t name := ⟨habsolute, rest, hparts⟩
      split at h
      · rename_i hzero
        cases h
        exact .zeroByte hstarts (List.contains_iff_mem.mp hzero)
      · rename_i hwhole
        split at h
        · cases h
        · rename_i hunknown
          cases h
          exact .noHome hstarts (mt List.contains_iff_mem.mpr hwhole) hunknown
    · cases h
  · intro h
    cases h with
    | zeroByte starts zero =>
      obtain ⟨hrelative, rest, hparts⟩ := starts
      simp [expandHome, hrelative, hparts, zero]
    | noHome starts whole unknown =>
      obtain ⟨hrelative, rest, hparts⟩ := starts
      have hwhole := mt List.contains_iff_mem.mp whole
      simp only [expandHome, hrelative, hparts, if_neg hwhole, unknown]

theorem pathAt?_eq_error_iff {key : Text} :
    pathAt? host table key = .error fault ↔ PathFault host table key fault := by
  have hmap (t : Text) : some <$> expandHome host (Path.ofText t) = .error fault ↔
      HomeFault host t fault := by
    rw [← expandHome_eq_error_iff]
    cases expandHome host (Path.ofText t) <;> simp [Functor.map, Except.map]
  constructor
  · intro h
    unfold pathAt? at h
    split at h
    · cases h
    · rename_i t hfound
      exact .noHome hfound ((hmap t).mp h)
    · rename_i v hother hfound
      cases h
      exact .noText hfound fun t ht => hother t ht
  · intro h
    cases h with
    | noText found other =>
      unfold pathAt?
      rw [found]
      split
      · rename_i hnone
        cases hnone
      · rename_i t ht
        cases ht
        exact absurd rfl (other t)
      · rename_i v ht
        cases ht
        rfl
    | noHome found homeless =>
      rename_i t
      unfold pathAt?
      rw [found]
      exact (hmap t).mpr homeless

/-! ## The configuration file -/

/-- Why a configuration file cannot be used. -/
inductive FileFault (host : Host) (path : Path) : OptionsFault → Prop
  | unreadable {reason : Errno} (passable : path.isPassable = true)
      (refused : host.contents path = .error reason) (present : reason.isAbsence = false) :
      FileFault host path (.unreadable reason path)
  | badFormat {file : Text} {f : Config.FormatFault} (passable : path.isPassable = true)
      (found : host.contents path = .ok file) (illFormed : Config.readTable host.setup.readableDepth file = .error f) :
      FileFault host path (.badFormat f)

/-- What is wrong with an entry of a configuration file, the entries being looked up in turn. -/
inductive EntryFault (host : Host) (table : Table) : OptionsFault → Prop
  | libexec {fault : OptionsFault} (here : PathFault host table "libexec" fault) :
      EntryFault host table fault
  | sysconf {fault : OptionsFault} (libexec : ∀ f, ¬ PathFault host table "libexec" f)
      (here : PathFault host table "sysconf" fault) : EntryFault host table fault
  | suffixes {v : Value} (libexec : ∀ f, ¬ PathFault host table "libexec" f)
      (sysconf : ∀ f, ¬ PathFault host table "sysconf" f)
      (found : table.value? "pathext" = some v)
      (other : ∀ texts : List Text, v ≠ .list (texts.map .text)) :
      EntryFault host table (.ofValue host "pathext" .texts v)
  | history {entries : Table} {fault : OptionsFault}
      (libexec : ∀ f, ¬ PathFault host table "libexec" f)
      (sysconf : ∀ f, ¬ PathFault host table "sysconf" f)
      (suffixes : ∀ v, table.value? "pathext" = some v →
        ∃ texts : List Text, v = .list (texts.map .text))
      (found : table.value? "history" = some (.table entries))
      (here : PathFault host entries "file" fault) : EntryFault host table fault

theorem loadTable_eq_error_iff {path : Path} :
    loadTable host path = .error fault ↔ FileFault host path fault := by
  constructor
  · intro h
    unfold loadTable at h
    split at h
    · cases h
    · rename_i hpassable
      rw [Bool.not_eq_true, Bool.not_eq_false'] at hpassable
      split at h
      · rename_i file hfound
        cases hread : Config.readTable host.setup.readableDepth file with
        | ok table => rw [hread] at h; cases h
        | error f =>
          rw [hread] at h
          cases h
          exact .badFormat hpassable hfound hread
      · rename_i reason hrefused
        split at h
        · cases h
        · rename_i hpresent
          cases h
          exact .unreadable hpassable hrefused (Bool.not_eq_true _ ▸ hpresent)
  · intro h
    cases h with
    | unreadable passable refused present => simp [loadTable, passable, refused, present]
    | badFormat passable found illFormed =>
      rw [loadTable, passable, found]
      exact congrArg (Except.mapError OptionsFault.badFormat) illFormed

/-! ## Suffixes and history -/

/-- All items are texts. -/
theorem mapM_textOf?_eq_some_iff {items : List Value} {texts : List Text} :
    items.mapM textOf? = some texts ↔ items = texts.map .text := by
  induction items generalizing texts with
  | nil => cases texts <;> simp
  | cons v rest ih =>
    cases v with
    | text t =>
      cases texts with
      | nil => simp [textOf?, Option.bind_eq_some_iff]
      | cons first others =>
        simp only [List.mapM_cons, textOf?, Option.pure_def, Option.bind_eq_bind, Option.bind_some,
          Option.bind_eq_some_iff, Option.some.injEq, List.cons.injEq, List.map_cons,
          Value.text.injEq, ih]
        constructor
        · rintro ⟨others, hrest, rfl, rfl⟩
          exact ⟨rfl, hrest⟩
        · rintro ⟨rfl, hrest⟩
          exact ⟨others, hrest, rfl, rfl⟩
    | integer | real | boolean | moment | list | table => cases texts <;> simp [textOf?]

theorem suffixesAt?_eq_error_iff :
    suffixesAt? host table = .error fault ↔ ∃ v, table.value? "pathext" = some v ∧
      (∀ texts : List Text, v ≠ .list (texts.map .text)) ∧
        fault = .ofValue host "pathext" .texts v := by
  constructor
  · intro h
    unfold suffixesAt? at h
    split at h
    · cases h
    · rename_i items hfound
      split at h
      · cases h
      · rename_i hnone
        cases h
        refine ⟨_, hfound, fun texts htexts => ?_, rfl⟩
        cases htexts
        rw [mapM_textOf?_eq_some_iff.mpr rfl] at hnone
        cases hnone
    · rename_i v hother hfound
      cases h
      exact ⟨v, hfound, fun texts htexts => hother _ htexts, rfl⟩
  · rintro ⟨v, hfound, hother, rfl⟩
    unfold suffixesAt?
    rw [hfound]
    cases v with
    | list items =>
      cases htexts : items.mapM textOf? with
      | none => simp only [htexts]
      | some texts => exact absurd (congrArg Value.list (mapM_textOf?_eq_some_iff.mp htexts)) (hother texts)
    | text | integer | real | boolean | moment | table => rfl

theorem historyFileAt_eq_error_iff {default : Path} :
    historyFileAt host table default = .error fault ↔ ∃ entries,
      table.value? "history" = some (.table entries) ∧ PathFault host entries "file" fault := by
  constructor
  · intro h
    unfold historyFileAt at h
    split at h
    · rename_i entries hfound
      rcases bind_eq_error_iff.mp h with hfile | ⟨file, -, hrest⟩
      · exact ⟨entries, hfound, pathAt?_eq_error_iff.mp hfile⟩
      · split at hrest <;> cases hrest
    · cases h
  · rintro ⟨entries, hfound, hfault⟩
    unfold historyFileAt
    rw [hfound]
    exact bind_eq_error_iff.mpr (.inl (pathAt?_eq_error_iff.mpr hfault))

/-! ## All together -/

/-- The home of a run: the one in the environment, or else the one that the machine knows. -/
def homeOf? (host : Host) (environment : List (Text × Text)) : Option Path :=
  ((setValueOf? environment "HOME").map Path.ofText).or (host.home none)

/-- The table is that of the configuration file. -/
def Configures (host : Host) (environment : List (Text × Text)) (a : Arguments) (table : Table) :
    Prop :=
  ∃ home, homeOf? host environment = some home ∧ loadTable host (a.configFile home) = .ok table

/-- **Why a run has no options.** -/
inductive Options.Refused (host : Host) (environment : List (Text × Text)) (a : Arguments) :
    OptionsFault → Prop
  | noHome (unknown : homeOf? host environment = none) : Options.Refused host environment a .noHome
  | file {home : Path} {fault : OptionsFault} (known : homeOf? host environment = some home)
      (here : FileFault host (a.configFile home) fault) : Options.Refused host environment a fault
  | entry {table : Table} {fault : OptionsFault} (configures : Configures host environment a table)
      (here : EntryFault host table fault) : Options.Refused host environment a fault

theorem pathAt?_succeeds_iff {key : Text} :
    (∃ p, pathAt? host table key = .ok p) ↔ ∀ f, ¬ PathFault host table key f := by
  simp only [exists_eq_ok_iff, ne_eq, pathAt?_eq_error_iff]

theorem suffixesAt?_succeeds_iff :
    (∃ s, suffixesAt? host table = .ok s) ↔ ∀ v, table.value? "pathext" = some v →
      ∃ texts : List Text, v = .list (texts.map .text) := by
  rw [exists_eq_ok_iff]
  constructor
  · intro h v hfound
    refine Classical.byContradiction fun hother => ?_
    refine h _ (suffixesAt?_eq_error_iff.mpr ⟨v, hfound, fun texts htexts => ?_, rfl⟩)
    exact hother ⟨texts, htexts⟩
  · intro h f hfault
    obtain ⟨v, hfound, hother, -⟩ := suffixesAt?_eq_error_iff.mp hfault
    obtain ⟨texts, htexts⟩ := h v hfound
    exact hother texts htexts

/-- The lookups in a table, whatever is made of what they find. -/
theorem lookups_eq_error_iff {default : Path}
    {settle : Option Path → Option Path → Option (List Text) → Option Path → Options} :
    (do
      let libexec ← pathAt? host table "libexec"
      let sysconf ← pathAt? host table "sysconf"
      let suffixes ← suffixesAt? host table
      let historyFile ← historyFileAt host table default
      return settle libexec sysconf suffixes historyFile) = .error fault ↔
      EntryFault host table fault := by
  simp only [bind_eq_error_iff, pathAt?_eq_error_iff]
  constructor
  · rintro (h | ⟨libexec, hlibexec, h | ⟨sysconf, hsysconf, h | ⟨suffixes, hsuffixes, h⟩⟩⟩)
    · exact .libexec h
    · exact .sysconf (pathAt?_succeeds_iff.mp ⟨libexec, hlibexec⟩) h
    · obtain ⟨v, hfound, hother, rfl⟩ := suffixesAt?_eq_error_iff.mp h
      exact .suffixes (pathAt?_succeeds_iff.mp ⟨libexec, hlibexec⟩)
        (pathAt?_succeeds_iff.mp ⟨sysconf, hsysconf⟩) hfound hother
    · rcases h with h | ⟨historyFile, -, h⟩
      · obtain ⟨entries, hfound, hhere⟩ := historyFileAt_eq_error_iff.mp h
        exact .history (pathAt?_succeeds_iff.mp ⟨libexec, hlibexec⟩)
          (pathAt?_succeeds_iff.mp ⟨sysconf, hsysconf⟩)
          (suffixesAt?_succeeds_iff.mp ⟨suffixes, hsuffixes⟩) hfound hhere
      · cases h
  · intro h
    cases h with
    | libexec here => exact .inl here
    | sysconf libexec here =>
      obtain ⟨_, hlibexec⟩ := pathAt?_succeeds_iff.mpr libexec
      exact .inr ⟨_, hlibexec, .inl here⟩
    | suffixes libexec sysconf found other =>
      obtain ⟨_, hlibexec⟩ := pathAt?_succeeds_iff.mpr libexec
      obtain ⟨_, hsysconf⟩ := pathAt?_succeeds_iff.mpr sysconf
      have hsuffixes : suffixesAt? host table = .error _ :=
        suffixesAt?_eq_error_iff.mpr ⟨_, found, other, rfl⟩
      exact .inr ⟨_, hlibexec, .inr ⟨_, hsysconf, .inl hsuffixes⟩⟩
    | history libexec sysconf suffixes found here =>
      obtain ⟨_, hlibexec⟩ := pathAt?_succeeds_iff.mpr libexec
      obtain ⟨_, hsysconf⟩ := pathAt?_succeeds_iff.mpr sysconf
      obtain ⟨_, hsuffixes⟩ := suffixesAt?_succeeds_iff.mpr suffixes
      have hhistory : historyFileAt host table default = .error fault :=
        historyFileAt_eq_error_iff.mpr ⟨_, found, here⟩
      exact .inr ⟨_, hlibexec, .inr ⟨_, hsysconf, .inr ⟨_, hsuffixes, .inl hhistory⟩⟩⟩

/-- What may go wrong once the home is known. -/
theorem bind_loadTable_eq_error_iff {home : Path} (hhome : homeOf? host environment = some home)
    {next : Table → Except OptionsFault Options}
    (hnext : ∀ table, next table = .error fault ↔ EntryFault host table fault) :
    loadTable host (a.configFile home) >>= next = .error fault ↔
      Options.Refused host environment a fault := by
  rw [bind_eq_error_iff, loadTable_eq_error_iff]
  constructor
  · rintro (h | ⟨table, htable, h⟩)
    · exact .file hhome h
    · exact .entry ⟨home, hhome, htable⟩ ((hnext table).mp h)
  · intro h
    cases h with
    | noHome unknown => rw [hhome] at unknown; cases unknown
    | file known here =>
      rw [hhome] at known
      cases known
      exact .inl here
    | entry configures here =>
      obtain ⟨_, known, htable⟩ := configures
      rw [hhome] at known
      cases known
      exact .inr ⟨_, htable, (hnext _).mpr here⟩

/-- **A run has no options for one of the listed reasons, and for no other.** -/
theorem Options.resolve_eq_error_iff :
    Options.resolve host environment a = .error fault ↔
      Options.Refused host environment a fault := by
  unfold Options.resolve
  dsimp only
  split
  · rename_i home hset
    have hhome : homeOf? host environment = some home := by rw [homeOf?, hset]; rfl
    exact bind_loadTable_eq_error_iff hhome fun table => lookups_eq_error_iff
  · rename_i hunset
    have hhome : homeOf? host environment = host.home none := by rw [homeOf?, hunset]; rfl
    unfold ownHome
    cases hown : host.home none with
    | some home =>
      exact bind_loadTable_eq_error_iff (hhome.trans hown) fun table => lookups_eq_error_iff
    | none =>
      rw [hown] at hhome
      constructor
      · intro h
        cases h
        exact .noHome hhome
      · intro h
        cases h with
        | noHome unknown => rfl
        | file known here => rw [hhome] at known; cases known
        | entry configures here =>
          obtain ⟨_, known, -⟩ := configures
          rw [hhome] at known
          cases known

end ConfigShell.CommandLine
