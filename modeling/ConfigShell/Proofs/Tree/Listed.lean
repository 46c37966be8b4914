import ConfigShell.CommandTree
import ConfigShell.Landing.Resolve
/-!
# What a listing has and where it leads

The names of a listing are those of visible entries: each container is a sub-directory, and each
command has a file behind it that is an entry of the directory. `Site.Reaches` says which rows of
names lead down the tree, one listed name at a time.
-/

namespace ConfigShell

/-! ## Listings -/

namespace Listing

variable {suffixes : List Text} {entries : List DirectoryEntry} {name file : Text}

theorem mem_sortByCode {texts : List Text} : name ∈ Text.sortByCode texts ↔ name ∈ texts :=
  List.mem_mergeSort

theorem mem_containers_ofEntries :
    name ∈ (ofEntries suffixes entries).containers ↔
      ∃ e ∈ entries, e.name = name ∧ e.kind = .directory ∧ isHidden e = false := by
  simp [ofEntries, mem_sortByCode, and_comm, and_left_comm]

/-- Going through the files that are found only adds to those kept. -/
theorem mem_of_mem_addFiles {found files : List (Text × Text)} {p : Text × Text}
    (h : p ∈ found.foldl addFile files) : p ∈ files ∨ p ∈ found := by
  induction found generalizing files with
  | nil => exact .inl h
  | cons new rest ih =>
    rcases ih h with h | h
    · rw [addFile] at h
      split at h
      · exact .inl h
      · rcases List.mem_append.mp h with h | h
        · exact .inl h
        · exact .inr (by simpa using .inl (List.mem_singleton.mp h))
    · exact .inr (List.mem_cons_of_mem _ h)

/-- **The file behind a command is a visible entry** that is a file or a link. -/
theorem exists_entry_of_mem_files (h : (name, file) ∈ (ofEntries suffixes entries).files) :
    ∃ e ∈ entries, e.name = file ∧ (e.kind = .file ∨ e.kind = .link) ∧ isHidden e = false ∧
      commandName? suffixes e = some name := by
  rcases mem_of_mem_addFiles h with h | h
  · cases h
  · -- only files and links are found to be commands
    obtain ⟨e, he, hcommand⟩ := List.mem_filterMap.mp h
    obtain ⟨hentry, hvisible⟩ := List.mem_filter.mp he
    have hkind : e.kind = .file ∨ e.kind = .link := by
      cases hk : e.kind with
      | file => exact .inl rfl
      | link => exact .inr rfl
      | directory => simp [command?, hk] at hcommand
      | other => simp [command?, hk] at hcommand
    have hname : (commandName? suffixes e).map (·, e.name) = some (name, file) := by
      rcases hkind with hk | hk <;> simpa [command?, hk] using hcommand
    obtain ⟨name', hcommandName, hpair⟩ := Option.map_eq_some_iff.mp hname
    cases hpair
    exact ⟨e, hentry, rfl, hkind, by simpa using hvisible, hcommandName⟩

theorem exists_file_of_mem_commands (h : name ∈ (ofEntries suffixes entries).commands) :
    ∃ file, (ofEntries suffixes entries).files.lookup name = some file := by
  obtain ⟨p, hp, rfl⟩ := List.mem_map.mp (mem_sortByCode.mp h)
  exact Option.isSome_iff_exists.mp (List.lookup_isSome_iff.mpr ⟨p, hp, BEq.rfl⟩)

theorem mem_files_of_lookup {files : List (Text × Text)} (h : files.lookup name = some file) :
    (name, file) ∈ files := by
  obtain ⟨before, after, rfl, -⟩ := List.lookup_eq_some_iff.mp h
  simp

/-- A command has a front of the name of its file for a name. -/
theorem prefix_of_commandName? {e : DirectoryEntry} (h : commandName? suffixes e = some name) :
    name <+: e.name := by
  unfold commandName? at h
  split at h
  · rename_i suffix _
    cases h
    unfold withoutSuffix
    split
    · exact List.nil_prefix
    · exact ⟨_, Text.takeCharacters_append_dropCharacters _ _⟩
  · split at h
    · cases h
      exact List.prefix_rfl
    · cases h

/-- What a visible entry's name begins with does not begin with a dot. -/
theorem head?_of_prefix {e : DirectoryEntry} (hvisible : isHidden e = false)
    (h : name <+: e.name) : name.head? ≠ some 0x2E := by
  obtain ⟨rest, hrest⟩ := h
  intro hdot
  simp [isHidden, ← hrest, hdot] at hvisible

/-! ### Every name is listed once -/

theorem nodup_addFile {files : List (Text × Text)} (h : (files.map (·.1)).Nodup)
    (new : Text × Text) : ((addFile files new).map (·.1)).Nodup := by
  unfold addFile
  split
  · exact h
  · rename_i hnew
    rw [List.map_append, List.nodup_append]
    refine ⟨h, by simp, fun name hname name' hname' hsame => hnew ?_⟩
    obtain ⟨p, hp, rfl⟩ := List.mem_map.mp hname
    obtain rfl := List.mem_singleton.mp hname'
    exact List.any_eq_true.mpr ⟨p, hp, beq_iff_eq.mpr hsame⟩

theorem nodup_addFiles (found : List (Text × Text)) {files : List (Text × Text)}
    (h : (files.map (·.1)).Nodup) : ((found.foldl addFile files).map (·.1)).Nodup := by
  induction found generalizing files with
  | nil => exact h
  | cons new found ih => exact ih (nodup_addFile h new)

theorem nodup_sortByCode {texts : List Text} (h : texts.Nodup) : (Text.sortByCode texts).Nodup :=
  (List.mergeSort_perm texts Text.codeLE).nodup_iff.mpr h

theorem nodup_commands : (ofEntries suffixes entries).commands.Nodup :=
  nodup_sortByCode (nodup_addFiles _ List.nodup_nil)

theorem nodup_containers (h : (entries.map (·.name)).Nodup) :
    (ofEntries suffixes entries).containers.Nodup := by
  have hsublist := (List.filter_sublist (l := entries.filter (!isHidden ·))
    (p := (·.kind == .directory))).trans List.filter_sublist
  exact nodup_sortByCode ((hsublist.map _).nodup h)

end Listing

/-! ## Places -/

/-- The path that the names lead to. -/
def Path.descend (p : Path) (names : List Text) : Path := names.foldl child p

@[simp]
theorem Path.descend_append_singleton (p : Path) (names : List Text) (name : Text) :
    p.descend (names ++ [name]) = (p.descend names).child name := by
  simp [descend]

namespace Site

variable (site : Site)

/-- The directory of the commands that the names lead to. -/
def directory (names : List Text) : Path := site.tree.libexec.descend names

/-- What the directory that the names lead to offers. -/
def listing (names : List Text) : Listing :=
  Listing.ofEntries site.tree.suffixes (site.host.entries (site.directory names))

/-- The names lead down the tree: each is that of a sub-directory listed in the directory that
those before it lead to. -/
inductive Reaches : List Text → Prop
  | top : Reaches []
  | under {names : List Text} {name : Text} (above : Reaches names)
      (listed : name ∈ (site.listing names).containers) : Reaches (names ++ [name])

/-- The file is an entry of the directory that the names lead to, and one of the commands listed
there is backed by it. -/
structure Backs (names : List Text) (file : Text) : Prop where
  command : ∃ name ∈ (site.listing names).commands,
    (site.listing names).files.lookup name = some file
  entry : ∃ e ∈ site.host.entries (site.directory names), e.name = file ∧
    (e.kind = .file ∨ e.kind = .link)
  visible : file.head? ≠ some 0x2E

variable {site}

/-- What holds of all visible names of sub-directories holds of the names on the way down. -/
theorem Reaches.forall_mem {P : Text → Prop} {names : List Text} (h : site.Reaches names)
    (hP : ∀ p, ∀ e ∈ site.host.entries p, Listing.isHidden e = false → P e.name) :
    ∀ name ∈ names, P name := by
  induction h with
  | top => intro name hname; cases hname
  | under above listed ih =>
    intro name hname
    rcases List.mem_append.mp hname with hname | hname
    · exact ih name hname
    · obtain ⟨e, he, rfl, -, hvisible⟩ := Listing.mem_containers_ofEntries.mp listed
      rw [List.mem_singleton.mp hname]
      exact hP _ e he hvisible

theorem Reaches.visible {names : List Text} (h : site.Reaches names) :
    ∀ name ∈ names, name.head? ≠ some 0x2E :=
  h.forall_mem fun _ _ _ hvisible => by simpa [Listing.isHidden] using hvisible

/-- The file that is kept for a listed command backs it. -/
theorem exists_backs {names : List Text} {name : Text}
    (h : name ∈ (site.listing names).commands) :
    ∃ file, (site.listing names).files.lookup name = some file ∧ site.Backs names file := by
  obtain ⟨file, hfile⟩ := Listing.exists_file_of_mem_commands h
  obtain ⟨e, he, rfl, hkind, hvisible, -⟩ :=
    Listing.exists_entry_of_mem_files (Listing.mem_files_of_lookup hfile)
  exact ⟨e.name, hfile, ⟨name, h, hfile⟩, ⟨e, he, rfl, hkind⟩,
    by simpa [Listing.isHidden] using hvisible⟩

end Site

end ConfigShell
