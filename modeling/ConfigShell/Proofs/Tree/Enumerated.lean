import Mathlib.Data.List.Nodup
import ConfigShell.Proofs.Text.Order
import ConfigShell.Proofs.Tree.Listed
/-!
# The order in which a directory is read

A directory is read in an order of its own. The names of its listing are sorted, so the order makes no
difference to them. The file behind a command is the first entry that gives the command
(`Listing.lookup_ofEntries`), so there the order decides wherever two entries give the same command:
where a file is runnable under its own name and another has this name in front of a suffix, or where
both have it in front of one (`Listing.ofEntries_perm`).
-/

namespace ConfigShell.Listing

variable {suffixes : List Text} {entries entries' : List DirectoryEntry} {name : Text}
  {e : DirectoryEntry}

/-! ## The file behind a command -/

/-- The entry is visible and is a command of this name. -/
def gives (suffixes : List Text) (name : Text) (e : DirectoryEntry) : Bool :=
  !isHidden e && (command? suffixes e).any (·.1 == name)

theorem lookup_cons (p : Text × Text) (files : List (Text × Text)) :
    List.lookup name (p :: files) = if p.1 = name then some p.2 else files.lookup name := by
  obtain ⟨key, file⟩ := p
  rw [List.lookup_cons]
  by_cases hname : key = name
  · simp [hname]
  · simp [hname, beq_eq_false_iff_ne.mpr (Ne.symm hname)]

theorem lookup_addFile (files : List (Text × Text)) (new : Text × Text) :
    (addFile files new).lookup name = (files ++ [new]).lookup name := by
  unfold addFile
  split
  · rename_i hknown
    obtain ⟨p, hp, hsame⟩ := List.any_eq_true.mp hknown
    rw [List.lookup_append, lookup_cons]
    by_cases hname : new.1 = name
    · -- the command has a file already
      have hfound : (files.lookup name).isSome :=
        List.lookup_isSome_iff.mpr ⟨p, hp, by rw [eq_of_beq hsame, hname]; exact BEq.rfl⟩
      rw [Option.or_of_isSome hfound]
    · rw [if_neg hname, List.lookup_nil, Option.or_none]
  · rfl

/-- Of all files that are found for a command the first one is kept. -/
theorem lookup_addFiles (found files : List (Text × Text)) :
    (found.foldl addFile files).lookup name = (files ++ found).lookup name := by
  induction found generalizing files with
  | nil => rw [List.foldl_nil, List.append_nil]
  | cons new found ih =>
    rw [List.foldl_cons, ih, List.lookup_append, lookup_addFile, ← List.lookup_append,
      List.append_assoc, List.singleton_append]

/-- The file found for an entry is the entry. -/
theorem snd_of_command? {p : Text × Text} (h : command? suffixes e = some p) : p.2 = e.name := by
  unfold command? at h
  split at h
  all_goals first
    | cases h
    | obtain ⟨name, -, rfl⟩ := Option.map_eq_some_iff.mp h
      rfl

/-- **The file behind a command is the first entry that gives it.** -/
theorem lookup_ofEntries :
    (ofEntries suffixes entries).files.lookup name =
      (entries.find? (gives suffixes name)).map (·.name) := by
  rw [ofEntries, lookup_addFiles, List.nil_append]
  induction entries with
  | nil => rfl
  | cons e entries ih =>
    cases hhidden : isHidden e with
    | true =>
      have hnot : ¬ gives suffixes name e = true := by simp [gives, hhidden]
      rw [List.filter_cons_of_neg (by simp [hhidden]), ih, List.find?_cons_of_neg hnot]
    | false =>
      rw [List.filter_cons_of_pos (by simp [hhidden])]
      cases hcommand : command? suffixes e with
      | none =>
        have hnot : ¬ gives suffixes name e = true := by simp [gives, hcommand]
        rw [List.filterMap_cons_none hcommand, ih, List.find?_cons_of_neg hnot]
      | some p =>
        have hgives : gives suffixes name e = true ↔ p.1 = name := by
          simp [gives, hhidden, hcommand]
        rw [List.filterMap_cons_some hcommand, lookup_cons, ih, snd_of_command? hcommand]
        by_cases hname : p.1 = name
        · rw [if_pos hname, List.find?_cons_of_pos (hgives.mpr hname), Option.map_some]
        · rw [if_neg hname, List.find?_cons_of_neg (mt hgives.mp hname)]

/-- The commands are those that some entry gives. -/
theorem mem_names_files :
    name ∈ (ofEntries suffixes entries).files.map (·.1) ↔
      ∃ e ∈ entries, gives suffixes name e = true := by
  have hlookup : name ∈ (ofEntries suffixes entries).files.map (·.1) ↔
      ((ofEntries suffixes entries).files.lookup name).isSome := by
    rw [List.lookup_isSome_iff, List.mem_map]
    exact exists_congr fun p => and_congr_right fun _ => by rw [beq_iff_eq, eq_comm]
  rw [hlookup, lookup_ofEntries, Option.isSome_map, List.find?_isSome]

/-- No listed name begins with a dot. -/
theorem head?_of_mem_names
    (h : name ∈ (ofEntries suffixes entries).containers ++ (ofEntries suffixes entries).commands) :
    name.head? ≠ some 0x2E := by
  rcases List.mem_append.mp h with h | h
  · obtain ⟨e, -, rfl, -, hvisible⟩ := mem_containers_ofEntries.mp h
    exact head?_of_prefix hvisible List.prefix_rfl
  · obtain ⟨file, hfile⟩ := exists_file_of_mem_commands h
    obtain ⟨e, -, -, -, hvisible, hname⟩ := exists_entry_of_mem_files (mem_files_of_lookup hfile)
    exact head?_of_prefix hvisible (prefix_of_commandName? hname)

/-! ## Another order -/

/-- **The names listed are the same in every order.** -/
theorem names_of_perm (h : entries.Perm entries') :
    (ofEntries suffixes entries').containers = (ofEntries suffixes entries).containers ∧
      (ofEntries suffixes entries').commands = (ofEntries suffixes entries).commands := by
  constructor
  · exact Text.sortByCode_eq_of_perm (((h.symm.filter _).filter _).map _)
  · refine Text.sortByCode_eq_of_perm ((List.perm_ext_iff_of_nodup ?_ ?_).mpr fun name => ?_)
    · exact nodup_addFiles _ List.nodup_nil
    · exact nodup_addFiles _ List.nodup_nil
    · show name ∈ (ofEntries suffixes entries').files.map (·.1) ↔
        name ∈ (ofEntries suffixes entries).files.map (·.1)
      rw [mem_names_files, mem_names_files]
      exact exists_congr fun e => and_congr_left fun _ => h.symm.mem_iff

/-- Where one entry at most gives the command, it is behind it wherever it stands. -/
theorem lookup_eq_some_iff {file : Text} (hone : ∀ e ∈ entries, ∀ e' ∈ entries,
      gives suffixes name e = true → gives suffixes name e' = true → e = e') :
    (ofEntries suffixes entries).files.lookup name = some file ↔
      ∃ e ∈ entries, gives suffixes name e = true ∧ e.name = file := by
  rw [lookup_ofEntries, Option.map_eq_some_iff]
  constructor
  · rintro ⟨e, hfound, hname⟩
    exact ⟨e, List.mem_of_find?_eq_some hfound, List.find?_some hfound, hname⟩
  · rintro ⟨e, he, hgives, hname⟩
    obtain ⟨first, hfirst⟩ := Option.isSome_iff_exists.mp (List.find?_isSome.mpr ⟨e, he, hgives⟩)
    obtain rfl :=
      hone first (List.mem_of_find?_eq_some hfirst) e he (List.find?_some hfirst) hgives
    exact ⟨first, hfirst, hname⟩

/-- The file behind a command is the same in every order exactly if one entry at most gives it. -/
theorem lookup_of_perm_iff (hnames : (entries.map (·.name)).Nodup) :
    (∀ entries', entries.Perm entries' →
        (ofEntries suffixes entries').files.lookup name =
          (ofEntries suffixes entries).files.lookup name) ↔
      ∀ e ∈ entries, ∀ e' ∈ entries, gives suffixes name e = true → gives suffixes name e' = true →
        e = e' := by
  constructor
  · intro hsame e he e' he' hgives hgives'
    -- each of the two entries can come first
    have hfirst {e : DirectoryEntry} (he : e ∈ entries) (hgives : gives suffixes name e = true) :
        (ofEntries suffixes entries).files.lookup name = some e.name := by
      obtain ⟨before, behind, hcut⟩ := List.append_of_mem he
      have hperm : entries.Perm (e :: (before ++ behind)) := hcut ▸ List.perm_middle
      rw [← hsame _ hperm, lookup_ofEntries, List.find?_cons_of_pos hgives, Option.map_some]
    have hname : e.name = e'.name :=
      Option.some.inj ((hfirst he hgives).symm.trans (hfirst he' hgives'))
    exact List.inj_on_of_nodup_map hnames he he' hname
  · intro hone entries' hperm
    have hone' : ∀ e ∈ entries', ∀ e' ∈ entries', gives suffixes name e = true →
        gives suffixes name e' = true → e = e' :=
      fun e he e' he' => hone e (hperm.mem_iff.mpr he) e' (hperm.mem_iff.mpr he')
    refine Option.ext fun file => ?_
    rw [lookup_eq_some_iff hone', lookup_eq_some_iff hone]
    exact exists_congr fun e => and_congr_left fun _ => hperm.symm.mem_iff

/-- **What the order in which a directory is read makes of its listing.** The containers and the
commands are the same in every order; both are sorted strictly by the codes of their characters, and
no name begins with a dot. The file behind a command is the same in every order exactly if no two
entries give the command; where two do, it is the one that is read first. -/
theorem ofEntries_perm (suffixes : List Text) (hnames : (entries.map (·.name)).Nodup) :
    (∀ entries', entries.Perm entries' →
      (ofEntries suffixes entries').containers = (ofEntries suffixes entries).containers ∧
      (ofEntries suffixes entries').commands = (ofEntries suffixes entries).commands) ∧
    (ofEntries suffixes entries).containers.Pairwise Text.Precedes ∧
    (ofEntries suffixes entries).commands.Pairwise Text.Precedes ∧
    (∀ name ∈ (ofEntries suffixes entries).containers ++ (ofEntries suffixes entries).commands,
      name.head? ≠ some 0x2E) ∧
    ∀ name,
      (ofEntries suffixes entries).files.lookup name =
        (entries.find? (gives suffixes name)).map (·.name) ∧
      ((∀ entries', entries.Perm entries' →
          (ofEntries suffixes entries').files.lookup name =
            (ofEntries suffixes entries).files.lookup name) ↔
        ∀ e ∈ entries, ∀ e' ∈ entries,
          gives suffixes name e = true → gives suffixes name e' = true → e = e') := by
  have hdirectories := ((List.filter_sublist (p := (·.kind == .directory))).trans
    (List.filter_sublist (l := entries) (p := (!isHidden ·)))).map (·.name)
  refine ⟨fun entries' => names_of_perm, ?_, ?_, fun name => head?_of_mem_names, fun name => ?_⟩
  · exact Text.pairwise_precedes_sortByCode (hdirectories.nodup hnames)
  · exact Text.pairwise_precedes_sortByCode (nodup_addFiles _ List.nodup_nil)
  · exact ⟨lookup_ofEntries, lookup_of_perm_iff hnames⟩

/-- A directory of which two files give the command `show`, where `.sh` is a suffix. -/
def twoShows : List DirectoryEntry :=
  [⟨"show.sh", .file, false⟩, ⟨"ping", .file, true⟩, ⟨"show", .file, true⟩]

/-- The commands and what is behind `ping` are the same in every order; what is behind `show` is
not. -/
theorem ofEntries_perm_twoShows :
    (twoShows.map (·.name)).Nodup ∧
    (∀ entries', twoShows.Perm entries' →
      (ofEntries [".sh"] entries').commands = (ofEntries [".sh"] twoShows).commands ∧
      (ofEntries [".sh"] entries').files.lookup ("ping" : Text) = some ("ping" : Text)) ∧
    ¬ ∀ entries', twoShows.Perm entries' →
      (ofEntries [".sh"] entries').files.lookup ("show" : Text) =
        (ofEntries [".sh"] twoShows).files.lookup ("show" : Text) := by
  have hnames : (twoShows.map (·.name)).Nodup := by decide +kernel
  obtain ⟨hsame, -, -, -, hfiles⟩ := ofEntries_perm [".sh"] hnames
  obtain ⟨hlookup, hping⟩ := hfiles "ping"
  obtain ⟨-, hshow⟩ := hfiles "show"
  have hone : ∀ e ∈ twoShows, ∀ e' ∈ twoShows, gives [".sh"] "ping" e = true →
      gives [".sh"] "ping" e' = true → e = e' := by decide +kernel
  have htwo : ¬ ∀ e ∈ twoShows, ∀ e' ∈ twoShows, gives [".sh"] "show" e = true →
      gives [".sh"] "show" e' = true → e = e' := by decide +kernel
  have hfirst : (twoShows.find? (gives [".sh"] "ping")).map (·.name) = some ("ping" : Text) := by
    decide +kernel
  refine ⟨hnames, fun entries' hperm => ⟨(hsame entries' hperm).2, ?_⟩,
    fun hall => htwo (hshow.mp hall)⟩
  rw [hping.mpr hone entries' hperm, hlookup, hfirst]

/-- Read from the other end the directory has another file behind `show`. -/
theorem ofEntries_twoShows_reverse :
    twoShows.Perm twoShows.reverse ∧ (twoShows.map (·.name)).Nodup ∧
    (ofEntries [".sh"] twoShows).files.lookup ("show" : Text) = some ("show.sh" : Text) ∧
    (ofEntries [".sh"] twoShows.reverse).files.lookup ("show" : Text) = some ("show" : Text) := by
  refine ⟨(List.reverse_perm twoShows).symm, ?_, ?_, ?_⟩
  all_goals decide +kernel

end ConfigShell.Listing
