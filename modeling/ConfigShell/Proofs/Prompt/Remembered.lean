import Mathlib.Data.Finset.Card
import ConfigShell.Prompt.History
import ConfigShell.Proofs.Text.WellFormed
/-!
# What a history gives back

The library of the prompt is known by the form of its files (`FileHistory.Format`): a heading and the
marked lines of the entry are added for each entry that is stored, and each run of marked lines is
loaded as an entry, the newest first. Nothing is said there of entries that look like other lines of
the file, or that are empty. That every entry comes back as it was stored is shown here
(`FileHistory.load_storeAll`). Of equal entries the shell takes only the newest, and no more than a
limit allows (`History.distinctUpTo_eq`). Put together, this is what a file gives back that did not
exist before (`FileHistory.loadDistinct_storeAll`).
-/

namespace ConfigShell

namespace History

/-! ## The form of a file -/

/-- The line belongs to an entry. -/
def IsMarked (line : Text) : Prop := line.head? = some mark

instance (line : Text) : Decidable (IsMarked line) :=
  inferInstanceAs (Decidable (line.head? = some mark))

/-- Lines as a file holds them. -/
def written (lines : List Text) : Text := lines.flatMap (· ++ [Text.newline])

/-- The lines of a text, each with a mark. -/
def markedLines (text : Text) : List Text := (Text.splitOn Text.newline text).map (mark :: ·)

/-- The longest runs of marked lines, in order. -/
def runs (lines : List Text) : List (List Text) :=
  (lines.splitOnP fun line => !decide (IsMarked line)).filter (!·.isEmpty)

/-- The entry that marked lines write. -/
def entryOf (run : List Text) : Text := Text.join [Text.newline] (run.map (·.drop 1))

/-- Lines that may stand in front of those of an entry: there is a comment among them. -/
structure IsHeading (lines : List Text) : Prop where
  comment : ∃ line ∈ lines, line.head? = some 0x23
  unmarked : ∀ line ∈ lines, ¬ IsMarked line
  single : ∀ line ∈ lines, Text.newline ∉ line

/-- An entry and the time it is made at. -/
structure Stored where
  time : Text
  /-- The time fits on a line. -/
  oneLine : Text.newline ∉ time
  text : Text
  isWellFormed : text.IsWellFormed

end History

open History

/-- **The form in which a library keeps its files.** -/
structure FileHistory.Format (library : FileHistory) : Prop where
  /-- An entry is added to a file with a heading in front of its lines. -/
  stores : ∀ (file : Option Text) (entry : Stored), ∃ heading, IsHeading heading ∧
    library.store entry.time file entry.text =
      file.getD [] ++ written (heading ++ markedLines entry.text)
  /-- A file that does not exist has no entry. -/
  absent : library.load none = []
  /-- Each run of marked lines is loaded as an entry, the last one first. -/
  loads : ∀ lines : List Text, (∀ line ∈ lines, Text.newline ∉ line) →
    (∀ line ∈ lines, IsMarked line → line.IsWellFormed) →
    library.load (some (written lines)) = ((runs lines).map entryOf).reverse

namespace History

variable {lines heading before : List Text} {text line : Text}

theorem written_append (lines others : List Text) :
    written (lines ++ others) = written lines ++ written others := List.flatMap_append

/-! ## Runs of marked lines -/

theorem isMarked_of_mem_markedLines (h : line ∈ markedLines text) : IsMarked line := by
  obtain ⟨own, -, rfl⟩ := List.mem_map.mp h
  rfl

theorem runs_of_marked (h : ∀ line ∈ lines, IsMarked line) (hlines : lines ≠ []) :
    runs lines = [lines] := by
  have hnone : ∀ line ∈ lines, (!decide (IsMarked line)) = false := by simpa using h
  simp [runs, List.splitOnP_eq_singleton hnone, hlines]

/-- A line without a mark is between runs. -/
theorem runs_append_cons (h : ¬ IsMarked line) (before after : List Text) :
    runs (before ++ line :: after) = runs before ++ runs after := by
  have hsep : (!decide (IsMarked line)) = true := by simpa using h
  rw [runs, List.splitOnP_append_cons before after hsep, List.filter_append]
  rfl

theorem runs_nil : runs [] = [] := rfl

/-- Lines without marks make no run. -/
theorem runs_append_of_unmarked (h : ∀ line ∈ before, ¬ IsMarked line) (after : List Text) :
    runs (before ++ after) = runs after := by
  induction before with
  | nil => rfl
  | cons line others ih =>
    obtain ⟨hline, hothers⟩ := List.forall_mem_cons.mp h
    have hfirst := runs_append_cons hline [] (others ++ after)
    rw [runs_nil, List.nil_append, ih hothers] at hfirst
    exact hfirst

/-- A heading is between runs. -/
theorem IsHeading.runs_append (h : IsHeading heading) (before after : List Text) :
    runs (before ++ (heading ++ after)) = runs before ++ runs after := by
  cases heading with
  | nil =>
    obtain ⟨comment, hcomment, -⟩ := h.comment
    cases hcomment
  | cons line others =>
    obtain ⟨hline, hothers⟩ := List.forall_mem_cons.mp h.unmarked
    rw [List.cons_append, runs_append_cons hline, runs_append_of_unmarked hothers]

theorem markedLines_ne_nil (text : Text) : markedLines text ≠ [] := by
  simp [markedLines]

/-- **Marked lines write the text they are lines of**, whatever its own lines look like. -/
theorem entryOf_markedLines (text : Text) : entryOf (markedLines text) = text := by
  have hunmark : (fun line : Text => line.drop 1) ∘ (mark :: ·) = id := rfl
  rw [entryOf, markedLines, List.map_map, hunmark, List.map_id, Text.join_splitOn]

theorem single_of_mem_markedLines (h : line ∈ markedLines text) : Text.newline ∉ line := by
  obtain ⟨lines, rest, hcut⟩ := text.exists_cutsInto
  rw [markedLines, hcut.splitOn_eq] at h
  obtain ⟨own, hown, rfl⟩ := List.mem_map.mp h
  have hsingle : Text.newline ∉ own := by
    rcases List.mem_append.mp hown with hown | hown
    · exact hcut.single own hown
    · rw [List.mem_singleton.mp hown]
      exact hcut.unended
  simpa [mark, Text.newline] using hsingle

theorem isWellFormed_cons_mark : Text.IsWellFormed (mark :: text) ↔ text.IsWellFormed := by
  have happend := Text.isWellFormed_append_ascii (t := []) (u := text) (c := mark) (by decide)
  rw [List.nil_append] at happend
  exact happend.trans (and_iff_right Text.isWellFormed_nil)

theorem isWellFormed_of_mem_markedLines (htext : text.IsWellFormed)
    (h : line ∈ markedLines text) : line.IsWellFormed := by
  obtain ⟨lines, rest, hcut⟩ := text.exists_cutsInto
  obtain ⟨hlines, hrest⟩ := hcut.isWellFormed htext
  rw [markedLines, hcut.splitOn_eq] at h
  obtain ⟨own, hown, rfl⟩ := List.mem_map.mp h
  rw [isWellFormed_cons_mark]
  rcases List.mem_append.mp hown with hown | hown
  · exact hlines own hown
  · rw [List.mem_singleton.mp hown]
    exact hrest

/-! ## Storing and loading -/

/-- The file holds these lines, as a library may load them. -/
structure Holds (file : Option Text) (lines : List Text) : Prop where
  eq : file.getD [] = written lines
  single : ∀ line ∈ lines, Text.newline ∉ line
  isWellFormed : ∀ line ∈ lines, IsMarked line → line.IsWellFormed

theorem holds_none : Holds none [] := ⟨rfl, nofun, nofun⟩

end History

namespace FileHistory

variable {library : FileHistory} {file : Option Text} {lines : List Text}

/-- The file after entries have been stored in it, one after another. -/
def storeAll (library : FileHistory) (file : Option Text) (stored : List Stored) : Option Text :=
  stored.foldl (fun file entry => some (library.store entry.time file entry.text)) file

/-- **One more entry** is one more run of lines. -/
theorem holds_store (h : library.Format) (hfile : Holds file lines) (entry : Stored) :
    ∃ after, Holds (some (library.store entry.time file entry.text)) after ∧
      (runs after).map entryOf = (runs lines).map entryOf ++ [entry.text] := by
  obtain ⟨heading, hheading, hstore⟩ := h.stores file entry
  refine ⟨lines ++ (heading ++ markedLines entry.text), ⟨?_, ?_, ?_⟩, ?_⟩
  · rw [Option.getD_some, hstore, hfile.eq, ← written_append]
  · simp only [List.forall_mem_append]
    exact ⟨hfile.single, hheading.single, fun line => single_of_mem_markedLines⟩
  · simp only [List.forall_mem_append]
    exact ⟨hfile.isWellFormed, fun line hline hmarked => absurd hmarked (hheading.unmarked line hline),
      fun line hline _ => isWellFormed_of_mem_markedLines entry.isWellFormed hline⟩
  · have hmarked : ∀ line ∈ markedLines entry.text, IsMarked line :=
      fun line => isMarked_of_mem_markedLines
    rw [hheading.runs_append, runs_of_marked hmarked (markedLines_ne_nil _), List.map_append,
      List.map_singleton, entryOf_markedLines]

theorem holds_storeAll (h : library.Format) (hfile : Holds file lines) (stored : List Stored) :
    ∃ after, Holds (library.storeAll file stored) after ∧
      (runs after).map entryOf = (runs lines).map entryOf ++ stored.map Stored.text := by
  induction stored generalizing file lines with
  | nil => exact ⟨lines, hfile, (List.append_nil _).symm⟩
  | cons entry later ih =>
    obtain ⟨between, hbetween, hentry⟩ := holds_store h hfile entry
    obtain ⟨after, hafter, hlater⟩ := ih hbetween
    refine ⟨after, hafter, ?_⟩
    rw [hlater, hentry, List.append_assoc, List.singleton_append, List.map_cons]

/-- What is loaded of a file are the entries that its lines write. -/
theorem load_of_holds (h : library.Format) (hfile : Holds file lines) :
    library.load file = ((runs lines).map entryOf).reverse := by
  cases file with
  | some contents =>
    have hcontents : contents = written lines := hfile.eq
    rw [hcontents, h.loads lines hfile.single hfile.isWellFormed]
  | none =>
    have hnothing : lines = [] := by
      cases lines with
      | nil => rfl
      | cons line others => cases line <;> cases hfile.eq
    rw [h.absent, hnothing]
    rfl

/-- **Entries are loaded as they were stored**, the newest first. -/
theorem load_storeAll (h : library.Format) (stored : List Stored) :
    library.load (library.storeAll none stored) = (stored.map Stored.text).reverse := by
  obtain ⟨lines, hlines, hentries⟩ := holds_storeAll h holds_none stored
  rw [load_of_holds h hlines, hentries, runs_nil, List.map_nil, List.nil_append]

end FileHistory

namespace History

/-! ## Distinct entries -/

/-- No text is kept twice. -/
theorem nodup_eraseDups (texts : List Text) : texts.eraseDups.Nodup := by
  induction hlength : texts.length using Nat.strongRecOn generalizing texts with
  | ind n ih =>
    cases texts with
    | nil => exact List.nodup_nil
    | cons text others =>
      have hshorter : (others.filter fun other => !other == text).length < n := by
        rw [← hlength, List.length_cons]
        exact Nat.lt_succ_of_le (List.length_filter_le _ _)
      rw [List.eraseDups_cons, List.nodup_cons]
      exact ⟨by simp, ih _ hshorter _ rfl⟩

theorem length_eraseDups (texts : List Text) : texts.eraseDups.length = texts.toFinset.card := by
  rw [← List.toFinset_card_of_nodup (nodup_eraseDups texts)]
  congr 1
  ext text
  simp

/-- A text that is given is seen from there on. -/
theorem filter_unseen (text : Text) (seen others : List Text) :
    (others.filter fun other => !seen.contains other).filter (fun other => !other == text) =
      others.filter fun other => !(text :: seen).contains other := by
  rw [List.filter_filter]
  refine List.filter_congr fun other _ => ?_
  rw [List.contains_cons, Bool.not_or]

/-- **What is given** is the first of each text that has not been seen, until with those seen there
are as many as the limit allows; one is given in any case. -/
theorem distinctUpTo_eq (limit : Int) (seen texts : List Text) :
    distinctUpTo limit seen texts =
      ((texts.filter fun text => !seen.contains text).eraseDups).take
        (max 1 (limit - seen.length)).toNat := by
  induction texts generalizing seen with
  | nil => simp [distinctUpTo]
  | cons text others ih =>
    rw [distinctUpTo]
    cases hseen : seen.contains text with
    | true =>
      simp only [hseen, if_true, List.filter_cons, Bool.not_true, Bool.false_eq_true, if_false]
      exact ih seen
    | false =>
      simp only [List.filter_cons, hseen, Bool.not_false, if_true, Bool.false_eq_true, if_false,
        List.eraseDups_cons, filter_unseen]
      split
      · rename_i hfull
        have hone : (max 1 (limit - seen.length)).toNat = 1 := by omega
        rw [hone]
        rfl
      · rename_i hroom
        have hmore : (max 1 (limit - seen.length)).toNat =
            (max 1 (limit - (text :: seen).length)).toNat + 1 := by
          rw [List.length_cons]
          omega
        rw [hmore, List.take_succ_cons, ih (text :: seen)]

end History

namespace FileHistory

variable {library : FileHistory}

/-- **A history file gives back what was stored in it**, if it did not exist before: the distinct
entries, each as it was stored and where it stands last, the newest first, and as many of them as the
limit allows. -/
theorem loadDistinct_storeAll (h : library.Format) (stored : List Stored) {limit : Int}
    (hlimit : 1 ≤ limit) :
    let loaded := library.loadDistinct (library.storeAll none stored) limit
    loaded = ((stored.map Stored.text).reverse.eraseDups).take limit.toNat ∧
      loaded.length = min limit.toNat (stored.map Stored.text).toFinset.card ∧ loaded.Nodup := by
  intro loaded
  have hloaded : loaded = ((stored.map Stored.text).reverse.eraseDups).take limit.toNat := by
    have hmax : (max 1 (limit - ([] : List Text).length)).toNat = limit.toNat := by
      rw [List.length_nil]
      omega
    show distinctUpTo limit [] _ = _
    rw [load_storeAll h stored, distinctUpTo_eq, hmax]
    simp
  refine ⟨hloaded, ?_, ?_⟩
  · rw [hloaded, List.length_take, length_eraseDups, List.toFinset_reverse]
  · rw [hloaded]
    exact (nodup_eraseDups _).sublist (List.take_sublist _ _)

end FileHistory

/-! ## A library of this form -/

namespace History

variable {lines : List Text} {line text : Text}

theorem isHeading_time (entry : Stored) : IsHeading [[], 0x23 :: 0x20 :: entry.time] where
  comment := ⟨0x23 :: 0x20 :: entry.time, by simp, rfl⟩
  unmarked := by simp [IsMarked, mark]
  single := by simpa [Text.newline] using entry.oneLine

theorem store_eq_written (entry : Stored) : store entry.time entry.text =
    written ([[], 0x23 :: 0x20 :: entry.time] ++ markedLines entry.text) := by
  have hstart : ("\n# " : Text) = [Text.newline, 0x23, 0x20] := by decide
  have hend : ("\n" : Text) = [Text.newline] := by decide
  rw [store, Text.markStrays_of_isWellFormed entry.isWellFormed, hstart, hend]
  simp [written, markedLines, List.flatMap_map]

namespace Loading

variable {l : Loading}

/-- The entry under way is what its lines make without the last line end. -/
theorem endEntry_of_lines (hlines : l.lines.reverse.flatten = text ++ [Text.newline]) :
    l.endEntry = { entries := text :: l.entries } := by
  cases hunder : l.lines with
  | nil => simp [hunder] at hlines
  | cons last before =>
    have hcharacters :
        Text.characters (text ++ [Text.newline]) = Text.characters text ++ [[Text.newline]] :=
      Text.characters_append_ascii (by decide) text []
    rw [endEntry, hunder]
    dsimp only
    rw [← hunder, hlines, hcharacters, List.dropLast_concat, Text.characters_flatten]

/-- A line without a mark ends the entry under way. -/
theorem takeLine_unmarked (h : ¬ IsMarked line) (l : Loading) :
    l.takeLine (line ++ [Text.newline]) = l.endEntry := by
  cases line with
  | nil => rfl
  | cons b t =>
    have hb : (b == mark) = false := by simpa [IsMarked] using h
    -- the first byte stays, or U+FFFD takes its place
    cases hfollow : Text.follow b (t ++ [Text.newline]) with
    | none =>
      simp [takeLine, Text.replaceStrays, Text.replaceUpTo, hfollow, Text.replacement, mark]
    | some n => simp [takeLine, Text.replaceStrays, Text.replaceUpTo, hfollow, hb]

/-- A line with a mark belongs to the entry under way. -/
theorem takeLine_marked (h : text.IsWellFormed) (l : Loading) :
    l.takeLine (mark :: text ++ [Text.newline]) =
      { l with lines := (text ++ [Text.newline]) :: l.lines } := by
  have hended : (text ++ [Text.newline]).IsWellFormed :=
    (Text.isWellFormed_append_ascii (by decide)).mpr ⟨h, Text.isWellFormed_nil⟩
  rw [takeLine, List.cons_append, Text.replaceStrays_cons_ascii (by decide),
    Text.replaceStrays_of_isWellFormed hended]
  rfl

end Loading

/-- Lines with line ends are their join with a line end behind it. -/
theorem written_eq_join (hlines : lines ≠ []) :
    written lines = Text.join [Text.newline] lines ++ [Text.newline] := by
  induction lines with
  | nil => exact absurd rfl hlines
  | cons line others ih =>
    cases others with
    | nil => simp [written, Text.join]
    | cons next more =>
      have hmore := ih (List.cons_ne_nil next more)
      rw [written, List.flatMap_cons, ← written, hmore]
      simp [Text.join, List.intercalate, List.intersperse]

/-- The lines of a run, when the file has been read so far. -/
theorem endEntry_run (run : List Text) (entries : List Text) :
    Loading.endEntry ⟨entries, (run.map (· ++ [Text.newline])).reverse⟩ =
      ⟨((runs (run.map (mark :: ·))).map entryOf).reverse ++ entries, []⟩ := by
  cases run with
  | nil => rfl
  | cons line others =>
    have hmarked : ∀ l ∈ (line :: others).map (mark :: ·), IsMarked l := by simp [IsMarked]
    have hunmark : (fun line : Text => line.drop 1) ∘ (mark :: ·) = id := rfl
    rw [runs_of_marked hmarked (by simp), List.map_singleton, entryOf, List.map_map, hunmark,
      List.map_id, List.reverse_singleton, List.singleton_append]
    refine Loading.endEntry_of_lines ?_
    dsimp only
    rw [List.reverse_reverse, ← List.flatMap_def]
    exact written_eq_join (List.cons_ne_nil line others)

/-- **Lines are read as the runs of marked lines in them**; those of `run` have been read before. -/
theorem foldl_takeLine (hformed : ∀ line ∈ lines, IsMarked line → line.IsWellFormed)
    (run entries : List Text) :
    ((lines.map (· ++ [Text.newline])).foldl Loading.takeLine
        ⟨entries, (run.map (· ++ [Text.newline])).reverse⟩).endEntry.entries =
      ((runs (run.map (mark :: ·) ++ lines)).map entryOf).reverse ++ entries := by
  induction lines generalizing run entries with
  | nil => rw [List.append_nil, List.map_nil, List.foldl_nil, endEntry_run]
  | cons line others ih =>
    obtain ⟨hline, hothers⟩ := List.forall_mem_cons.mp hformed
    rw [List.map_cons, List.foldl_cons]
    by_cases hmarked : IsMarked line
    · obtain ⟨own, rfl⟩ : ∃ own, line = mark :: own := by
        cases line with
        | nil => cases hmarked
        | cons b own => exact ⟨own, by rw [Option.some.inj hmarked]⟩
      have hmore := ih hothers (run ++ [own]) entries
      rw [Loading.takeLine_marked (isWellFormed_cons_mark.mp (hline hmarked))]
      simpa using hmore
    · have hmore := ih hothers [] (((runs (run.map (mark :: ·))).map entryOf).reverse ++ entries)
      rw [Loading.takeLine_unmarked hmarked, endEntry_run, runs_append_cons hmarked]
      simpa using hmore

end History

/-- The library to try the history with keeps its files in the form. -/
theorem FileHistory.format_plain : FileHistory.plain.Format where
  stores file entry := ⟨_, isHeading_time entry, congrArg (file.getD [] ++ ·) (store_eq_written entry)⟩
  absent := rfl
  loads lines hsingle hformed := by
    have hread := foldl_takeLine hformed [] []
    rw [List.append_nil] at hread
    show entries (written lines) = _
    rw [entries, written, (Text.CutsInto.of_lines hsingle).linesKeepingEnds_eq]
    exact hread

namespace FileHistory

/-- An entry that is made at noon. -/
def noon (text : String) : Stored :=
  { time := "2024-05-01 12:00:00.000000", oneLine := by decide, text := text
    isWellFormed := Text.isWellFormed_ofString text }

/-- Lines that look like those of the file, line ends at the end, and an empty entry made twice. -/
def diary : List Stored := ["exit", "set \"+a\n# b\n\n+\"", "", "show", "é\r\n", "", "+"].map noon

/-- Of the six distinct entries the limit leaves out the oldest. -/
theorem loadDistinct_storeAll_diary :
    plain.Format ∧ (1 : Int) ≤ 5 ∧ plain.loadDistinct (plain.storeAll none diary) 5 =
        ["+", "", "é\r\n", "show", "set \"+a\n# b\n\n+\""].map Text.ofString ∧
      (plain.loadDistinct (plain.storeAll none diary) 5).length = min 5 6 := by
  have hlimit : (1 : Int) ≤ 5 := by decide
  obtain ⟨hloaded, hlength, -⟩ := loadDistinct_storeAll format_plain diary hlimit
  refine ⟨format_plain, hlimit, ?_, ?_⟩
  · rw [hloaded]
    decide
  · rw [hlength]
    decide

end FileHistory

end ConfigShell
