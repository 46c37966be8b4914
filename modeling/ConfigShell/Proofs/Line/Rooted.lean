import Mathlib.Data.List.TakeWhile
import ConfigShell.Proofs.Line.Recovery
import ConfigShell.Proofs.Session.Completing
import ConfigShell.Proofs.Session.Cut
/-!
# Where a line starts, before and after its last word is replaced

Whether a line starts at the top can be seen from its first byte after the leading blanks
(`Line.splitRoot_of_lex`), and the words that it is resolved by are those typed, the first without
its slash then (`Walk.data_splitRoot`). Where the last word is replaced by a name, the beginning of
the line stays, so it starts where it started and has the same words before the name
(`Line.exists_replaced`).
-/

namespace ConfigShell

/-! ## The slash at the beginning -/

namespace Walk

theorem splitRoot_fst (tokens : List Line.Token) :
    (splitRoot tokens).1 = tokens.head?.any hasRootSlash := by
  cases tokens with
  | nil => rfl
  | cons first rest =>
    unfold splitRoot
    cases h : hasRootSlash first <;> simp [h]

/-- The words without the slash that says that they start at the top. -/
def rootless : Bool → List Text → List Text
  | true, first :: rest => if first == [Path.separator] then rest else first.drop 1 :: rest
  | _, words => words

theorem data_splitRoot (tokens : List Line.Token) :
    (splitRoot tokens).2.map (·.data) = rootless (splitRoot tokens).1 (tokens.map (·.data)) := by
  cases tokens with
  | nil => rfl
  | cons first rest =>
    unfold splitRoot
    cases hroot : hasRootSlash first with
    | false => simp [hroot, rootless]
    | true =>
      simp only [hroot, if_true, List.map_cons, rootless]
      split
      · rfl
      · rw [List.map_cons, Line.Token.dropFirst]
        exact congrArg (· :: _) (Signed.drop_natCast 1 first.data)

theorem rootless_append {words : List Text} (h : words ≠ []) (fromTop : Bool) (rest : List Text) :
    rootless fromTop (words ++ rest) = rootless fromTop words ++ rest := by
  cases words with
  | nil => exact absurd rfl h
  | cons first others =>
    cases fromTop with
    | false => rfl
    | true =>
      simp only [List.cons_append, rootless]
      split <;> rfl

end Walk

namespace Line

variable {text front : Text} {lexed : Lexed} {place : Nat} {words : List Text}

/-- The first byte after the leading blanks is a slash. -/
def startsAtTop (text : Text) : Bool := (text.dropWhile isBlank).head? == some Path.separator

/-- **A line starts at the top if a slash is its first byte** after blanks. -/
theorem splitRoot_of_lex (hlex : lex text = .ok lexed) (hcomment : lexed.isComment = false)
    (hclosed : lexed.state.isOpen = false) :
    (Walk.splitRoot lexed.tokens).1 = startsAtTop text := by
  obtain ⟨layout, rfl, -, htokens⟩ := exists_layout_of_lex hlex hcomment hclosed
  rw [htokens, Walk.splitRoot_fst, Layout.head?_tokens, startsAtTop, Layout.head?_dropWhile_source]
  cases layout.words.head? with
  | none => rfl
  | some u => exact u.hasRootSlash_token _

theorem startsAtTop_append {u : Text} (h : ¬ ∀ b ∈ u, isBlank b = true) (v : Text) :
    startsAtTop (u ++ v) = startsAtTop u := by
  have hne : u.dropWhile isBlank ≠ [] := fun hnil => h (List.dropWhile_eq_nil_iff.mp hnil)
  cases hkept : u.dropWhile isBlank with
  | nil => exact absurd hkept hne
  | cons b rest => simp [startsAtTop, List.dropWhile_append, hkept]

/-- Where words or a part of one are in front of a place, not all is blank there. -/
theorem CutsTo.not_blank (h : CutsTo text place words front) (hne : words ≠ [] ∨ front ≠ []) :
    ¬ ∀ b ∈ text.take place, isBlank b = true := by
  intro hblank
  obtain ⟨r, hread, -, rfl, rfl⟩ := h
  obtain ⟨r', hread', hrests, -, htokens⟩ :=
    Reading.feedAll_blanks (text.take place) hblank (r := { state := {} }) ⟨rfl, rfl⟩
  obtain rfl : r = r' := Except.ok.inj (hread.symm.trans hread')
  rcases hne with hne | hne
  · exact hne (by rw [htokens]; rfl)
  · exact hne (Reading.underway_of_rests hrests)

/-- Nothing but blanks is in front of the first word. -/
theorem exists_start {t : Token} {rest : List Token} (hlex : lex text = .ok lexed)
    (hcomment : lexed.isComment = false) (hclosed : lexed.state.isOpen = false)
    (htokens : lexed.tokens = t :: rest) :
    t.located = true ∧ ∃ start : Nat, t.start = start ∧
      ∀ b ∈ text.take start, isBlank b = true := by
  obtain ⟨layout, rfl, -, hlayout⟩ := exists_layout_of_lex hlex hcomment hclosed
  have hhead := layout.head?_tokens
  rw [← hlayout, htokens, List.head?_cons] at hhead
  obtain ⟨u, -, rfl⟩ := Option.map_eq_some_iff.mp hhead.symm
  refine ⟨rfl, layout.lead.length, rfl, ?_⟩
  rw [Layout.source, List.take_left]
  exact layout.isBlank_lead

/-! ## A name in place of the last word -/

/-- A written name is not taken for a slash that starts at the top. -/
theorem startsAtTop_escapeWord {blanks : Text} (h : ∀ b ∈ blanks, isBlank b = true) (name : Text)
    (rest : Text) : startsAtTop (blanks ++ (escapeWord name ++ rest)) = false := by
  obtain ⟨u, hu⟩ := exists_isEscaped name
  have hstarts := hu.starts
  rw [hu.source_eq] at hstarts
  cases hword : escapeWord name with
  | nil => rw [hword] at hstarts; cases hstarts
  | cons b more =>
    rw [hword] at hstarts
    obtain ⟨hblank, -, hslash⟩ := startsPlainly_iff.mp (by simpa using hstarts)
    rw [startsAtTop, List.dropWhile_append_of_pos h, List.cons_append]
    simp [hblank, hslash]

/-- **A name in place of the last word.** The line that results can be read. It starts where the
line started, and its words are those before the last one and then the name. -/
theorem exists_replaced {before : List Token} {t : Token} (hlex : lex text = .ok lexed)
    (hcomment : lexed.isComment = false) (hclosed : lexed.state.isOpen = false)
    (within : lexed.state.inWord = true) (hopens : ¬ lexed.OpensBehindRoot)
    (hlast : (Walk.splitRoot lexed.tokens).2 = before ++ [t]) {name : Text} (hname : name ≠ []) :
    ∃ replaced, lex (Signed.take (Completion.replaceFrom lexed (some t) false) text ++
        (escapeWord name ++ [0x20])) = .ok replaced ∧
      replaced.isComment = false ∧
      (Walk.splitRoot replaced.tokens).1 = (Walk.splitRoot lexed.tokens).1 ∧
      (Walk.splitRoot replaced.tokens).2.map (·.data) = before.map (·.data) ++ [name] := by
  have hprobed : lexed.probed.tokens = lexed.tokens := by simp [Lexed.probed, within]
  have hcuts : lexed.CutsFor t false := by
    rcases exists_cutsFor hlex hcomment hopens with hroot | ⟨init, t', hinit, hcuts⟩
    · rw [hprobed] at hroot
      rw [hroot] at hlast
      exact absurd hlast (List.append_ne_nil_of_right_ne_nil _ (List.cons_ne_nil _ _)).symm
    · rw [hprobed, hlast] at hinit
      obtain ⟨-, hsame⟩ := List.append_inj' hinit rfl
      rw [List.singleton_inj.mp hsame]
      exact hcuts fun h => absurd h Bool.false_ne_true
  obtain ⟨words, front, place, hkeeps, hplace, hcut⟩ := hcuts
  obtain ⟨hnot, r, -, hfinish⟩ := exists_feedAll_of_lex hlex hcomment
  have hsource : lexed.source = text := by
    rw [hfinish]
    rfl
  rw [hsource] at hcut
  obtain ⟨replaced, hreplaced, hplain, hends, hdata⟩ := hcut.lex_insert hnot name false
  refine ⟨replaced, by rw [hplace, Signed.take_natCast]; exact hreplaced, hplain, ?_⟩
  have hwords := Walk.data_splitRoot lexed.tokens
  rw [hlast, List.map_append, List.map_singleton] at hwords
  rw [Walk.data_splitRoot replaced.tokens, hdata, splitRoot_of_lex hreplaced hplain hends]
  -- unless all that is in front of the name is blank, the line begins as before
  have hkept (hne : words.map (·.data) ≠ [] ∨ front ≠ []) :
      startsAtTop (text.take place ++ (escapeWord name ++ [suffix false])) =
        (Walk.splitRoot lexed.tokens).1 := by
    rw [startsAtTop_append (hcut.not_blank hne), splitRoot_of_lex hlex hcomment hclosed,
      ← startsAtTop_append (hcut.not_blank hne) (text.drop place), List.take_append_drop]
  cases hkeeps with
  | outside ended => exact absurd within (by simp [ended])
  | @root t₀ _ htokens rooted =>
    have hroot : (Walk.splitRoot lexed.tokens).1 = true := by
      rw [Walk.splitRoot_fst, htokens]
      exact rooted
    have hbefore : before = [] := by
      have hlength := congrArg List.length hwords
      rw [hroot, htokens] at hlength
      cases before with
      | nil => rfl
      | cons first others => grind [Walk.rootless]
    rw [hkept (.inr (List.cons_ne_nil _ _)), hroot, hbefore]
    simp [Walk.rootless, suffixData, hname]
  | @word _ t₀ _ htokens unrooted =>
    cases words with
    | nil =>
      have hunrooted : Walk.splitRoot lexed.tokens = (false, [t₀]) := by
        rw [htokens]
        exact Walk.splitRoot_unrooted (unrooted rfl)
      rw [hunrooted] at hlast ⊢
      obtain ⟨hbefore, hsame⟩ := List.append_inj' (show [] ++ [t₀] = before ++ [t] from hlast) rfl
      obtain rfl := List.singleton_inj.mp hsame
      obtain ⟨located, start, hstart, hblank⟩ := exists_start hlex hcomment hclosed htokens
      rw [Completion.replaceFrom_word lexed within located, hstart, Int.ofNat_inj] at hplace
      rw [startsAtTop_escapeWord (hplace ▸ hblank), ← hbefore]
      simp [Walk.rootless, suffixData]
    | cons first others =>
      have hne : (first :: others).map (·.data) ≠ [] := List.cons_ne_nil _ _
      have htyped : lexed.tokens.map (·.data) = (first :: others).map (·.data) ++ [t₀.data] := by
        rw [htokens, List.map_append, List.map_singleton]
      rw [htyped, Walk.rootless_append hne] at hwords
      rw [hkept (.inl hne), Walk.rootless_append hne, (List.append_inj' hwords rfl).1]
      simp [suffixData]

end Line

end ConfigShell
