import ConfigShell.Proofs.Tree.Cited
/-!
# The word at which a line stops

A line is walked up to the first of its words that leads nowhere. From an ambiguous node no word
leads on, so a line that ends at one ends with the word that led there. Either way the line stops at
one of its words (`Session.StopsAt`), and that is the word it is complained of
(`Session.exists_stopsAt_of_refused`, `Session.exists_stopsAt_of_ambiguous`).
-/

namespace ConfigShell

open Shell (perform perform_bind_eq_ok_iff perform_map)

variable {site : Site} {l next last : Landing} {validate : Bool} {journal journal' : Journal}
  {s : Session} {lexed : Line.Lexed}

/-! ## Words that lead nowhere -/

/-- A walk that is refused has come to a word, led there by the words before it. -/
theorem Walk.exists_of_refused {tokens : List Line.Token} {walk : Walk} {e : WordError}
    (h : perform (words site validate l tokens) journal = (.ok walk, journal'))
    (he : walk.refused = some e) :
    ∃ before t after last journal₁, tokens = before ++ t :: after ∧
      Leads site l journal (before.map (.typed validate)) last journal₁ ∧
      perform (last.resolve site t.data (some t) validate) journal₁ =
        (.ok (.error e), journal') := by
  induction tokens generalizing l journal walk with
  | nil =>
    cases h
    cases he
  | cons t rest ih =>
    rw [words] at h
    obtain ⟨r, journal₁, hr, h⟩ := perform_bind_eq_ok_iff.mp h
    cases r with
    | error found =>
      cases h
      cases he
      exact ⟨[], t, rest, l, journal, rfl, .here _ _, hr⟩
    | ok next =>
      obtain ⟨others, journal₂, hothers, h⟩ := perform_bind_eq_ok_iff.mp h
      cases h
      obtain ⟨before, t', after, last, journal₃, rfl, hleads, hrefused⟩ := ih hothers he
      exact ⟨t :: before, t', after, last, journal₃, rfl, .on hr hleads, hrefused⟩

/-! ## Words that leave open what they mean -/

namespace Landing

/-- No node above this one is ambiguous. -/
def IsClearAbove (l : Landing) : Prop := ∀ n ∈ l.above, n.kind ≠ .ambiguous

/-- A word leads on only from a node that is not ambiguous. -/
theorem Takes.isClearAbove {word : Text} {token : Option Line.Token}
    (h : l.Takes site word token validate next) (hl : l.IsClearAbove) : next.IsClearAbove := by
  have hentered (n : Node) : (l.enter n).IsClearAbove :=
    List.forall_mem_cons.mpr ⟨h.not_ambiguous, hl⟩
  cases h with
  | up inContainer hup =>
    unfold parent? at hup
    split at hup
    · cases hup
    · rename_i node above habove
      cases hup
      intro n hn
      exact hl n (habove ▸ List.mem_cons_of_mem _ hn)
  | found | parameter | unclear | builtin | option => exact hentered _

/-- **The word that leads to an ambiguous node** is the one that the ambiguity is about. -/
theorem token_of_ambiguous {t : Line.Token} {a : Ambiguity} (hl : l.IsClearAbove)
    (h : perform (l.resolve site t.data (some t) validate) journal = (.ok (.ok next), journal'))
    (ha : next.node = .ambiguous a) :
    next = l.enter (.ambiguous a) ∧ a.token = some t := by
  have hnext : l.CitesNext (· = some t) next :=
    citesNext_resolve (P := (· = some t)) l t.data rfl validate journal (.ok next) (by rw [h])
  rcases hnext with hup | ⟨n, rfl, hn⟩
  · -- a word that leads up leads to a node above, and none of these is ambiguous
    unfold parent? at hup
    split at hup
    · cases hup
    · rename_i node above habove
      cases hup
      have hclear := hl node (habove ▸ List.mem_cons_self ..)
      obtain rfl : node = .ambiguous a := ha
      exact absurd rfl hclear
  · obtain rfl : n = .ambiguous a := ha
    exact ⟨rfl, hn a rfl⟩

end Landing

/-! ## Lines -/

namespace Session

/-- A line of a session stops at a word: the words before it lead on, and this word leads nowhere, or
it is the last one and leaves open what it means. -/
inductive StopsAt (site : Site) (s : Session) (lexed : Line.Lexed) (journal : Journal)
    (t : Line.Token) : Prop
  | nowhere {before after : List Line.Token} {l : Landing} {e : WordError}
      {journal' journal'' : Journal}
      (words : (Walk.splitRoot lexed.tokens).2 = before ++ t :: after)
      (leads : s.LeadsTo site (Walk.splitRoot lexed.tokens).1 before journal l journal')
      (refused : perform (l.resolve site t.data (some t) true) journal' = (.ok (.error e), journal''))
  | unclear {before : List Line.Token} {l : Landing} {a : Ambiguity} {journal' journal'' : Journal}
      (words : (Walk.splitRoot lexed.tokens).2 = before ++ [t])
      (leads : s.LeadsTo site (Walk.splitRoot lexed.tokens).1 before journal l journal')
      (opened : perform (l.resolve site t.data (some t) true) journal' =
        (.ok (.ok (l.enter (.ambiguous a))), journal''))

theorem StopsAt.mem {t : Line.Token} (h : s.StopsAt site lexed journal t) :
    t ∈ (Walk.splitRoot lexed.tokens).2 := by
  cases h with
  | nowhere words => simp [words]
  | unclear words => simp [words]

/-- A line with a word that leads nowhere has been walked up to there. -/
theorem exists_walk_of_refused {e : WordError}
    (h : perform (s.resolve site lexed true) journal = (.ok (.error (.word e)), journal')) :
    ∃ walk, perform (Walk.line site s.path lexed true) journal = (.ok (.ok walk), journal') ∧
      walk.refused = some e := by
  cases hcomment : lexed.isComment with
  | true =>
    rw [resolve, hcomment] at h
    cases h
  | false =>
    rw [resolve, hcomment] at h
    simp only [Bool.false_eq_true, if_false, perform_map] at h
    cases hline : perform (Walk.line site s.path lexed true) journal with
    | mk outcome after =>
      rw [hline] at h
      obtain ⟨hr, rfl⟩ := Prod.mk.inj h
      cases outcome with
      | error found => cases hr
      | ok r =>
        replace hr : Walk.settle r = .error (.word e) := Except.ok.inj hr
        cases r with
        | error name => cases hr
        | ok walk =>
          refine ⟨walk, rfl, ?_⟩
          unfold Walk.settle at hr
          dsimp only at hr
          split at hr
          · rename_i found hfound
            cases hr
            exact hfound
          · cases hr

/-- **A word complained of as leading nowhere** is the word at which the line stops. -/
theorem exists_stopsAt_of_refused {e : WordError}
    (h : perform (s.resolve site lexed true) journal = (.ok (.error (.word e)), journal')) :
    ∃ t, e.token = some t ∧ s.StopsAt site lexed journal t := by
  obtain ⟨walk, hline, he⟩ := exists_walk_of_refused h
  obtain ⟨first, journal₁, hstart, hwords⟩ := Walk.line_eq_ok_iff.mp hline
  obtain ⟨before, t, after, l, journal₂, htyped, hleads, hrefused⟩ :=
    Walk.exists_of_refused hwords he
  obtain ⟨top, htop, hfirst⟩ := Walk.start_eq_ok_iff.mp hstart
  have htoken : e.token = some t :=
    Landing.citesNext_resolve (P := (· = some t)) l t.data rfl true journal₂ (.error e)
      (by rw [hrefused])
  have hall := Walk.Leads.append_iff.mpr ⟨_, _, hfirst, hleads⟩
  exact ⟨t, htoken, .nowhere htyped ⟨top, htop, hall⟩ hrefused⟩

/-- **A word complained of as ambiguous** is the word at which the line stops. -/
theorem exists_stopsAt_of_ambiguous {steps : List (Line.Token × Node)} {a : Ambiguity}
    (words : lexed.isEmpty = false)
    (h : perform (s.resolve site lexed true) journal =
      (.ok (.ok { landing := some l, steps := steps }), journal'))
    (ha : l.node = .ambiguous a) :
    ∃ t, a.token = some t ∧ s.StopsAt site lexed journal t := by
  obtain ⟨-, top, htop, hall⟩ := resolve_eq_ok_iff.mp ⟨steps, h⟩
  obtain ⟨c, rfl, -⟩ := Walk.exists_container_of_top htop
  rcases List.eq_nil_or_concat (Walk.splitRoot lexed.tokens).2 with hnil | ⟨before, t, htyped⟩
  · -- a slash alone leads to the top, and that is a container
    have htokens : lexed.tokens ≠ [] := by
      intro htokens
      simp [Line.Lexed.isEmpty, htokens] at words
    rw [Walk.wordsOf, Walk.splitRoot_of_nil htokens hnil] at hall
    obtain ⟨rfl, -⟩ := Walk.Leads.nil_iff.mp hall
    cases ha
  · rw [List.concat_eq_append] at htyped
    have hwords : Walk.wordsOf s.path lexed true =
        ((if (Walk.splitRoot lexed.tokens).1 then [] else s.path).map .saved ++
          before.map (.typed true)) ++ [.typed true t] := by
      simp [Walk.wordsOf, htyped]
    rw [hwords] at hall
    obtain ⟨next, journal₁, hbefore, hlast⟩ := Walk.Leads.append_iff.mp hall
    obtain ⟨last, journal₂, hopened, hend⟩ := Walk.Leads.cons_iff.mp hlast
    obtain ⟨rfl, rfl⟩ := Walk.Leads.nil_iff.mp hend
    have hclear : next.IsClearAbove :=
      hbefore.invariant (fun hl htakes => htakes.isClearAbove hl) (List.forall_mem_nil _)
    obtain ⟨rfl, htoken⟩ := Landing.token_of_ambiguous hclear hopened ha
    exact ⟨t, htoken, .unclear htyped ⟨_, htop, hbefore⟩ hopened⟩

end Session

end ConfigShell
