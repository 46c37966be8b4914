import ConfigShell.Proofs.Tree.Leading
/-!
# The words that a complaint is about

A complaint about a line names a word of it: one that leads nowhere, or one that has led to an
ambiguous node. The words resolved on the way are the only ones that can be named. So what holds of
all of them, and of a word that stands in no line, holds of any word that is complained of
(`Session.comesTo_cites`).
-/

namespace ConfigShell

open Shell (ComesTo comesTo_pure comesTo_true comesTo_throw)

variable {site : Site} {l : Landing} {P : Option Line.Token → Prop} {token : Option Line.Token}

/-! ## Nodes -/

/-- If the node is ambiguous, `P` holds of the word that led to it. -/
def Node.Cites (P : Option Line.Token → Prop) (n : Node) : Prop :=
  ∀ a, n = .ambiguous a → P a.token

theorem Node.cites_of_kind {n : Node} (h : n.kind ≠ .ambiguous) : n.Cites P := by
  rintro a rfl
  exact absurd rfl h

theorem Node.cites_ambiguous {a : Ambiguity} (h : P a.token) : (Node.ambiguous a).Cites P := by
  rintro a' ⟨⟩
  exact h

/-- `P` holds of the words that led to ambiguous nodes on the way. -/
def Landing.Cites (P : Option Line.Token → Prop) (l : Landing) : Prop :=
  ∀ n ∈ l.node :: l.above, n.Cites P

namespace Landing

theorem Cites.enter (h : l.Cites P) {n : Node} (hn : n.Cites P) : (l.enter n).Cites P :=
  List.forall_mem_cons.mpr ⟨hn, h⟩

theorem Cites.parent {up : Landing} (h : l.Cites P) (hup : l.parent? = some up) : up.Cites P := by
  unfold parent? at hup
  split at hup
  · cases hup
  · rename_i node above habove
    cases hup
    intro n hn
    exact h n (List.mem_cons_of_mem _ (habove ▸ hn))

end Landing

/-- `P` holds of the word refused, or of what has been come to. -/
def CitesBoth {α : Type} (P : Option Line.Token → Prop) (Q : α → Prop) :
    Except WordError α → Prop
  | .error e => P e.token
  | .ok a => Q a

/-! ## One word -/

theorem Parameter.cites_matchCandidates (p : Parameter) (word : Text) (h : P token) :
    (p.matchCandidates word token).Cites P := by
  unfold matchCandidates matchValue matchWord
  dsimp only
  repeat' split
  all_goals first
    | exact Node.cites_ambiguous h
    | exact Node.cites_of_kind (by simp [Node.kind])

theorem Container.cites_lookUp (c : Container) (word : Text) (h : P token) :
    ComesTo (CitesBoth P (Node.Cites P)) (c.lookUp site word token) := by
  have hnode {n : Node} (hn : n.kind ≠ .ambiguous) :
      ComesTo (CitesBoth P (Node.Cites P)) (pure (.ok n)) :=
    comesTo_pure (Node.cites_of_kind hn)
  have hcontainer (name : Text) :
      ComesTo (CitesBoth P (Node.Cites P)) (do
        return .ok (← Node.container <$> site.tree.container site.host c name token)) := by
    rw [map_eq_pure_bind]
    refine ((comesTo_true _).bind fun below _ => ?_).bind fun n hn => comesTo_pure hn
    exact comesTo_pure (Node.cites_of_kind (by simp [Node.kind]))
  unfold lookUp
  dsimp only
  split
  · exact hnode (by simp [Node.kind])
  split
  · exact hnode (by simp [Node.kind])
  split
  · exact hcontainer _
  split
  · exact comesTo_pure h
  · exact hnode (by simp [Node.kind])
  · exact hnode (by simp [Node.kind])
  · exact hcontainer _
  · exact comesTo_pure (Node.cites_ambiguous h)

namespace Landing

/-- A word has led up, or to a node below of which `P` holds if it is ambiguous. -/
def CitesNext (P : Option Line.Token → Prop) (l next : Landing) : Prop :=
  l.parent? = some next ∨ ∃ n : Node, next = l.enter n ∧ n.Cites P

theorem Cites.next {next : Landing} (h : l.Cites P) (hnext : l.CitesNext P next) :
    next.Cites P := by
  rcases hnext with hup | ⟨n, rfl, hn⟩
  · exact h.parent hup
  · exact h.enter hn

theorem citesNext_resolveParameter (l : Landing) (command : Command) (word : Text) (h : P token)
    (validate : Bool) :
    ComesTo (l.CitesNext P) (l.resolveParameter site command word token validate) := by
  unfold resolveParameter
  dsimp only
  split
  · exact comesTo_pure (.inr ⟨_, rfl, Node.cites_of_kind (by simp [Node.kind])⟩)
  have hmatched (p : Parameter) :
      ComesTo (l.CitesNext P) (pure (l.enter (p.matchCandidates word token))) :=
    comesTo_pure (.inr ⟨_, rfl, p.cites_matchCandidates word h⟩)
  split
  · exact (comesTo_true _).bind fun p _ => hmatched p
  · exact hmatched _

/-- **A word that is refused is the word resolved**, and so is one that is ambiguous. -/
theorem citesNext_resolve (l : Landing) (word : Text) (h : P token) (validate : Bool) :
    ComesTo (CitesBoth P (l.CitesNext P)) (l.resolve site word token validate) := by
  have hparameter (c : Command) :
      ComesTo (CitesBoth P (l.CitesNext P))
        (Except.ok <$> l.resolveParameter site c word token validate) :=
    (citesNext_resolveParameter l c word h validate).map fun next hnext => hnext
  have hkept {n : Node} (hn : n.kind ≠ .ambiguous) :
      ComesTo (CitesBoth P (l.CitesNext P)) (pure (.ok (l.enter n))) :=
    comesTo_pure (.inr ⟨n, rfl, Node.cites_of_kind hn⟩)
  unfold resolve
  split
  · rename_i c hc
    split
    · split
      · rename_i up hup
        exact comesTo_pure (.inl hup)
      · exact comesTo_pure h
    · refine (c.cites_lookUp word h).map fun r hr => ?_
      cases r with
      | error e => exact hr
      | ok n => exact .inr ⟨n, rfl, hr⟩
  · exact hparameter _
  · split
    · exact hparameter _
    · exact comesTo_throw _
  · exact hkept (by simp [Node.kind])
  · exact hkept (by simp [Node.kind])
  · exact comesTo_pure h

theorem cites_resolve (hl : l.Cites P) (word : Text) (h : P token) (validate : Bool) :
    ComesTo (CitesBoth P (Cites P)) (l.resolve site word token validate) := by
  intro journal r hr
  have hnext := citesNext_resolve l word h validate journal r hr
  cases r with
  | error e => exact hnext
  | ok next => exact hl.next hnext

end Landing

/-! ## Lines -/

namespace Walk

/-- `P` holds of the word refused and of the words that led to ambiguous nodes. -/
structure Cites (P : Option Line.Token → Prop) (w : Walk) : Prop where
  landing : w.landing.Cites P
  refused : ∀ e, w.refused = some e → P e.token

theorem cites_replay (hl : l.Cites P) (unplaced : P none) (path : List Text) :
    ComesTo (Shell.OnSuccess (Landing.Cites P)) (replay site l path) := by
  induction path generalizing l with
  | nil => exact comesTo_pure (Shell.onSuccess_ok hl)
  | cons name rest ih =>
    unfold replay
    refine (Landing.cites_resolve hl name unplaced false).bind fun r hr => ?_
    cases r with
    | error e => exact comesTo_pure (Shell.onSuccess_error name)
    | ok next => exact ih hr

theorem cites_start (unplaced : P none) (path : List Text) (fromTop : Bool) :
    ComesTo (Shell.OnSuccess (Landing.Cites P)) (start site path fromTop) := by
  have htop : ComesTo (Landing.Cites P) (top site) := by
    refine (comesTo_true _).bind fun c _ => comesTo_pure ?_
    intro n hn
    rw [List.mem_singleton.mp hn]
    exact Node.cites_of_kind (by simp [Node.kind])
  exact htop.bind fun l hl => cites_replay hl unplaced _

theorem cites_words (hl : l.Cites P) (validate : Bool) {tokens : List Line.Token}
    (h : ∀ t ∈ tokens, P (some t)) : ComesTo (Cites P) (words site validate l tokens) := by
  induction tokens generalizing l with
  | nil => exact comesTo_pure ⟨hl, nofun⟩
  | cons token rest ih =>
    obtain ⟨htoken, hrest⟩ := List.forall_mem_cons.mp h
    unfold words
    refine (Landing.cites_resolve hl token.data htoken validate).bind fun r hr => ?_
    cases r with
    | error e =>
      refine comesTo_pure ⟨hl, ?_⟩
      rintro e' ⟨⟩
      exact hr
    | ok next =>
      refine (ih hr hrest).bind fun walk hwalk => comesTo_pure ?_
      exact ⟨hwalk.landing, hwalk.refused⟩

end Walk

/-- `P` holds of the word that leads nowhere, or of the words that led to ambiguous nodes on the way
to where the line has led. -/
def Resolution.Cites (P : Option Line.Token → Prop) : Except WalkError Resolution → Prop
  | .error (.stalePath _) => True
  | .error (.word e) => P e.token
  | .ok resolution => ∀ l, resolution.landing = some l → l.Cites P

/-- **Only words of the line are complained of**, or words that stand in no line. -/
theorem Session.comesTo_cites (s : Session) {lexed : Line.Lexed} (unplaced : P none)
    (h : ∀ t ∈ (Walk.splitRoot lexed.tokens).2, P (some t)) (validate : Bool) :
    ComesTo (Resolution.Cites P) (s.resolve site lexed validate) := by
  unfold resolve
  split
  · refine comesTo_pure fun l hl => ?_
    cases hl
  · have hline : ComesTo (Shell.OnSuccess (Walk.Cites P))
        (Walk.line site s.path lexed validate) := by
      unfold Walk.line
      simp only [Bool.false_and, Bool.false_eq_true, if_false, List.append_nil]
      refine (Walk.cites_start unplaced s.path _).bind fun r hr => ?_
      cases r with
      | error name => exact comesTo_pure (Shell.onSuccess_error name)
      | ok l =>
        refine (Walk.cites_words (hr l rfl) validate h).bind fun walk hwalk => ?_
        exact comesTo_pure (Shell.onSuccess_ok hwalk)
    refine hline.map fun r hr => ?_
    cases r with
    | error name => trivial
    | ok walk =>
      have hwalk := hr walk rfl
      unfold Walk.settle
      dsimp only
      split
      · rename_i e hrefused
        exact hwalk.refused e hrefused
      · rintro l ⟨⟩
        exact hwalk.landing

end ConfigShell
