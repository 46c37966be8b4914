import ConfigShell.Proofs.Tree.Abbreviated
import ConfigShell.Proofs.Tree.Bare
/-!
# Words taken again

Below containers a word leads to the same place whenever and wherever in a line it is taken: there
only its bytes matter (`Landing.ResolvesTo.alike`, `Walk.Leads.alike`). And what it has led to, the
name of that leads to as well, if the word is a beginning of it (`Landing.ResolvesTo.by_name`).
-/

namespace ConfigShell

open Shell (perform IsQuiet)

variable {site : Site} {l l' first next last : Landing} {c : Container} {word name : Text}
  {token : Option Line.Token} {validate : Bool} {journal journal' journal'' : Journal}
  {words : List Walk.Word}

/-! ## The same words again -/

namespace Landing

/-- What a word leads to in a container, it always leads to there. -/
theorem resolvesTo_of_perform (hl : l.node = .container c) {r : Except WordError Landing}
    (h : perform (l.resolve site word token validate) journal = (.ok r, journal')) :
    l.ResolvesTo site word token validate r ∧ journal' = journal := by
  have hquiet : IsQuiet (l.resolve site word token validate) := by
    rw [resolve_validate (by rw [hl]; rfl)]
    exact l.isQuiet_resolve word token
  refine ⟨fun journal₁ => ?_, hquiet.journal_eq h⟩
  rw [hquiet.perform_eq journal₁ journal, h]

theorem kind_of_bare (hbare : l'.bare = l.bare) : l'.node.kind = l.node.kind := by
  rw [← Node.kind_bare, node_bare_eq hbare, Node.kind_bare]

theorem exists_container_of_bare (hl : l.node = .container c) (hbare : l'.bare = l.bare) :
    ∃ c', l'.node = .container c' :=
  Node.kind_eq_container_iff.mp (by rw [kind_of_bare hbare, hl]; rfl)

/-- **A word leads on alike in a container**, wherever in a line it stands. -/
theorem ResolvesTo.alike (h : l.ResolvesTo site word token validate (.ok next))
    (hl : l.node = .container c) (hbare : l'.bare = l.bare) (token' : Option Line.Token)
    (validate' : Bool) :
    ∃ next', l'.ResolvesTo site word token' validate' (.ok next') ∧ next'.bare = next.bare := by
  obtain ⟨c', hl'⟩ := exists_container_of_bare hl hbare
  obtain ⟨-, hmeets⟩ :=
    alike_resolve_container site hbare.symm hl hl' word token token' validate validate' {} {} rfl
  rw [h {}] at hmeets
  generalize hresult : perform (l'.resolve site word token' validate') {} = result at hmeets
  obtain ⟨outcome, journal⟩ := result
  cases hmeets with
  | ok related =>
    cases related with
    | ok hnext => exact ⟨_, (resolvesTo_of_perform hl' hresult).1, hnext.symm⟩

/-- Below anything but a container there is none. -/
theorem Takes.kind_ne_container (h : l.Takes site word token validate next)
    (hl : l.node.kind ≠ .container) : next.node.kind ≠ .container := by
  cases h with
  | up inContainer | found inContainer => simp [inContainer, Node.kind] at hl
  | parameter | unclear | builtin | option => simp [enter, Node.kind]

end Landing

namespace Walk.Leads

/-- Words that lead to a container lead there from one. -/
theorem exists_container (h : Leads site l journal words last journal')
    (hlast : last.node.kind = .container) : ∃ c, l.node = .container c := by
  by_contra hnone
  have hl : l.node.kind ≠ .container := fun hkind =>
    hnone (Node.kind_eq_container_iff.mp hkind)
  exact h.invariant (fun hl htakes => htakes.kind_ne_container hl) hl hlast

/-- **Words of the same bytes lead to the same container again.** -/
theorem alike (h : Leads site l journal words last journal')
    (hlast : last.node.kind = .container) (hbare : l'.bare = l.bare) (words' : List Walk.Word)
    (hwords : words'.map (·.text) = words.map (·.text)) :
    ∃ last', last'.bare = last.bare ∧ ∀ journal, Leads site l' journal words' last' journal := by
  induction h generalizing l' words' with
  | here =>
    obtain rfl := List.map_eq_nil_iff.mp hwords
    exact ⟨l', hbare, fun journal => .here _ _⟩
  | @on l next last _ _ _ word rest hfirst others ih =>
    obtain ⟨c, hl⟩ := (on hfirst others).exists_container hlast
    cases words' with
    | nil => cases hwords
    | cons word' rest' =>
      obtain ⟨htext, hrest⟩ := List.cons.inj hwords
      obtain ⟨next', hnext', hbare'⟩ := (Landing.resolvesTo_of_perform hl hfirst).1.alike hl hbare
        word'.token word'.validate
      obtain ⟨last', hlast', hothers⟩ := ih hlast hbare' rest' hrest
      have hfirst' : Landing.ResolvesTo site l' word'.text word'.token word'.validate (.ok next') :=
        (show word'.text = word.text from htext) ▸ hnext'
      exact ⟨last', hlast', fun journal => .on (hfirst' journal) (hothers journal)⟩

/-- Words lead to one place only. -/
theorem unique (h : Leads site l journal words last journal')
    (h' : Leads site l journal words next journal'') : next = last := by
  induction h with
  | here => exact (nil_iff.mp h').1
  | on hfirst others ih =>
    obtain ⟨next', journal₁, hfirst', others'⟩ := cons_iff.mp h'
    cases hfirst.symm.trans hfirst'
    exact ih others'

end Walk.Leads

/-! ## Places -/

namespace Landing

/-- Nodes of the same kind, below nodes of the same names. -/
def SamePlace (l l' : Landing) : Prop :=
  l'.node.kind = l.node.kind ∧ l'.chain.map Node.name = l.chain.map Node.name

theorem SamePlace.of_bare (h : l'.bare = l.bare) : l.SamePlace l' := by
  have hnames (l : Landing) : l.chain.map Node.name = l.bare.chain.map Node.name := by
    rw [chain_bare, List.map_map]
    exact List.map_congr_left fun n _ => n.name_bare.symm
  exact ⟨kind_of_bare h, by rw [hnames l', h, ← hnames l]⟩

/-- A container, a command or a builtin below containers. -/
def IsListed (l : Landing) : Prop :=
  (l.node.kind = .container ∨ l.node.kind = .command ∨ l.node.kind = .builtin) ∧
    ∀ n ∈ l.above, n.kind = .container

instance (l : Landing) : Decidable l.IsListed :=
  inferInstanceAs (Decidable ((l.node.kind = .container ∨ l.node.kind = .command ∨
    l.node.kind = .builtin) ∧ ∀ n ∈ l.above, n.kind = .container))

/-- Such a place is come to from a container. -/
theorem Takes.exists_container_of_isListed (h : l.Takes site word token validate next)
    (hnext : next.IsListed) : ∃ c, l.node = .container c := by
  obtain ⟨hkind, habove⟩ := hnext
  cases h with
  | up inContainer | found inContainer => exact ⟨_, inContainer⟩
  | builtin below =>
    have hl : l.node.kind = .container := habove _ List.mem_cons_self
    rw [below] at hl
    cases hl
  | parameter | unclear | option => simp [enter, Node.kind] at hkind

end Landing

/-- Where the word that goes up leads. -/
theorem Landing.ResolvesTo.parent_eq (h : l.ResolvesTo site ".." token validate (.ok next))
    (hl : l.node = .container c) : l.parent? = some next := by
  have hnext := h {}
  simp only [resolve, hl, beq_self_eq_true, if_true] at hnext
  split at hnext
  · rename_i up hup
    cases hnext
    exact hup
  · cases hnext

/-- A word that does not lead up leads further down. -/
theorem Landing.ResolvesTo.exists_enter (h : l.ResolvesTo site word token validate (.ok next))
    (hl : l.node = .container c) (hup : word ≠ "..") : ∃ n, next = l.enter n := by
  rw [resolvesTo_iff hl hup] at h
  split at h
  · cases h
  · exact ⟨_, Except.ok.inj h.2⟩
  · exact ⟨_, Except.ok.inj h⟩

/-- **The name of what a word leads to leads to the same**, wherever in a line it stands, unless the
word leads up. -/
theorem Landing.ResolvesTo.by_name (h : first.ResolvesTo site word token validate (.ok l))
    (hfirst : first.node = .container c) (listed : site.Lists c) (hlisted : l.IsListed)
    (hup : word ≠ "..") (hname : l.node.name = some name) (hbare : l'.bare = first.bare)
    (token' : Option Line.Token) (validate' : Bool) :
    ∃ next, l'.ResolvesTo site name token' validate' (.ok next) ∧ next.bare = l.bare := by
  have unambiguous : l.node.kind ≠ .ambiguous := by
    rcases hlisted.1 with hkind | hkind | hkind <;> simp [hkind]
  obtain ⟨e, hmatching, -, rfl⟩ := h.exists_entry hfirst hup unambiguous
  obtain ⟨he, hbegins⟩ :=
    Container.mem_listed_of_mem_matching (hmatching ▸ List.mem_singleton_self e)
  obtain rfl : e.2 = name := by simpa [enter] using hname
  obtain ⟨next, hnext, hsame⟩ := h.between hfirst hup unambiguous hname
    (listed.ne_up he (Text.beginsWith_refl _)) hbegins (Text.beginsWith_refl _) token' validate'
  obtain ⟨next', hnext', hsame'⟩ := hnext.alike hfirst hbare token' validate'
  exact ⟨next', hnext', hsame'.trans hsame⟩

end ConfigShell
