import ConfigShell.Completion
import ConfigShell.Proofs.Line.Inserted
import ConfigShell.Proofs.Tree.Unasked
/-!
# What completes a word

The candidates for a word are names of the node that it has led to (`Node.suggested`) as they are
written, each followed by a blank or, if it is a key, by an equals sign. That holds of every node a
walk comes to, because only a parameter typed without an equals sign is completed to a key, and all
else is completed by a blank, also a container that is come back to (`Walk.Leads.completes`).
-/

namespace ConfigShell

open Shell (perform ComesTo comesTo_pure comesTo_true)

variable {site : Site} {l next last : Landing} {t : Line.Token} {word : Text}
  {token : Option Line.Token} {validate : Bool} {journal journal' : Journal}

/-- The names that complete a word which has led to the node, each with whether it is a key. With
`afterEquals` they stand for its value only. -/
def Node.suggested (n : Node) (afterEquals : Bool) : List (Text × Bool) :=
  match n, afterEquals with
  | .ambiguous a, false =>
    (a.containers ++ a.commands ++ a.builtins ++ a.values).map (·, false) ++
      (a.keys ++ a.requiredKeys).map (·, true)
  | .ambiguous a, true => a.values.map (·, false)
  | .parameter p, false => p.name.toList.map (·, p.completion == [0x3D])
  | .parameter p, true => [(p.value, false)]
  | n, false => n.name.toList.map (·, false)
  | _, true => []

/-- How the node completes the word `t` that has led to it: by a blank, or to a key, if the word has
no equals sign yet. -/
def Node.Completes (n : Node) (t : Line.Token) : Prop :=
  n.label.completion = [0x20] ∨
    n.kind = .parameter ∧ n.label.completion = [0x3D] ∧ t.equals = none

/-! ## Where walks come to -/

theorem Container.Finds.completion {c : Container} {n : Node} (h : c.Finds site word token n) :
    n.label.completion = [0x20] := by
  cases h with
  | builtin | command | ambiguous => rfl
  | container listed noCommand noBuiltin made =>
    rw [CommandTree.container, perform_containerAt] at made
    split at made
    · cases made
      rfl
    · cases made

/-- A container that the walk stands at is completed by a blank, and all the nodes above it are. -/
def Landing.IsSpaced (l : Landing) : Prop :=
  ∀ c, l.node = .container c → ∀ n ∈ l.node :: l.above, n.label.completion = [0x20]

namespace Landing.IsSpaced

theorem top (h : perform (Walk.top site) journal = (.ok l, journal')) : l.IsSpaced := by
  obtain ⟨c, rfl, hc⟩ := Walk.exists_container_of_top h
  rw [Site.top_eq, perform_containerAt] at hc
  split at hc
  · cases hc
    rintro _ - n hn
    rw [List.mem_singleton.mp hn]
    rfl
  · cases hc

theorem parent {c : Container} {up : Landing} (h : l.IsSpaced) (inContainer : l.node = .container c)
    (hup : l.parent? = some up) : ∀ n ∈ up.node :: up.above, n.label.completion = [0x20] := by
  unfold Landing.parent? at hup
  split at hup
  · cases hup
  · rename_i node above habove
    cases hup
    intro n hn
    exact h c inContainer n (List.mem_cons_of_mem _ (by rwa [habove]))

theorem takes (h : l.IsSpaced) (htakes : l.Takes site word token validate next) :
    next.IsSpaced := by
  intro c hc
  cases htakes with
  | up inContainer parent => exact h.parent inContainer parent
  | found inContainer finds => exact List.forall_mem_cons.mpr ⟨finds.completion, h _ inContainer⟩
  | parameter | unclear | builtin | option => cases hc

end Landing.IsSpaced

/-- Only a bare word is completed to a key. -/
theorem Parameter.completes_matchCandidates {p : Parameter} (hp : p.completion = [0x20])
    (hkey : p.key.isSome = t.equals.isSome) (word : Text) (token : Option Line.Token) :
    (p.matchCandidates word token).Completes t := by
  unfold matchCandidates
  cases hk : p.key with
  | some key =>
    dsimp only
    unfold matchValue
    split
    · exact .inl hp
    split
    · exact .inl hp
    · exact .inl hp
    · exact .inl rfl
  | none =>
    have hbare : t.equals = none := by
      rw [hk] at hkey
      exact Option.isNone_iff_eq_none.mp (by simpa using hkey.symm)
    dsimp only
    unfold matchWord
    split
    · exact .inl hp
    split
    · exact .inl hp
    dsimp only
    split
    · exact .inl hp
    · exact .inr ⟨rfl, rfl, hbare⟩
    · exact .inr ⟨rfl, rfl, hbare⟩
    · exact .inl hp
    · exact .inl rfl

theorem Landing.comesTo_completes (l : Landing) (command : Command) (t : Line.Token)
    (validate : Bool) :
    ComesTo (fun next => next.node.Completes t)
      (l.resolveParameter site command t.data (some t) validate) := by
  have hkey : (Parameter.ofWord command t.data (some t)).key.isSome = t.equals.isSome := by
    unfold Parameter.ofWord Line.Token.splitEquals
    cases h : t.equals with
    | none => simp [h]
    | some i => simp [h]
  unfold resolveParameter
  dsimp only
  split
  · exact comesTo_pure (.inl rfl)
  have hmatched {p : Parameter} (h : Probe.Keeps (Parameter.ofWord command t.data (some t)) p) :
      ComesTo (fun next : Landing => next.node.Completes t)
        (pure (l.enter (p.matchCandidates t.data (some t)))) := by
    refine comesTo_pure (Parameter.completes_matchCandidates ?_ (h.keyed.trans hkey) _ _)
    rw [h.toLabel]
    rfl
  split
  · exact (l.comesTo_probe _).bind fun p hp => hmatched hp
  · exact hmatched (.refl _)

/-- A word leads to a node that completes it. -/
theorem Landing.IsSpaced.completes (h : l.IsSpaced)
    (hresolve : perform (l.resolve site t.data (some t) validate) journal =
      (.ok (.ok next), journal')) : next.node.Completes t := by
  have htakes := l.comesTo_resolve t.data (some t) validate journal _ (by rw [hresolve]) next rfl
  have hbelow {command : Command} (below : l.node.parametersOf? = some command) :
      next.node.Completes t := by
    rw [Landing.resolve_below below] at hresolve
    have hcomesTo : ComesTo (Shell.OnSuccess fun next : Landing => next.node.Completes t)
        (Except.ok (ε := WordError) <$>
          l.resolveParameter site command t.data (some t) validate) :=
      (l.comesTo_completes command t validate).map fun next hnext => Shell.onSuccess_ok hnext
    exact hcomesTo journal _ (by rw [hresolve]) next rfl
  cases htakes with
  | up inContainer parent => exact .inl (h.parent inContainer parent _ List.mem_cons_self)
  | found inContainer finds => exact .inl finds.completion
  | parameter below same | unclear below asked => exact hbelow below
  | builtin below | option below => exact .inl rfl

/-- **The last word of a walk leads to a node that completes it.** -/
theorem Walk.Leads.completes {words : List Walk.Word}
    (h : Walk.Leads site l journal (words ++ [.typed validate t]) last journal')
    (hl : l.IsSpaced) : last.node.Completes t := by
  obtain ⟨next, journal₁, hwords, hword⟩ := append_iff.mp h
  obtain ⟨_, _, hresolve, hend⟩ := cons_iff.mp hword
  obtain ⟨rfl, rfl⟩ := nil_iff.mp hend
  exact (hwords.invariant (fun h htakes => h.takes htakes) hl).completes hresolve

/-! ## The candidates -/

namespace Completion

variable {n : Node} {c : Completion}

/-- The candidate writes a name that the node suggests, and replaces the value of the word `t` only
if that has an equals sign. -/
def Writes (c : Completion) (n : Node) (t : Line.Token) : Prop :=
  (∃ name isKey, (name, isKey) ∈ n.suggested c.afterEquals ∧
    c.text = Line.escapeWord name ++ [Line.suffix isKey]) ∧
  (c.afterEquals = true → t.equals.isSome = true)

theorem writes_of_mem_group {names : List Text} {category : Category} (isKey : Bool)
    {afterEquals : Bool} (h : c ∈ group names category (Line.suffix isKey) afterEquals)
    (hsuggested : ∀ name ∈ names, (name, isKey) ∈ n.suggested afterEquals)
    (hequals : afterEquals = true → t.equals.isSome = true) : c.Writes n t := by
  obtain ⟨name, hname, rfl⟩ := List.mem_map.mp h
  exact ⟨⟨name, isKey, hsuggested name hname, rfl⟩, hequals⟩

theorem writes_of_ambiguity {a : Ambiguity} (h : c ∈ ofAmbiguity a t.equals.isSome) :
    c.Writes (.ambiguous a) t := by
  have hword {names : List Text} {category : Category} (hmem : c ∈ group names category 0x20)
      (hnames : ∀ name ∈ names, (name, false) ∈ (Node.ambiguous a).suggested false) :
      c.Writes (.ambiguous a) t := writes_of_mem_group false hmem hnames nofun
  have hkey {names : List Text} {category : Category} (hmem : c ∈ group names category 0x3D)
      (hnames : ∀ name ∈ names, (name, true) ∈ (Node.ambiguous a).suggested false) :
      c.Writes (.ambiguous a) t := writes_of_mem_group true hmem hnames nofun
  simp only [ofAmbiguity, List.mem_append] at h
  rcases h with ((((h | h) | h) | h) | h) | h
  · exact hword h fun name hname => by simp [Node.suggested, hname]
  · exact hword h fun name hname => by simp [Node.suggested, hname]
  · exact hword h fun name hname => by simp [Node.suggested, hname]
  · exact hkey h fun name hname => by simp [Node.suggested, hname]
  · exact hkey h fun name hname => by simp [Node.suggested, hname]
  · -- only the values go behind an equals sign
    refine writes_of_mem_group false h (fun name hname => ?_) id
    cases t.equals.isSome <;> simp [Node.suggested, hname]

theorem writes_of_label (hn : n.Completes t) (unambiguous : n.kind ≠ .ambiguous)
    (h : c ∈ ofLabel n) : c.Writes n t := by
  have hname : ∃ b name, n.name = some (b :: name) ∧
      c = ⟨Line.escapeWord (b :: name) ++ n.label.completion, .node n.kind, false⟩ := by
    unfold ofLabel at h
    split at h
    · cases h
    · cases h
    · rename_i b name hname
      exact ⟨b, name, hname, List.mem_singleton.mp h⟩
  obtain ⟨b, name, hname, rfl⟩ := hname
  refine ⟨?_, nofun⟩
  rcases hn with hblank | ⟨hkind, hequals, -⟩
  · refine ⟨b :: name, false, ?_, congrArg (_ ++ ·) hblank⟩
    cases n with
    | ambiguous a => exact absurd rfl unambiguous
    | parameter p =>
      have hcompletion : p.completion = [0x20] := hblank
      have hp : p.name = some (b :: name) := hname
      simp [Node.suggested, hcompletion, hp]
    | container c | command c | builtin c | option c =>
      show (_, _) ∈ (Node.name _).toList.map (·, false)
      rw [hname]
      exact List.mem_singleton_self _
  · refine ⟨b :: name, true, ?_, congrArg (_ ++ ·) hequals⟩
    cases n with
    | parameter p =>
      have hcompletion : p.completion = [0x3D] := hequals
      have hp : p.name = some (b :: name) := hname
      simp [Node.suggested, hcompletion, hp]
    | container | command | builtin | option | ambiguous => cases hkind

/-- **Every candidate for a word writes a name of the node** that the word has led to. -/
theorem writes_of_mem (hn : n.Completes t) (h : c ∈ ofNode n (some t)) : c.Writes n t := by
  cases n with
  | ambiguous a => exact writes_of_ambiguity h
  | parameter p =>
    replace h : c ∈ if p.key.isSome && t.equals.isSome then
        if p.value.isEmpty then [] else [⟨Line.escapeWord p.value ++ p.completion, .value, true⟩]
      else ofLabel (.parameter p) := h
    by_cases hkeyed : p.key.isSome && t.equals.isSome
    · rw [if_pos hkeyed] at h
      have hequals : t.equals.isSome = true := (Bool.and_eq_true_iff.mp hkeyed).2
      split at h
      · cases h
      · obtain rfl := List.mem_singleton.mp h
        refine ⟨⟨p.value, false, List.mem_singleton_self _, ?_⟩, fun _ => hequals⟩
        -- a word with an equals sign is not completed to a key
        have hblank : p.completion = [0x20] := by
          rcases hn with hblank | ⟨-, -, hnone⟩
          · exact hblank
          · simp [hnone] at hequals
        exact congrArg (_ ++ ·) hblank
    · rw [if_neg hkeyed] at h
      exact writes_of_label hn nofun h
  | container | command | builtin | option => exact writes_of_label hn nofun h

end Completion

end ConfigShell
