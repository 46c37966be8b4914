import ConfigShell.Proofs.Ends
import ConfigShell.Proofs.Tree.Leading
/-!
# Walks that do not break down without reason

The machine cannot be asked about a path with a zero byte, and nobody can be asked about a parameter
of no command. The second never comes up on the way through the tree, since the parameters there
belong to the command they stand below. The first comes up only if a zero byte is in one of the two
paths of the tree or in the name of an entry (`Site.HasZeroByte`). Otherwise every line resolves, to
whatever it may be.
-/

namespace ConfigShell

open Shell (Ends ends_pure ends_require ends_launch ComesTo comesTo_true comesTo_pure OnSuccess
  onSuccess_ok onSuccess_error)

/-! ## Zero bytes -/

theorem Text.mem_of_mem_splitOn {separator b : UInt8} {t piece : Text}
    (hpiece : piece ∈ splitOn separator t) (hb : b ∈ piece) : b ∈ t := by
  induction t generalizing piece with
  | nil =>
    rw [splitOn_nil, List.mem_singleton] at hpiece
    rw [hpiece] at hb
    cases hb
  | cons c t ih =>
    rw [splitOn_cons] at hpiece
    split at hpiece
    · rcases List.mem_cons.mp hpiece with rfl | hpiece
      · cases hb
      · exact List.mem_cons_of_mem _ (ih hpiece hb)
    · cases hrest : splitOn separator t with
      | nil => exact absurd hrest (splitOn_ne_nil separator t)
      | cons first others =>
        rw [hrest] at hpiece ih
        rcases List.mem_cons.mp hpiece with rfl | hpiece
        · rcases List.mem_append.mp hb with hb | hb
          · rw [List.mem_singleton.mp hb]
            exact List.mem_cons_self ..
          · exact List.mem_cons_of_mem _ (ih (List.mem_cons_self ..) hb)
        · exact List.mem_cons_of_mem _ (ih (List.mem_cons_of_mem _ hpiece) hb)

namespace Path

theorem isPassable_iff {p : Path} : p.isPassable = true ↔ ∀ part ∈ p.parts, 0 ∉ part := by
  simp [isPassable]

theorem isPassable_ofText {t : Text} (h : 0 ∉ t) : (ofText t).isPassable = true := by
  rw [isPassable_iff]
  intro part hpart hzero
  have hpiece := (List.mem_filter.mp hpart).1
  exact h ((List.dropWhile_sublist _).subset (Text.mem_of_mem_splitOn hpiece hzero))

theorem isPassable_append {p q : Path} (hp : p.isPassable = true) (hq : q.isPassable = true) :
    (p.append q).isPassable = true := by
  unfold append
  split
  · rw [isPassable_iff] at hp hq ⊢
    exact fun part hpart => (List.mem_append.mp hpart).elim (hp part) (hq part)
  · exact hq

theorem isPassable_descend {p : Path} (hp : p.isPassable = true) {names : List Text}
    (hnames : ∀ name ∈ names, 0 ∉ name) : (p.descend names).isPassable = true := by
  induction names generalizing p with
  | nil => exact hp
  | cons name rest ih =>
    obtain ⟨hname, hrest⟩ := List.forall_mem_cons.mp hnames
    exact ih (isPassable_append hp (isPassable_ofText hname)) hrest

end Path

namespace Site

variable {site : Site} {names : List Text}

/-- A zero byte is in one of the paths of the tree, or in the name of an entry of the machine. -/
def HasZeroByte (site : Site) : Prop :=
  site.tree.libexec.isPassable = false ∨ site.tree.sysconf.isPassable = false ∨
    ∃ p, ∃ e ∈ site.host.entries p, 0 ∈ e.name

/-- **Without a zero byte all places of the tree can be asked about.** -/
theorem Reaches.passable (h : site.Reaches names) (hwhole : ¬ site.HasZeroByte) :
    (site.directory names).isPassable = true ∧
      (site.tree.sysconf.descend names).isPassable = true := by
  have hnames : ∀ name ∈ names, 0 ∉ name :=
    h.forall_mem fun p e he _ hzero => hwhole (.inr (.inr ⟨p, e, he, hzero⟩))
  have hlibexec : site.tree.libexec.isPassable = true := by
    cases hp : site.tree.libexec.isPassable with
    | true => rfl
    | false => exact absurd (.inl hp) hwhole
  have hsysconf : site.tree.sysconf.isPassable = true := by
    cases hp : site.tree.sysconf.isPassable with
    | true => rfl
    | false => exact absurd (.inr (.inl hp)) hwhole
  exact ⟨Path.isPassable_descend hlibexec hnames, Path.isPassable_descend hsysconf hnames⟩

end Site

variable {site : Site} {flaw : Breakdown → Prop} {l : Landing}

section Walking

variable (hflaw : site.HasZeroByte → flaw .zeroByte)
include hflaw

theorem Site.Reaches.passable_or {names : List Text} (h : site.Reaches names) :
    ((site.directory names).isPassable = true ∨ flaw .zeroByte) ∧
      ((site.tree.sysconf.descend names).isPassable = true ∨ flaw .zeroByte) := by
  by_cases hzero : site.HasZeroByte
  · exact ⟨.inr (hflaw hzero), .inr (hflaw hzero)⟩
  · obtain ⟨hlibexec, hsysconf⟩ := h.passable hzero
    exact ⟨.inl hlibexec, .inl hsysconf⟩

theorem Site.Offers.passable_or {c : Command} (h : site.Offers c) :
    c.sysconf.isPassable = true ∨ flaw .zeroByte := by
  obtain ⟨names, file, hreaches, -, -, hsysconf⟩ := h
  rw [hsysconf]
  exact (hreaches.passable_or hflaw).2

/-! ## One word -/

theorem ends_containerAt {names : List Text} (h : site.Reaches names) (label : Label)
    (sysconf : Path) (builtins : List Text) :
    Ends flaw (site.tree.containerAt site.host label (site.directory names) sysconf
      builtins) := by
  unfold CommandTree.containerAt Listing.ofDirectory
  refine Ends.next ?_ fun listing => ends_pure _
  exact (ends_require (h.passable_or hflaw).1).next fun _ => ends_pure _

theorem ends_lookUp {names : List Text} {c : Container} (h : site.Places names c) (word : Text)
    (token : Option Line.Token) : Ends flaw (c.lookUp site word token) := by
  have hcontainer {name : Text} (hname : name ∈ c.containers) :
      Ends flaw (do
        return (.ok (← Node.container <$> site.tree.container site.host c name token) :
          Except WordError Node)) := by
    have hbelow : site.Reaches (names ++ [name]) := h.reaches.under (h.containers ▸ hname)
    have hdirectory : c.libexec.child name = site.directory (names ++ [name]) := by
      rw [h.libexec, Site.directory, Site.directory, Path.descend_append_singleton]
    refine (Ends.map ?_ _).next fun n => ends_pure _
    unfold CommandTree.container
    rw [hdirectory]
    exact ends_containerAt hflaw hbelow _ _ _
  have hbegun {names : List Text} {name : Text} (hone : Names.beginningWith word names = [name]) :
      name ∈ names := by
    have hmem : name ∈ Names.beginningWith word names := by simp [hone]
    exact (List.mem_filter.mp hmem).1
  unfold Container.lookUp
  dsimp only
  split
  · exact ends_pure _
  split
  · exact ends_pure _
  split
  · exact hcontainer (by simp_all)
  split
  · exact ends_pure _
  · exact ends_pure _
  · exact ends_pure _
  · rename_i hone
    exact hcontainer (hbegun hone)
  · exact ends_pure _

theorem ends_resolveParameter {command : Command} (hcommand : site.Offers command) (l : Landing)
    (word : Text) (token : Option Line.Token) (validate : Bool) :
    Ends flaw (l.resolveParameter site command word token validate) := by
  unfold Landing.resolveParameter
  dsimp only
  split
  · exact ends_pure _
  split
  · have hasked : (Parameter.ofWord command word token).command = some command := rfl
    rw [probe_of_command hasked]
    have hlaunch := ends_launch site.host site.tree.environment (hcommand.passable_or hflaw)
      command.executable.toText
    exact ((hlaunch _).map _).next fun p => ends_pure _
  · exact ends_pure _

end Walking

/-- The walk has gone through what the tree offers, and its parameters belong to commands. -/
structure Landing.IsSane (site : Site) (l : Landing) : Prop where
  sound : site.SoundTo l
  commanded : ∀ p, .parameter p ∈ l.node :: l.above → p.command.isSome

theorem Landing.Takes.isSane {next : Landing} {word : Text} {token : Option Line.Token}
    {validate : Bool} (h : l.Takes site word token validate next) (hl : l.IsSane site)
    (hnext : site.SoundTo next) : next.IsSane site := by
  have henter {n : Node} (hn : ∀ p, n = .parameter p → p.command.isSome) :
      ∀ p, .parameter p ∈ (l.enter n).node :: (l.enter n).above → p.command.isSome := by
    intro p hp
    rcases List.mem_cons.mp hp with hp | hp
    · exact hn p hp.symm
    · exact hl.commanded p hp
  refine ⟨hnext, ?_⟩
  cases h with
  | up inContainer parent =>
    unfold parent? at parent
    split at parent
    · cases parent
    · rename_i node above habove
      cases parent
      intro p hp
      exact hl.commanded p (List.mem_cons_of_mem _ (habove ▸ hp))
  | found inContainer finds =>
    refine henter fun p hp => ?_
    subst hp
    cases finds
  | parameter below same =>
    refine henter fun p hp => ?_
    cases hp
    rw [same]
    rfl
  | unclear | builtin | option =>
    refine henter fun p hp => ?_
    cases hp

theorem comesTo_isSane_resolve (hl : l.IsSane site) (word : Text) (token : Option Line.Token)
    (validate : Bool) :
    ComesTo (OnSuccess (Landing.IsSane site)) (l.resolve site word token validate) := by
  intro journal r hr next hnext
  have hsound := (does_resolve (P := fun _ => True) hl.sound word token
    fun _ _ _ _ => trivial).comesTo journal r hr next hnext
  exact (l.comesTo_resolve word token validate journal r hr next hnext).isSane hl hsound

/-- **A word leads somewhere or is refused**, unless a zero byte is in the way. -/
theorem ends_resolve (hflaw : site.HasZeroByte → flaw .zeroByte) (hl : l.IsSane site) (word : Text)
    (token : Option Line.Token) (validate : Bool) :
    Ends flaw (l.resolve site word token validate) := by
  have hnode : site.Sound l.node := hl.sound l.node (List.mem_cons_self ..)
  unfold Landing.resolve
  split
  · rename_i c hc
    rw [hc] at hnode
    obtain ⟨names, hplaces⟩ := hnode
    split
    · split <;> exact ends_pure _
    · exact (ends_lookUp hflaw hplaces word token).map _
  · rename_i c hc
    rw [hc] at hnode
    exact (ends_resolveParameter hflaw hnode l word token validate).map _
  · rename_i p hp
    rw [hp] at hnode
    have hcommanded : p.command.isSome := hl.commanded p (hp ▸ List.mem_cons_self ..)
    split
    · rename_i c hc
      exact (ends_resolveParameter hflaw (hnode c hc) l word token validate).map _
    · rename_i hc
      rw [hc] at hcommanded
      cases hcommanded
  · exact ends_pure _
  · exact ends_pure _
  · exact ends_pure _

/-! ## Lines -/

namespace Walk

theorem comesTo_isSane_top : ComesTo (Landing.IsSane site) (top site) := by
  have hplaces : ComesTo (site.Places []) (site.tree.top site.host) :=
    (does_top (P := fun _ => True)).comesTo
  refine hplaces.bind fun c hc => comesTo_pure ⟨fun n hn => ?_, fun p hp => ?_⟩
  · rw [List.mem_singleton.mp hn]
    exact ⟨[], hc⟩
  · cases List.mem_singleton.mp hp

theorem comesTo_isSane_replay (hl : l.IsSane site) (path : List Text) :
    ComesTo (OnSuccess (Landing.IsSane site)) (replay site l path) := by
  induction path generalizing l with
  | nil => exact comesTo_pure (onSuccess_ok hl)
  | cons name rest ih =>
    unfold replay
    refine (comesTo_isSane_resolve hl name none false).bind fun r hr => ?_
    cases r with
    | error e => exact comesTo_pure (onSuccess_error name)
    | ok next => exact ih (hr next rfl)

variable (hflaw : site.HasZeroByte → flaw .zeroByte)
include hflaw

theorem ends_replay (hl : l.IsSane site) (path : List Text) :
    Ends flaw (replay site l path) := by
  induction path generalizing l with
  | nil => exact ends_pure _
  | cons name rest ih =>
    unfold replay
    refine (ends_resolve hflaw hl name none false).bind
      (comesTo_isSane_resolve hl name none false) fun r hr => ?_
    cases r with
    | error e => exact ends_pure _
    | ok next => exact ih (hr next rfl)

theorem ends_words (hl : l.IsSane site) (validate : Bool) (tokens : List Line.Token) :
    Ends flaw (words site validate l tokens) := by
  induction tokens generalizing l with
  | nil => exact ends_pure _
  | cons token rest ih =>
    unfold words
    refine (ends_resolve hflaw hl token.data (some token) validate).bind
      (comesTo_isSane_resolve hl _ _ _) fun r hr => ?_
    cases r with
    | error e => exact ends_pure _
    | ok next => exact (ih (hr next rfl)).next fun walk => ends_pure _

theorem ends_line (path : List Text) (lexed : Line.Lexed) (validate probeNext : Bool) :
    Ends flaw (line site path lexed validate probeNext) := by
  have htop : Ends flaw (top site) :=
    (ends_containerAt hflaw .top _ _ _).next fun c => ends_pure _
  unfold line start
  dsimp only
  refine (htop.bind comesTo_isSane_top fun l hl => ends_replay hflaw hl _).bind
    (comesTo_isSane_top.bind fun l hl => comesTo_isSane_replay hl _) fun r hr => ?_
  cases r with
  | error name => exact ends_pure _
  | ok l => exact (ends_words hflaw (hr l rfl) validate _).next fun walk => ends_pure _

end Walk

end ConfigShell
