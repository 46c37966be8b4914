import ConfigShell.Proofs.Tree.Leading
/-!
# Where a walk stands in the tree

A walk that stands at a container stands below a row of containers, each listed in the one above
it under a name that no builtin and no command there has (`Site.Stands`). Words keep this, because
a builtin or a command comes before a container of its name, however the container is reached: by
its name, by a beginning of it, or by going up. So the names down to a container are `Unshadowed`.
Taken one by one as they are, they lead to that container again (`Site.Unshadowed.start`).
-/

namespace ConfigShell

open Shell (perform perform_map perform_bind_of_ok)

namespace Site

variable (site : Site)

/-- The builtins that the container of these names offers: those of the top. -/
def builtins (names : List Text) : List Text := if names = [] then rootBuiltins else []

/-- The container is the one the names lead to, and has the last of them. -/
structure IsContainer (names : List Text) (c : Container) : Prop extends site.Places names c where
  name : c.name = names.getLast?
  builtins : c.builtins = builtins names
  passable : (site.directory names).isPassable = true

/-- A container of this name is listed below the names, and nothing that comes before it has the
name, too. -/
structure Shows (names : List Text) (name : Text) : Prop where
  listed : name ∈ (site.listing names).containers
  noCommand : name ∉ (site.listing names).commands
  noBuiltin : name ∉ builtins names

/-- The names lead down the tree, each to a container that shows in the one above it and can be
listed. -/
inductive Unshadowed : List Text → Prop
  | top (passable : (site.directory []).isPassable = true) : Unshadowed []
  | under {names : List Text} {name : Text} (above : Unshadowed names)
      (shows : site.Shows names name)
      (passable : (site.directory (names ++ [name])).isPassable = true) :
      Unshadowed (names ++ [name])

/-- The walk stands at the container of these names, below those of all the names before. -/
inductive Stands : List Text → Landing → Prop
  | top {c : Container} (isContainer : site.IsContainer [] c) : Stands [] ⟨.container c, []⟩
  | under {names : List Text} {name : Text} {l : Landing} {c : Container} (above : Stands names l)
      (shows : site.Shows names name) (isContainer : site.IsContainer (names ++ [name]) c) :
      Stands (names ++ [name]) (l.enter (.container c))

variable {site} {names : List Text} {name : Text} {l next : Landing} {c : Container}
  {journal journal' : Journal}

theorem Unshadowed.reaches (h : site.Unshadowed names) : site.Reaches names := by
  induction h with
  | top => exact .top
  | under _ shows _ ih => exact ih.under shows.listed

/-- All the containers on the way down are unshadowed, too. -/
theorem Unshadowed.beginning {names' : List Text} (h : site.Unshadowed names)
    (hnames : names' <+: names) : site.Unshadowed names' := by
  induction h with
  | top passable =>
    rw [List.prefix_nil.mp hnames]
    exact .top passable
  | under above shows passable ih =>
    rcases List.prefix_concat_iff.mp hnames with rfl | hnames
    · exact above.under shows passable
    · exact ih hnames

/-- The name of a listed container is not that of going up. -/
theorem Shows.ne_up (h : site.Shows names name) : name ≠ ".." := by
  rintro rfl
  obtain ⟨e, -, hname, -, hvisible⟩ := Listing.mem_containers_ofEntries.mp h.listed
  rw [Listing.isHidden, hname] at hvisible
  exact absurd hvisible (by decide)

/-! ## Making the containers of the tree -/

/-- The container of names that lead down the tree can be made just if its directory can be asked
for. -/
theorem exists_containerAt (reaches : site.Reaches names) (label : Label)
    (hname : label.name = names.getLast?) :
    ∃ c, ((site.directory names).isPassable = true → site.IsContainer names c) ∧
      ∀ journal, perform (site.tree.containerAt site.host label (site.directory names)
          (site.tree.sysconf.descend names) (builtins names)) journal =
        if (site.directory names).isPassable then (.ok c, journal)
        else (.error .zeroByte, journal) :=
  ⟨_, fun passable => ⟨⟨reaches, rfl, rfl, rfl, rfl, rfl⟩, hname, rfl, passable⟩,
    fun _ => perform_containerAt ..⟩

theorem top_eq : site.tree.top site.host = site.tree.containerAt site.host { name := none }
    (site.directory []) (site.tree.sysconf.descend []) (builtins []) := rfl

theorem container_eq (h : site.IsContainer names c) (name : Text) (token : Option Line.Token) :
    site.tree.container site.host c name token =
      site.tree.containerAt site.host { name := some name, token := token }
        (site.directory (names ++ [name])) (site.tree.sysconf.descend (names ++ [name]))
        (builtins (names ++ [name])) := by
  simp [CommandTree.container, h.libexec, h.sysconf, directory, builtins]

theorem perform_top (passable : (site.directory []).isPassable = true) :
    ∃ c, site.IsContainer [] c ∧
      ∀ journal, perform (site.tree.top site.host) journal = (.ok c, journal) := by
  obtain ⟨c, hc, hmade⟩ := exists_containerAt (Reaches.top : site.Reaches []) { name := none } rfl
  exact ⟨c, hc passable, fun journal => (hmade journal).trans (if_pos passable)⟩

theorem isContainer_top (h : perform (site.tree.top site.host) journal = (.ok c, journal')) :
    site.IsContainer [] c := by
  obtain ⟨c', hc', hmade⟩ := exists_containerAt (Reaches.top : site.Reaches []) { name := none } rfl
  rw [top_eq, hmade] at h
  split at h
  · rename_i passable
    cases h
    exact hc' passable
  · cases h

theorem perform_container (h : site.IsContainer names c)
    (listed : name ∈ (site.listing names).containers) (token : Option Line.Token)
    (passable : (site.directory (names ++ [name])).isPassable = true) :
    ∃ below, site.IsContainer (names ++ [name]) below ∧ ∀ journal,
      perform (site.tree.container site.host c name token) journal = (.ok below, journal) := by
  obtain ⟨below, hbelow, hmade⟩ := exists_containerAt (h.reaches.under listed)
    { name := some name, token := token } (by simp)
  rw [container_eq h]
  exact ⟨below, hbelow passable, fun journal => (hmade journal).trans (if_pos passable)⟩

theorem isContainer_container (h : site.IsContainer names c)
    (listed : name ∈ (site.listing names).containers) {token : Option Line.Token}
    {below : Container} (hbelow : perform (site.tree.container site.host c name token) journal =
      (.ok below, journal')) :
    site.IsContainer (names ++ [name]) below := by
  obtain ⟨below', hbelow', hmade⟩ := exists_containerAt (h.reaches.under listed)
    { name := some name, token := token } (by simp)
  rw [container_eq h, hmade] at hbelow
  split at hbelow
  · rename_i passable
    cases hbelow
    exact hbelow' passable
  · cases hbelow

/-! ## Standing at a container -/

namespace Stands

theorem exists_container (h : site.Stands names l) :
    ∃ c, l.node = .container c ∧ site.IsContainer names c := by
  cases h with
  | top isContainer => exact ⟨_, rfl, isContainer⟩
  | under above shows isContainer => exact ⟨_, rfl, isContainer⟩

theorem isContainer (h : site.Stands names l) (hl : l.node = .container c) :
    site.IsContainer names c := by
  obtain ⟨c', hc', isContainer⟩ := h.exists_container
  obtain rfl : c' = c := Node.container.inj (hc'.symm.trans hl)
  exact isContainer

theorem unshadowed (h : site.Stands names l) : site.Unshadowed names := by
  induction h with
  | top isContainer => exact .top isContainer.passable
  | under above shows isContainer ih => exact ih.under shows isContainer.passable

theorem path_eq (h : site.Stands names l) : l.path = names := by
  induction h with
  | top isContainer =>
    have hname := isContainer.name
    simp_all [Landing.path, Landing.chain, Node.name, Node.label]
  | under above shows isContainer ih =>
    have hname := isContainer.name
    rw [Landing.path_enter, ih, Node.name, Node.label, hname]
    simp

theorem parent (h : site.Stands names l) {up : Landing} (hup : l.parent? = some up) :
    ∃ names', site.Stands names' up := by
  cases h with
  | top isContainer => cases hup
  | under above shows isContainer =>
    rw [Landing.parent?_enter] at hup
    cases hup
    exact ⟨_, above⟩

/-- A container that shows is found by its name. -/
theorem resolve (h : site.Stands names l) (shows : site.Shows names name)
    (passable : (site.directory (names ++ [name])).isPassable = true) :
    ∃ below, site.Stands (names ++ [name]) below ∧
      ∀ journal, perform (l.resolve site name) journal = (.ok (.ok below), journal) := by
  obtain ⟨c, hc, isContainer⟩ := h.exists_container
  obtain ⟨below, hbelow, hmade⟩ := perform_container isContainer shows.listed none passable
  refine ⟨_, .under h shows hbelow, fun journal => ?_⟩
  have hup : (name == "..") = false := by simpa using shows.ne_up
  have hbuiltin : c.builtins.contains name = false := by
    simpa [isContainer.builtins] using shows.noBuiltin
  have hcommand : c.commands.contains name = false := by
    simpa [isContainer.commands] using shows.noCommand
  have hlisted : c.containers.contains name = true := by
    simpa [isContainer.containers] using shows.listed
  have hfound : c.lookUp site name none =
      (do return .ok (← Node.container <$> site.tree.container site.host c name none)) := by
    simp only [Container.lookUp, hbuiltin, hcommand, hlisted, Bool.false_eq_true, if_false, if_true]
  have hnode : perform (Node.container <$> site.tree.container site.host c name none) journal =
      (.ok (.container below), journal) := by
    rw [perform_map, hmade]
    rfl
  simp only [Landing.resolve, hc, hup, hfound, Bool.false_eq_true, if_false]
  rw [perform_map, perform_bind_of_ok hnode]
  rfl

end Stands

/-- Where a walk stands at a container, it stands at the container of the names above it. -/
def IsPlaced (site : Site) (l : Landing) : Prop :=
  ∀ c, l.node = .container c → ∃ names, site.Stands names l

/-- **Every word keeps the walk in its place.** A word leads to a container only from a container,
up or to one that shows there. -/
theorem IsPlaced.takes {word : Text} {token : Option Line.Token} {validate : Bool}
    (h : site.IsPlaced l) (htakes : l.Takes site word token validate next) :
    site.IsPlaced next := by
  intro below hbelow
  cases htakes with
  | up inContainer parent =>
    obtain ⟨names, hstands⟩ := h _ inContainer
    exact hstands.parent parent
  | found inContainer finds =>
    obtain ⟨names, hstands⟩ := h _ inContainer
    have isContainer := hstands.isContainer inContainer
    cases finds with
    | container listed noCommand noBuiltin made =>
      rw [isContainer.containers] at listed
      rw [isContainer.commands] at noCommand
      rw [isContainer.builtins] at noBuiltin
      exact ⟨_, hstands.under ⟨listed, noCommand, noBuiltin⟩
        (isContainer_container isContainer listed made)⟩
    | builtin | command | ambiguous => cases hbelow
  | parameter | unclear | builtin | option => cases hbelow

theorem isPlaced_top (h : perform (Walk.top site) journal = (.ok l, journal')) :
    site.IsPlaced l := by
  intro c _
  obtain ⟨c', rfl, hc'⟩ := Walk.exists_container_of_top h
  exact ⟨[], .top (isContainer_top hc')⟩

/-- **A container that a walk comes to stands in its place.** -/
theorem stands_of_leads {t : Landing} {words : List Walk.Word} (journal₀ : Journal)
    (ht : perform (Walk.top site) journal₀ = (.ok t, journal₀))
    (h : Walk.Leads site t journal words l journal') (hl : l.node = .container c) :
    site.Stands l.path l := by
  obtain ⟨names, hstands⟩ := h.invariant (fun h htakes => h.takes htakes) (isPlaced_top ht) c hl
  exact hstands.path_eq.symm ▸ hstands

/-! ## Taking names as they are -/

/-- **Unshadowed names lead to their container**, at any time and without anything being done. -/
theorem Unshadowed.start (h : site.Unshadowed names) :
    ∃ l, site.Stands names l ∧
      ∀ journal, perform (Walk.start site names false) journal = (.ok (.ok l), journal) := by
  induction h with
  | top passable =>
    obtain ⟨c, isContainer, hmade⟩ := perform_top passable
    refine ⟨_, .top isContainer, fun journal => ?_⟩
    refine Walk.start_eq_ok_iff.mpr ⟨_, ?_, .here _ _⟩
    exact (Shell.perform_bind_of_ok (hmade journal) _).trans rfl
  | @under names name above shows passable ih =>
    obtain ⟨l, hstands, hl⟩ := ih
    obtain ⟨below, hbelow, hresolve⟩ := hstands.resolve shows passable
    refine ⟨below, hbelow, fun journal => ?_⟩
    obtain ⟨t, ht, hleads⟩ := Walk.start_eq_ok_iff.mp (hl journal)
    refine Walk.start_eq_ok_iff.mpr ⟨t, ht, ?_⟩
    have hlast : Walk.Leads site l journal [.saved name] below journal :=
      .on (hresolve journal) (.here _ _)
    simpa using Walk.Leads.append_iff.mpr ⟨l, journal, hleads, hlast⟩

end Site

end ConfigShell
