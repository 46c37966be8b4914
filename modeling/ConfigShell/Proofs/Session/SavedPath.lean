import ConfigShell.Proofs.Session.Discipline
import ConfigShell.Proofs.Tree.Standing
/-!
# The saved path

A session saves the names down to a container and takes them again, as they are, before each line.
As long as the tree stays the same, this leads back: after any run of lines the saved path leads to
the container that the last navigating line has led to (`Session.Run.savedPath_leads_back`). In a
tree that has changed, the names lead to a container of their path just where they are unshadowed
(`Site.start_container_iff`). Where a command has taken the name of a container, the walk does not
stop but goes on below the command (`Site.Unshadowed.start_command`).
-/

namespace ConfigShell

open Shell (perform)

variable {site now : Site} {names : List Text} {name : Text} {l : Landing} {c here : Container}
  {s : Session} {lexed : Line.Lexed} {number : Option Int} {journal : Journal}

/-! ## Names and the containers they lead to -/

namespace Site

/-- Taken one by one as they are, the names lead to the container, and they are its path. -/
def ReplaysTo (site : Site) (names : List Text) (c : Container) : Prop :=
  ∃ above, Landing.path ⟨.container c, above⟩ = names ∧ ∀ journal,
    perform (Walk.start site names false) journal = (.ok (.ok ⟨.container c, above⟩), journal)

theorem Unshadowed.exists_replaysTo (h : site.Unshadowed names) :
    ∃ c, site.IsContainer names c ∧ site.ReplaysTo names c := by
  obtain ⟨⟨node, above⟩, hstands, hstart⟩ := h.start
  obtain ⟨c, rfl, isContainer⟩ := hstands.exists_container
  exact ⟨c, isContainer, above, hstands.path_eq, hstart⟩

/-- **A saved path leads to a container of this path just where it is unshadowed.** -/
theorem start_container_iff (site : Site) (path : List Text) (journal : Journal) :
    (∃ l, perform (Walk.start site path false) journal = (.ok (.ok l), journal) ∧
        l.node.kind = .container ∧ l.path = path) ↔ site.Unshadowed path := by
  constructor
  · rintro ⟨l, hstart, hkind, hpath⟩
    obtain ⟨c, hc⟩ := Node.kind_eq_container_iff.mp hkind
    obtain ⟨t, ht, hleads⟩ := Walk.start_eq_ok_iff.mp hstart
    exact hpath ▸ (stands_of_leads journal ht hleads hc).unshadowed
  · intro h
    obtain ⟨l, hstands, hstart⟩ := h.start
    obtain ⟨c, hc, -⟩ := hstands.exists_container
    exact ⟨l, hstart journal, by rw [hc]; rfl, hstands.path_eq⟩

/-- **Where a command has the last name, a saved path leads to the command**, whether or not there
is a container of the name as well. -/
theorem Unshadowed.start_command (h : site.Unshadowed names)
    (hcommand : name ∈ (site.listing names).commands) (hbuiltin : name ∉ builtins names)
    (hup : name ≠ "..") :
    ∃ l, l.node.kind = .command ∧ ∀ journal,
      perform (Walk.start site (names ++ [name]) false) journal = (.ok (.ok l), journal) := by
  obtain ⟨l, hstands, hstart⟩ := h.start
  obtain ⟨c, hc, isContainer⟩ := hstands.exists_container
  refine ⟨l.enter (.command (c.command name none)), rfl, fun journal => ?_⟩
  obtain ⟨t, ht, hleads⟩ := Walk.start_eq_ok_iff.mp (hstart journal)
  have hresolve : perform (l.resolve site name) journal =
      (.ok (.ok (l.enter (.command (c.command name none)))), journal) := by
    have hup : (name == "..") = false := by simpa using hup
    have hbuiltin : c.builtins.contains name = false := by
      simpa [isContainer.builtins] using hbuiltin
    have hcommand : c.commands.contains name = true := by
      simpa [isContainer.commands] using hcommand
    simp only [Landing.resolve, hc, hup, Container.lookUp, hbuiltin, hcommand,
      Bool.false_eq_true, if_false, if_true]
    rfl
  have hlast : Walk.Leads site l journal [.saved name]
      (l.enter (.command (c.command name none))) journal := .on hresolve (.here _ _)
  refine Walk.start_eq_ok_iff.mpr ⟨t, ht, ?_⟩
  simpa using Walk.Leads.append_iff.mpr ⟨l, journal, hleads, hlast⟩

/-- A tree whose only entry is a command, where there may have been a container of the name. -/
def commandOnly : Site where
  host := { Host.bare with
    entries := fun p => if p = "/tree" then [⟨"interfaces", .file, true⟩] else [] }
  tree := { libexec := "/tree" }

/-- So a saved path may lead to something else than a container. -/
theorem not_start_container_of_ok :
    ¬ ∀ (site : Site) (path : List Text) (journal : Journal) (l : Landing),
      perform (Walk.start site path false) journal = (.ok (.ok l), journal) →
        l.node.kind = .container ∧ l.path = path := by
  intro h
  have htop : commandOnly.Unshadowed [] := .top (by decide +kernel)
  have hcommand : ("interfaces" : Text) ∈ (commandOnly.listing []).commands := by decide +kernel
  obtain ⟨l, hkind, hstart⟩ := htop.start_command hcommand (by decide) (by decide)
  obtain ⟨hcontainer, -⟩ := h commandOnly ["interfaces"] {} l (hstart {})
  rw [hkind] at hcontainer
  cases hcontainer

/-! ## The same tree at another time -/

/-- The tree of commands is the same, from the same roots down; programs, their answers and all that
is not a directory of commands may be others. -/
structure SameTree (site now : Site) : Prop where
  libexec : now.tree.libexec = site.tree.libexec
  sysconf : now.tree.sysconf = site.tree.sysconf
  listing : ∀ names, site.Reaches names → now.listing names = site.listing names

namespace SameTree

theorem refl (site : Site) : site.SameTree site := ⟨rfl, rfl, fun _ _ => rfl⟩

theorem directory_eq (h : site.SameTree now) (names : List Text) :
    now.directory names = site.directory names := by
  rw [directory, directory, h.libexec]

theorem symm (h : site.SameTree now) : now.SameTree site := by
  refine ⟨h.libexec.symm, h.sysconf.symm, fun names hreaches => ?_⟩
  have hsame : site.Reaches names := by
    induction hreaches with
    | top => exact .top
    | under _ listed ih => exact ih.under (h.listing _ ih ▸ listed)
  exact (h.listing names hsame).symm

theorem unshadowed (h : site.SameTree now) (hnames : site.Unshadowed names) :
    now.Unshadowed names := by
  induction hnames with
  | top passable => exact .top (by rwa [h.directory_eq])
  | @under names name above shows passable ih =>
    have hlisting := h.listing names above.reaches
    exact ih.under ⟨hlisting ▸ shows.listed, hlisting ▸ shows.noCommand, shows.noBuiltin⟩
      (by rwa [h.directory_eq])

end SameTree

end Site

/-! ## Runs of lines -/

namespace Session

/-- The container that a line leads to, if it leads to one. -/
def destination? (site : Site) (s : Session) (lexed : Line.Lexed) (journal : Journal) :
    Option Container :=
  if lexed.isEmpty then none
  else match (perform (s.resolve site lexed true) journal).1 with
    | .ok (.ok { landing := some ⟨.container c, _⟩, .. }) => some c
    | _ => none

/-- The session after a line. A line that breaks down leaves it as it was. -/
def after (site : Site) (s : Session) (lexed : Line.Lexed) (number : Option Int)
    (journal : Journal) : Session :=
  match (perform (s.command site lexed number) journal).1 with
  | .ok (_, s') => s'
  | .error _ => s

/-- Lines carried out one after another, from the top of the tree on, while the tree stays the same;
the session and the container that the last navigating line has led to. -/
inductive Run (site : Site) : Session → Container → Journal → Prop
  | begin (isTracing : Bool) {top : Container} {journal : Journal}
      (made : perform (site.tree.top site.host) journal = (.ok top, journal)) :
      Run site { isTracing := isTracing } top journal
  | line {s : Session} {here : Container} {journal : Journal} {now : Site}
      (run : Run site s here journal) (same : site.SameTree now) (lexed : Line.Lexed)
      (number : Option Int) :
      Run site (s.after now lexed number journal)
        ((s.destination? now lexed journal).getD here)
        (perform (s.command now lexed number) journal).2

/-- The session stands at the container: the saved path is unshadowed, and both directories of the
container are those of the saved path. -/
structure StandsAt (site : Site) (s : Session) (here : Container) : Prop where
  unshadowed : site.Unshadowed s.path
  libexec : here.libexec = site.directory s.path
  sysconf : here.sysconf = site.tree.sysconf.descend s.path

theorem destination?_eq_some_iff :
    s.destination? site lexed journal = some c ↔
      ∃ l, s.MovesTo site lexed journal l ∧ l.node = .container c := by
  unfold destination?
  constructor
  · intro h
    split at h
    · cases h
    · rename_i words
      split at h
      · rename_i c' above steps resolved
        cases h
        have words : lexed.isEmpty = false := by simpa using words
        exact ⟨⟨.container c, above⟩, ⟨words, rfl, steps, _, Prod.ext resolved rfl⟩, rfl⟩
      · cases h
  · rintro ⟨⟨node, above⟩, ⟨words, -, steps, journal', resolved⟩, rfl⟩
    simp [words, resolved]

/-- Where a line leads to a container, the session moves there. -/
theorem MovesTo.after_eq (h : s.MovesTo site lexed journal l) :
    s.after site lexed number journal = { s with path := l.path } := by
  obtain ⟨words, hkind, steps, resolution, resolved⟩ := h
  obtain ⟨traced, -, dispatched⟩ :=
    (carriedOut site s lexed number journal).dispatched words resolved
  unfold after
  generalize perform (s.command site lexed number) journal = result at dispatched ⊢
  cases dispatched with
  | moved => rfl
  | executed atCommand => rcases atCommand with hl | hl <;> simp [hl] at hkind
  | told belowBuiltin => rcases belowBuiltin with hl | hl <;> simp [hl] at hkind
  | unclear atAmbiguity => rw [atAmbiguity] at hkind; cases hkind

/-- Where it moves, it stands. -/
theorem MovesTo.stands (h : s.MovesTo site lexed journal l) : site.Stands l.path l := by
  obtain ⟨-, hkind, steps, resolution, resolved⟩ := h
  obtain ⟨c, hc⟩ := Node.kind_eq_container_iff.mp hkind
  obtain ⟨-, t, ht, hleads⟩ := resolve_eq_ok_iff.mp ⟨steps, resolved⟩
  exact Site.stands_of_leads journal ht hleads hc

/-- **Every line leaves the saved path unshadowed.** -/
theorem unshadowed_command {outcome : Outcome} {s' : Session} {journal' : Journal}
    (h : site.Unshadowed s.path)
    (hcommand : perform (s.command site lexed number) journal = (.ok (outcome, s'), journal')) :
    site.Unshadowed s'.path := by
  rcases moves_command hcommand with ⟨rfl, -⟩ | ⟨-, l, hl, rfl⟩
  · exact h
  · exact hl.stands.unshadowed

/-- Where it does not, the session stays. -/
theorem after_eq_of_not_movesTo (h : ∀ l, ¬ s.MovesTo site lexed journal l) :
    s.after site lexed number journal = s := by
  unfold after
  cases hcommand : perform (s.command site lexed number) journal with
  | mk result journal' =>
    cases result with
    | error e => rfl
    | ok moved =>
      obtain ⟨outcome, s'⟩ := moved
      rcases moves_command hcommand with ⟨rfl, -⟩ | ⟨-, l, hl, -⟩
      · rfl
      · exact absurd hl (h l)

namespace StandsAt

theorem begin (h : perform (site.tree.top site.host) journal = (.ok c, journal))
    (isTracing : Bool) : StandsAt site { isTracing := isTracing } c := by
  have isContainer := Site.isContainer_top h
  exact ⟨.top isContainer.passable, isContainer.libexec, isContainer.sysconf⟩

theorem same (h : s.StandsAt site here) (same : site.SameTree now) : s.StandsAt now here where
  unshadowed := same.unshadowed h.unshadowed
  libexec := by rw [h.libexec, same.directory_eq]
  sysconf := by rw [h.sysconf, same.sysconf]

/-- **Every line leaves the session standing at a container**: the one it leads to, or else the one
before. -/
theorem after (h : s.StandsAt site here) :
    (s.after site lexed number journal).StandsAt site
      ((s.destination? site lexed journal).getD here) := by
  cases hdestination : s.destination? site lexed journal with
  | none =>
    rw [after_eq_of_not_movesTo]
    · exact h
    · intro l hl
      obtain ⟨c, hc⟩ := Node.kind_eq_container_iff.mp hl.2.1
      rw [destination?_eq_some_iff.mpr ⟨l, hl, hc⟩] at hdestination
      cases hdestination
  | some c =>
    obtain ⟨l, hl, hc⟩ := destination?_eq_some_iff.mp hdestination
    rw [hl.after_eq]
    have isContainer := hl.stands.isContainer hc
    exact ⟨hl.stands.unshadowed, isContainer.libexec, isContainer.sysconf⟩

/-- Taken again, the saved path leads to the container that the session stands at. -/
theorem replays (h : s.StandsAt site here) :
    ∃ c, site.ReplaysTo s.path c ∧ c.libexec = here.libexec ∧ c.sysconf = here.sysconf := by
  obtain ⟨c, isContainer, hreplays⟩ := h.unshadowed.exists_replaysTo
  refine ⟨c, hreplays, ?_, ?_⟩
  · rw [isContainer.libexec, h.libexec]
  · rw [isContainer.sysconf, h.sysconf]

end StandsAt

theorem Run.standsAt (h : Run site s here journal) : s.StandsAt site here := by
  induction h with
  | begin isTracing made => exact .begin made isTracing
  | line run same lexed number ih => exact ((ih.same same).after).same same.symm

/-- **The saved path leads back.** After any run of lines, and as long as the tree stays the same,
the saved path leads to a container of this path, which has the directories of the one that the last
navigating line has led to; and each of its beginnings leads to a container of its own path. -/
theorem Run.savedPath_leads_back (h : Run site s here journal) (same : site.SameTree now) :
    (∃ c, now.ReplaysTo s.path c ∧ c.libexec = here.libexec ∧ c.sysconf = here.sysconf) ∧
      ∀ names, names <+: s.path → ∃ c, now.ReplaysTo names c := by
  have hstands := h.standsAt.same same
  refine ⟨hstands.replays, fun names hnames => ?_⟩
  obtain ⟨c, -, hreplays⟩ := (hstands.unshadowed.beginning hnames).exists_replaysTo
  exact ⟨c, hreplays⟩

/-- Below the top, a container may have the name of a builtin, and at the top one may begin like a
command. -/
def nested : Site where
  host := { Host.bare with
    entries := fun p =>
      if p = "/tree" then [⟨"network", .directory, false⟩, ⟨"neck", .file, true⟩]
      else if p = "/tree/network" then [⟨"exit", .directory, false⟩]
      else [] }
  tree := { libexec := "/tree" }

/-- Two abbreviations lead down that tree, and the path saved leads back. -/
theorem run_nested_replays : ∃ s here journal, Run nested s here journal ∧
    s.path = [("network" : Text), "exit"] ∧
    (∃ c, nested.ReplaysTo s.path c ∧ c.libexec = here.libexec ∧ c.sysconf = here.sysconf) ∧
    ∀ names, names <+: s.path → ∃ c, nested.ReplaysTo names c := by
  have passable : (nested.directory []).isPassable = true := by decide +kernel
  obtain ⟨top, -, made⟩ := Site.perform_top passable
  have run := ((Run.begin false (made {})).line (.refl nested) (.ofWords ["net"]) none).line
    (.refl nested) (.ofWords ["ex"]) none
  exact ⟨_, _, _, run, by decide +kernel, run.savedPath_leads_back (.refl nested)⟩

end Session

end ConfigShell
