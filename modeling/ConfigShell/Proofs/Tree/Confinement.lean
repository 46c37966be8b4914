import ConfigShell.Proofs.Tree.Walking
/-!
# A session starts nothing outside its tree

What a line starts is a sound command, so its file is a row of listed names below the one root,
its working directory the same row of names below the other, and its environment what may be
seen of the environment of the session (`calls_confined`).
-/

namespace ConfigShell

/-! ## The environment of programs -/

/-- `restricted` has the variables of `whole` that are among `names`, each once, and no other. -/
structure IsRestriction (names : List Text) (whole restricted : List (Text × Text)) : Prop where
  nodup : (restricted.map (·.1)).Nodup
  mem_iff : ∀ name value, (name, value) ∈ restricted ↔
    name ∈ names ∧ valueOf? whole name = some value

theorem isRestriction_sanitize (environment : List (Text × Text)) :
    IsRestriction allowedVariables environment (sanitize environment) := by
  constructor
  · have hnodup : allowedVariables.Nodup := by decide
    refine List.pairwise_map.mpr (List.pairwise_filterMap.mpr (hnodup.imp ?_))
    intro name name' hne p hp p' hp'
    obtain ⟨value, -, rfl⟩ := Option.map_eq_some_iff.mp hp
    obtain ⟨value', -, rfl⟩ := Option.map_eq_some_iff.mp hp'
    exact hne
  · intro name value
    rw [sanitize, List.mem_filterMap]
    constructor
    · rintro ⟨name', hname, hvalue⟩
      obtain ⟨value', hvalue', hpair⟩ := Option.map_eq_some_iff.mp hvalue
      cases hpair
      exact ⟨hname, hvalue'⟩
    · rintro ⟨hname, hvalue⟩
      exact ⟨name, hname, by rw [hvalue]; rfl⟩

/-! ## Confinement -/

/-- The program is a command's file in the directory that a row of listed names leads to from the
one root, and runs in the directory that the same names lead to from the other root. -/
def Site.Confines (site : Site) (call : Call) : Prop :=
  ∃ names file, site.Reaches names ∧ (∀ name ∈ names, name.head? ≠ some 0x2E) ∧
    site.Backs names file ∧
    call.file = ((site.tree.libexec.descend names).child file).toText ∧
    call.directory = (site.tree.sysconf.descend names).toText

theorem Site.Offers.confines {site : Site} {c : Command} (h : site.Offers c) (call : Call)
    (hfile : call.file = c.executable.toText) (hdirectory : call.directory = c.sysconf.toText) :
    site.Confines call := by
  obtain ⟨names, file, hreaches, hbacks, hexecutable, hsysconf⟩ := h
  exact ⟨names, file, hreaches, hreaches.visible, hbacks, by rw [hfile, hexecutable]; rfl,
    by rw [hdirectory, hsysconf]⟩

/-- **Confinement.** Whatever the machine holds and answers, whatever has been saved and typed, a
line starts only files of listed commands, each in the directory that belongs to its place and
with the allowed variables of the environment alone. -/
theorem calls_confined (host : Host) (environment : List (Text × Text))
    (libexec sysconf : Option Path) (suffixes : Option (List Text)) (s : Session)
    (lexed : Line.Lexed) (number : Option Int) :
    let site : Site := ⟨host, .ofEnvironment environment libexec sysconf suffixes⟩
    let confined (call : Call) :=
      site.Confines call ∧ IsRestriction allowedVariables environment call.environment
    Shell.StartsOnly confined (s.command site lexed number) ∧
      Shell.StartsOnly confined (s.complete site lexed) := by
  intro site confined
  have hprobe : ∀ c parameters, site.Offers c → confined (site.probe c parameters) :=
    fun c _ hc => ⟨hc.confines _ rfl rfl, isRestriction_sanitize environment⟩
  have hexecution : ∀ c parameters, site.Offers c → confined (site.execution c parameters) :=
    fun c _ hc => ⟨hc.confines _ rfl rfl, isRestriction_sanitize environment⟩
  exact ⟨(does_command s lexed number hprobe hexecution).starts,
    (does_complete s lexed hprobe).starts⟩

end ConfigShell
