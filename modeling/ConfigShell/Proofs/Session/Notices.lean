import ConfigShell.Proofs.Line.Extended
import ConfigShell.Proofs.Mute
import ConfigShell.Proofs.Session.Stopping
import ConfigShell.Proofs.Session.Typed
/-!
# What a line writes to the error stream

Walking a line writes nothing, whatever is asked on the way. What is written comes after it, and how
the line has resolved says what that is: a complaint of the word at which it stops, of the saved path
or of the execution, the outline of where the line has led, or what the executed program has to say
itself. `Session.notices` lists it in order, and `Session.err_command` says that this is all. Only
the complaint of a word shows a place in the line.
-/

namespace ConfigShell

open Shell (perform perform_bind Mute mute_pure mute_throw mute_launch)

variable {site : Site}

/-! ## Words -/

theorem Probe.mute_run (l : Landing) (p : Parameter) :
    Mute (Probe.run site.host site.tree.environment l p) := by
  cases hc : p.command with
  | none =>
    unfold Probe.run
    rw [hc]
    exact mute_throw _
  | some c =>
    rw [probe_of_command hc]
    exact (mute_launch _ _ _ _ _).map _

namespace Landing

theorem mute_resolveParameter (l : Landing) (command : Command) (word : Text)
    (token : Option Line.Token) (validate : Bool) :
    Mute (l.resolveParameter site command word token validate) := by
  unfold resolveParameter
  dsimp only
  split
  · exact mute_pure _
  split
  · exact (Probe.mute_run l _).bind fun p => mute_pure _
  · exact mute_pure _

/-- **Resolving a word writes nothing.** -/
theorem mute_resolve (l : Landing) (word : Text) (token : Option Line.Token) (validate : Bool) :
    Mute (l.resolve site word token validate) := by
  unfold resolve
  split
  · split
    · split <;> exact mute_pure _
    · exact ((Container.isQuiet_lookUp _ word token).map _).mute
  · exact (mute_resolveParameter l _ word token validate).map _
  · split
    · exact (mute_resolveParameter l _ word token validate).map _
    · exact mute_throw _
  · exact mute_pure _
  · exact mute_pure _
  · exact mute_pure _

end Landing

theorem Walk.mute_words (validate : Bool) (l : Landing) (tokens : List Line.Token) :
    Mute (Walk.words site validate l tokens) := by
  induction tokens generalizing l with
  | nil => exact mute_pure _
  | cons token rest ih =>
    unfold Walk.words
    refine (l.mute_resolve token.data (some token) validate).bind fun r => ?_
    cases r with
    | error e => exact mute_pure _
    | ok next => exact (ih next).bind fun walk => mute_pure _

theorem Session.mute_resolve (s : Session) (lexed : Line.Lexed) (validate : Bool) :
    Mute (s.resolve site lexed validate) := by
  unfold resolve
  split
  · exact mute_pure _
  · refine Mute.map ?_ _
    unfold Walk.line
    dsimp only
    refine (Walk.isQuiet_start s.path _).mute.bind fun r => ?_
    cases r with
    | error name => exact mute_pure _
    | ok l => exact (Walk.mute_words validate l _).bind fun walk => mute_pure _

/-! ## Notices -/

/-- Something written to the error stream. -/
inductive Notice where
  /-- The line of the given number cannot be read. -/
  | fault (number : Nat) (e : Line.LexError)
  /-- A word of that line leads nowhere, or to more than one thing. -/
  | word (number : Nat) (source : Text) (e : WordError)
  | stalePath (name : Text)
  | execution (reason : ExecutionFault)
  /-- The outline of where a line has led. -/
  | outline (l : Landing)
  /-- What a program has written. -/
  | program (err : Text)
  deriving Repr, DecidableEq

namespace Notice

/-- A complaint as it is written. -/
def complaint (message : Text) : Text := Text.spellStrays message ++ "\n"

def text : Notice → Text
  | fault number e => complaint (e.report (some number))
  | word number source e => complaint (e.report (some number) (some source))
  | stalePath name => complaint (stalePathMessage name)
  | execution reason => complaint reason.report
  | outline l => Text.spellStrays l.outline
  | program err => err

/-- The notice is about the line itself: it cannot be read, or one of its words leads nowhere. -/
def isAboutLine : Notice → Bool
  | fault _ _ | word _ _ _ => true
  | stalePath _ | execution _ | outline _ | program _ => false

/-- A line, a column of it, and the offset that is meant. -/
structure Place where
  line : Nat
  column : Nat
  offset : Int
  deriving Repr, DecidableEq

/-- The place that a notice shows. -/
def place? : Notice → Option Place
  | fault number e => some ⟨number, Line.columnAt e.source e.offset, e.offset⟩
  | word number source e =>
    e.locatedToken?.map fun t => ⟨number, Line.columnAt source t.start, t.start⟩
  | stalePath _ | execution _ | outline _ | program _ => none

theorem place?_eq_none {notice : Notice} (h : notice.isAboutLine = false) :
    notice.place? = none := by
  cases notice with
  | fault | word => cases h
  | stalePath | execution | outline | program => rfl

/-- What is shown of a place are the line and the column. -/
theorem exists_text_eq {notice : Notice} {p : Place} (h : notice.place? = some p) :
    ∃ head tail, notice.text =
      complaint (head ++ Line.place (some p.column) (some p.line) ++ tail) := by
  cases notice with
  | fault number e =>
    cases h
    refine ⟨"syntax error at " ++ e.subject ++ ": " ++ e.fault.message,
      "\n" ++ Line.context e.source e.offset 1, ?_⟩
    simp [text, Line.LexError.report, Line.LexError.column]
  | word number source e =>
    obtain ⟨t, ht, rfl⟩ := Option.map_eq_some_iff.mp h
    have hcolumn : e.column (some source) = some (Line.columnAt source t.start : Int) := by
      simp [WordError.column, ht]
    cases source with
    | nil => exact ⟨e.complaint, [], by simp [text, WordError.report, hcolumn]⟩
    | cons b rest =>
      refine ⟨e.complaint, "\n" ++ Line.context (b :: rest) t.start
        (max 1 (t.stop - t.start).toNat), ?_⟩
      simp [text, WordError.report, hcolumn, ht]
  | _ => cases h

end Notice

/-- What is to be seen of an attempt to execute: why it was refused, or what the program has written
and how it has failed. -/
def Execution.noticesOf : Except Breakdown (Except RunFault Reply) → List Notice
  | .error _ => []
  | .ok (.error reason) => [.execution (.failed reason)]
  | .ok (.ok reply) =>
    .program reply.err :: (reply.ending.fault?.toList.map fun reason => .execution (.failed reason))

/-- What is to be seen of executing the command that a walk has ended at, after the given calls. -/
def Execution.notices (site : Site) (l : Landing) (calls : List Call) : List Notice :=
  match plan l with
  | .error fault => [.execution fault]
  | .ok (c, words) =>
    noticesOf (perform
      (site.host.launch site.tree.environment c.sysconf c.executable.toText words)
      { calls := calls }).1

/-- What is to be seen of acting on where a line has led. -/
def Landing.notices (site : Site) (l : Landing) (number : Nat) (source : Text)
    (calls : List Call) : List Notice :=
  match l.node with
  | .command _ | .parameter _ => Execution.notices site l calls
  | .ambiguous a => [.word number source (Session.ambiguityError a)]
  | .container _ | .builtin _ | .option _ _ => []

namespace Session

/-- What is to be seen of acting on the resolution of a line. -/
def noticesOf (site : Site) (s : Session) (number : Nat) (source : Text) (calls : List Call) :
    Except WalkError Resolution → List Notice
  | .error (.stalePath name) => [.stalePath name]
  | .error (.word e) => [.word number source e]
  | .ok { landing := none, .. } => []
  | .ok { landing := some l, .. } =>
    (if s.isTracing then [.outline l] else []) ++ l.notices site number source calls

/-- What is to be seen of carrying out a line. A line without words is not walked. -/
def notices (site : Site) (s : Session) (lexed : Line.Lexed) (number : Nat) (journal : Journal) :
    List Notice :=
  if lexed.isEmpty then []
  else
    match perform (s.resolve site lexed true) journal with
    | (.error _, _) => []
    | (.ok r, after) => s.noticesOf site number lexed.source after.calls r

end Session

/-! ## Lines -/

namespace Execution

/-- What is written after an attempt to execute. -/
theorem err_ended (s : Session) (answer : Except RunFault Reply) (journal : Journal) :
    (perform (ended answer >>= s.report) journal).2.err =
      journal.err ++ (noticesOf (.ok answer)).flatMap Notice.text := by
  cases answer with
  | error reason =>
    rw [noticesOf, List.flatMap_singleton]
    rfl
  | ok reply =>
    rw [noticesOf, List.flatMap_cons, ← List.append_assoc]
    cases hfault : reply.ending.fault? with
    | none =>
      simp only [ended, hfault]
      exact (List.append_nil _).symm
    | some reason =>
      simp only [ended, hfault, Option.toList_some, List.map_singleton, List.flatMap_singleton]
      rfl

/-- **What an execution writes** is what the program has written, and the complaint of a failure. -/
theorem err_run (s : Session) (l : Landing) (journal : Journal) :
    (perform (run site.host site.tree.environment l >>= s.report) journal).2.err =
      journal.err ++ (notices site l journal.calls).flatMap Notice.text := by
  unfold notices
  cases hplan : plan l with
  | error fault =>
    rw [run_of_fault hplan, pure_bind, List.flatMap_singleton]
    rfl
  | ok planned =>
    obtain ⟨c, words⟩ := planned
    have hmute := mute_launch site.host site.tree.environment c.sysconf c.executable.toText words
      journal
    -- the reply depends on the calls made before, and on nothing else
    have halike := (Shell.alike_launch site.host site.tree.environment c.sysconf
      c.executable.toText words journal { calls := journal.calls } rfl).2.eq
    rw [run_of_plan hplan, bind_assoc, perform_bind]
    dsimp only
    rw [← halike]
    cases hlaunch : perform
        (site.host.launch site.tree.environment c.sysconf c.executable.toText words) journal with
    | mk outcome after =>
      rw [hlaunch] at hmute
      rw [← hmute]
      cases outcome with
      | error e => exact (List.append_nil _).symm
      | ok answer => exact err_ended s answer after

end Execution

namespace Session

variable {buffer : Text} {lexed : Line.Lexed}

/-- A word of the line is complained of as one. -/
theorem complainOfWord_eq (h : Line.lex buffer = .ok lexed) (words : lexed.isEmpty = false)
    (number : Nat) (e : WordError) :
    complainOfWord lexed (some number) e =
      Shell.printError (Notice.word number lexed.source e).text := by
  have hsource : shownSource lexed = some lexed.source := by
    rw [shownSource, Line.source_of_lex h]
    simp [Line.ne_nil_of_words h words]
  rw [complainOfWord, hsource]
  rfl

theorem err_dispatch (h : Line.lex buffer = .ok lexed) (words : lexed.isEmpty = false)
    (s : Session) (l : Landing) (number : Nat) (journal : Journal) :
    (perform (s.dispatch site l lexed (some number)) journal).2.err =
      journal.err ++ (l.notices site number lexed.source journal.calls).flatMap Notice.text := by
  unfold dispatch Landing.notices
  cases hnode : l.node with
  | container c => exact (List.append_nil _).symm
  | command c => exact Execution.err_run s l journal
  | parameter p => exact Execution.err_run s l journal
  | builtin b => exact (List.append_nil _).symm
  | option o command => exact (List.append_nil _).symm
  | ambiguous a =>
    dsimp only
    rw [complainOfWord_eq h words, List.flatMap_singleton]
    rfl

theorem err_act (h : Line.lex buffer = .ok lexed) (words : lexed.isEmpty = false) (s : Session)
    (number : Nat) (r : Except WalkError Resolution) (journal : Journal) :
    (perform (s.act site lexed (some number) r) journal).2.err =
      journal.err ++
        (s.noticesOf site number lexed.source journal.calls r).flatMap Notice.text := by
  match r with
  | .error (.stalePath name) =>
    rw [noticesOf, List.flatMap_singleton]
    rfl
  | .error (.word e) =>
    rw [noticesOf, List.flatMap_singleton, act, complainOfWord_eq h words]
    rfl
  | .ok { landing := none, .. } => exact (List.append_nil _).symm
  | .ok { landing := some l, .. } =>
    unfold act noticesOf
    dsimp only
    cases s.isTracing with
    | false => exact err_dispatch h words s l number journal
    | true =>
      -- the outline is written first, and what is done then depends on the calls only
      let traced := { journal with err := journal.err ++ Text.spellStrays l.outline }
      have hdispatch :
          (perform (s.dispatch site l lexed (some number)) traced).2.err = traced.err ++
            (l.notices site number lexed.source journal.calls).flatMap Notice.text :=
        err_dispatch h words s l number traced
      rw [if_pos rfl, if_pos rfl, List.flatMap_append, List.flatMap_singleton, ← List.append_assoc]
      exact hdispatch

/-- **What carrying out a line writes to the error stream** are the notices of how it resolves. -/
theorem err_command (h : Line.lex buffer = .ok lexed) (s : Session) (number : Nat)
    (journal : Journal) :
    (perform (s.command site lexed (some number)) journal).2.err =
      journal.err ++ (s.notices site lexed number journal).flatMap Notice.text := by
  unfold notices
  cases words : lexed.isEmpty with
  | true =>
    rw [command, words]
    exact (List.append_nil _).symm
  | false =>
    have hmute : (perform (s.resolve site lexed true) journal).2.err = journal.err :=
      s.mute_resolve lexed true journal
    rw [command_eq_act site s words, perform_bind]
    cases hresolve : perform (s.resolve site lexed true) journal with
    | mk outcome after =>
      rw [hresolve] at hmute
      cases outcome with
      | error e => exact hmute.trans (List.append_nil _).symm
      | ok r =>
        rw [← hmute]
        exact err_act h words s number r after

/-! ## Notices about the line -/

variable {notice : Notice} {l : Landing} {calls : List Call} {number : Nat} {source : Text}

theorem isAboutLine_of_execution (h : notice ∈ Execution.notices site l calls) :
    notice.isAboutLine = false := by
  have hof (answer : Except Breakdown (Except RunFault Reply))
      (hanswer : notice ∈ Execution.noticesOf answer) : notice.isAboutLine = false := by
    match answer, hanswer with
    | .ok (.error reason), hanswer =>
      rw [List.mem_singleton.mp hanswer]
      rfl
    | .ok (.ok reply), hanswer =>
      rcases List.mem_cons.mp hanswer with rfl | hanswer
      · rfl
      · obtain ⟨reason, -, rfl⟩ := List.mem_map.mp hanswer
        rfl
  unfold Execution.notices at h
  split at h
  · rw [List.mem_singleton.mp h]
    rfl
  · exact hof _ h

theorem isAboutLine_of_landing (h : notice ∈ l.notices site number source calls) :
    notice.isAboutLine = false ∨
      ∃ a, l.node = .ambiguous a ∧ notice = .word number source (ambiguityError a) := by
  unfold Landing.notices at h
  cases hnode : l.node with
  | ambiguous a =>
    rw [hnode] at h
    exact .inr ⟨a, rfl, List.mem_singleton.mp h⟩
  | command c =>
    rw [hnode] at h
    exact .inl (isAboutLine_of_execution h)
  | parameter p =>
    rw [hnode] at h
    exact .inl (isAboutLine_of_execution h)
  | container c | builtin b | option o command => simp [hnode] at h

/-- **What is said about a line** that can be read is the complaint of the word at which it stops. -/
theorem isAboutLine_of_mem_notices {s : Session} {journal : Journal}
    (h : notice ∈ s.notices site lexed number journal) :
    notice.isAboutLine = false ∨ ∃ e t, notice = .word number lexed.source e ∧ e.token = some t ∧
      s.StopsAt site lexed journal t := by
  unfold notices at h
  cases words : lexed.isEmpty with
  | true => simp [words] at h
  | false =>
    rw [words, if_neg Bool.false_ne_true] at h
    cases hresolve : perform (s.resolve site lexed true) journal with
    | mk outcome after =>
      rw [hresolve] at h
      match outcome, h with
      | .ok (.error (.stalePath name)), h =>
        rw [List.mem_singleton.mp h]
        exact .inl rfl
      | .ok (.error (.word e)), h =>
        obtain ⟨t, htoken, hstops⟩ := exists_stopsAt_of_refused hresolve
        exact .inr ⟨e, t, List.mem_singleton.mp h, htoken, hstops⟩
      | .ok (.ok { landing := some l, .. }), h =>
        rcases List.mem_append.mp h with htraced | hacted
        · split at htraced
          · rw [List.mem_singleton.mp htraced]
            exact .inl rfl
          · cases htraced
        · rcases isAboutLine_of_landing hacted with hnone | ⟨a, hnode, rfl⟩
          · exact .inl hnone
          · obtain ⟨t, htoken, hstops⟩ := exists_stopsAt_of_ambiguous words hresolve hnode
            exact .inr ⟨ambiguityError a, t, rfl, htoken, hstops⟩

/-- The word at which a line stops stands in it. -/
theorem StopsAt.standsIn {s : Session} {journal : Journal} {t : Line.Token}
    (h : s.StopsAt site lexed journal t) (hlex : Line.lex buffer = .ok lexed) :
    t.StandsIn buffer := by
  have hcomment : lexed.isComment = false := by
    cases hcomment : lexed.isComment with
    | false => rfl
    | true =>
      have hword := h.mem
      rw [(Line.comment_of_lex hlex hcomment).2.1] at hword
      cases hword
  exact Line.standsIn_splitRoot (Line.standsIn_of_lex hlex hcomment) t h.mem

end Session

end ConfigShell
