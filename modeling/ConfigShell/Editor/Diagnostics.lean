import ConfigShell.Line.Position
import ConfigShell.Session.Command
/-!
# Diagnostics of a script

An editor shows what is wrong with the lines of a script without running any of them. The lines
are resolved one after another, following those that lead to a container, so that each is judged
from the place it would be carried out at.
-/

namespace ConfigShell

namespace Editor

/-- A part of a line, from one character up to another, both counted from zero. -/
structure Range where
  line : Nat
  start : Nat
  stop : Nat
  deriving Repr, DecidableEq

/-- How serious a diagnostic is. -/
inductive Severity where
  | error
  | warning
  deriving Repr, DecidableEq

/-- Something wrong with a line. -/
structure Diagnostic where
  range : Range
  message : Text
  severity : Severity
  deriving Repr, DecidableEq

/-- The part of a line that a word takes up, at least one character; the beginning of the line for
a word without a place. -/
def tokenRange (line : Nat) (source : Text) (token : Option Line.Token) : Range :=
  match token.filter (·.located) with
  | none => ⟨line, 0, 0⟩
  | some t =>
    let start := Text.column source t.start - 1
    ⟨line, start, max (start + 1) (Text.column source t.stop - 1)⟩

/-- A line that cannot be read. -/
def ofLexError (line : Nat) (e : Line.LexError) : Diagnostic :=
  { range := ⟨line, e.column - 1, e.column⟩, message := e.fault.message, severity := .error }

/-- A word that leads nowhere. -/
def ofWordError (line : Nat) (source : Text) (e : WordError) : Diagnostic :=
  { range := tokenRange line source e.token, message := e.complaint, severity := .warning }

/-- A saved path that leads nowhere. -/
def ofStalePath (line : Nat) (name : Text) : Diagnostic :=
  { range := ⟨line, 0, 0⟩, message := stalePathMessage name, severity := .warning }

/-- The complaint about an ambiguous word; the list is announced even where it is empty. -/
def ambiguityMessage (a : Ambiguity) : Text :=
  "bad command '" ++ a.typed ++ "': ambiguous, could be one of: " ++ Text.join ", " a.candidates

/-- A word that begins several names. -/
def ofAmbiguity (line : Nat) (source : Text) (a : Ambiguity) : Diagnostic :=
  { range := tokenRange line source a.token, message := ambiguityMessage a, severity := .warning }

/-- What is wrong with one line, and the session after it. -/
def diagnoseLine (site : Site) (s : Session) (line : Nat) (text : Text) :
    Shell (Option Diagnostic × Session) := do
  match Line.lexFinal text with
  | .error e => return (some (ofLexError line e), s)
  | .ok lexed =>
    if lexed.isEmpty then return (none, s)
    match ← s.resolve site lexed with
    | .error (.stalePath name) => return (some (ofStalePath line name), { s with path := [] })
    | .error (.word e) => return (some (ofWordError line lexed.source e), s)
    | .ok resolution =>
      match resolution.landing with
      | some ⟨.ambiguous a, _⟩ => return (some (ofAmbiguity line lexed.source a), s)
      | some ⟨.container c, above⟩ =>
        return (none, { s with path := Landing.path ⟨.container c, above⟩ })
      | _ => return (none, s)

/-- What is wrong with lines that follow one another, the first of the given number. -/
def diagnoseFrom (site : Site) (s : Session) (number : Nat) :
    List Text → Shell (List Diagnostic × Session)
  | [] => pure ([], s)
  | text :: rest => do
    let (found, s) ← diagnoseLine site s number text
    let (more, s) ← diagnoseFrom site s (number + 1) rest
    return (found.toList ++ more, s)

end Editor

/-- What is wrong with the lines of a script. -/
def Session.diagnose (site : Site) (s : Session) (lines : List Text) :
    Shell (List Editor.Diagnostic × Session) :=
  Editor.diagnoseFrom site s 0 lines

end ConfigShell
