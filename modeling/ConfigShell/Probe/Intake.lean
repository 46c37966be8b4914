import ConfigShell.Landing.Node
import ConfigShell.Line.Lexed
/-!
# Reading a command's answer

Asked what may come next, a command prints one candidate a line: a dash for an optional one or
an asterisk for a required one, and then one word, which is a key with an equals sign or a
value. An `Intake` takes the output in pieces of any size and collects the candidates in the
parameter the question was about. Lines that say nothing of this kind are passed over.
-/

namespace ConfigShell

namespace Probe

/-- The most candidates that are collected. -/
def maxCandidates : Nat := 1000

/-- A line of this many bytes or more is passed over. -/
def maxLine : Nat := 8192

/-- The word of a candidate line and whether it is required. -/
def candidate? (line : Text) : Option (Line.Token × Bool) :=
  match line with
  | [] => none
  | mark :: rest =>
    if mark == 0x2D || mark == 0x2A then
      match Line.lex rest with
      | .ok { tokens := [token], state := state, .. } =>
        if state.isOpen then none else some (token, mark == 0x2A)
      | _ => none
    else none

/-- A candidate for a parameter that has a key: it must name a key that begins with it, and its
value is collected. The longer key takes over. None if it does not fit. -/
def acceptKeyed (p : Parameter) (typed : Text) (token : Line.Token) (required : Bool) :
    Option Parameter :=
  match token.splitEquals with
  | (none, _) => none
  | (some key, value) =>
    if Text.beginsWith token.data typed then
      some { p with
        isRequired := p.isRequired || required
        values := p.values ++ [value]
        key := some (if Text.width typed ≤ Text.width key then key else typed) }
    else none

/-- A candidate for a parameter without a key: keys and values are collected apart. -/
def acceptBare (p : Parameter) (token : Line.Token) (required : Bool) : Parameter :=
  match token.splitEquals with
  | (some key, _) =>
    if required then { p with requiredKeys := p.requiredKeys ++ [key] }
    else { p with keys := p.keys ++ [key] }
  | (none, value) => { p with values := p.values ++ [value] }

/-- The parameter with one more candidate, if it fits. -/
def accept (p : Parameter) (token : Line.Token) (required : Bool) : Option Parameter :=
  match p.key with
  | some typed => acceptKeyed p typed token required
  | none => some (acceptBare p token required)

/-- The output read so far. -/
structure Intake where
  parameter : Parameter
  /-- The candidates collected. -/
  count : Nat := 0
  /-- The beginning of a line whose end has not come. -/
  pending : Text := []
  /-- The line under way has become too long. -/
  isSkipping : Bool := false
  deriving Repr, DecidableEq

namespace Intake

/-- Takes one line. -/
def takeLine (i : Intake) (line : Text) : Intake :=
  match candidate? line with
  | none => i
  | some (token, required) =>
    if maxCandidates ≤ i.count then
      { i with parameter := { i.parameter with
          fault := some (i.parameter.fault.getD (.tooManyCandidates maxCandidates)) } }
    else
      match accept i.parameter token required with
      | some p => { i with parameter := p, count := i.count + 1 }
      | none => i

/-- Takes a line whose end has come. -/
def takeEnded (i : Intake) (line : Text) : Intake :=
  if i.isSkipping then { i with isSkipping := false }
  else if line.length < maxLine then i.takeLine line
  else i

/-- Keeps what follows the last line end; too much of it marks the line as too long. -/
def keepRest (i : Intake) (rest : Text) : Intake :=
  if maxLine < rest.length then { i with pending := [], isSkipping := true }
  else { i with pending := rest }

/-- The lines of a text that have ended, and the rest. -/
def cutLines (t : Text) : List Text × Text :=
  let pieces := Text.splitOn Text.newline t
  (pieces.dropLast, pieces.getLast?.getD [])

/-- Takes one more piece of the output. -/
def feed (i : Intake) (piece : Text) : Intake :=
  let (lines, rest) := cutLines (i.pending ++ piece)
  (lines.foldl takeEnded i).keepRest rest

end Intake

/-- The parameter with the candidates that the whole output names. -/
def collect (p : Parameter) (output : Text) : Parameter :=
  (({ parameter := p } : Intake).feed output).parameter

end Probe

end ConfigShell
