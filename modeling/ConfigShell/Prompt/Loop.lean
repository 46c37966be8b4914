import ConfigShell.Line.Position
import ConfigShell.Session.Command
/-!
# The prompt

The shell with a user: it shows the current place, takes a line, and carries it out. A line that
ends within a quote or an escape is held back until the lines after it close it.
-/

namespace ConfigShell

namespace Prompt

/-- What a user does at the prompt. -/
inductive Event where
  | typed (line : Text)
  /-- Gives up the line under way. -/
  | interrupt
  /-- Leaves. -/
  | endOfInput
  deriving Repr, DecidableEq

/-- The part of a prompt, by the class its style is looked up by. -/
structure Part where
  className : Text
  text : Text
  deriving Repr, DecidableEq

/-- The prompt of a session. -/
def message (s : Session) (user host : Text) : List Part :=
  [⟨"class:prompt.device", "(device)"⟩, ⟨[], " "⟩,
   ⟨"class:prompt.user", user ++ "@" ++ host⟩, ⟨[], " " ++ s.promptPath ++ "> "⟩]

/-- The prompt for the rest of a line. -/
def continuation : Text := "> "

/-- What is carried over to the next line where `pending` and `text` together end open: a
backslash at the end joins the lines directly, otherwise the line end is kept. -/
def joinContinuation (pending text : Text) (lexed : Line.Lexed) : Text :=
  if lexed.state.escape = .backslash && text.getLast? == some 0x5C then pending ++ text.dropLast
  else pending ++ text ++ [Text.newline]

/-- The name of the user and of the machine. -/
structure Identity where
  user : Text
  host : Text

/-- The text of the prompt that asks for the next line. -/
def shown (who : Identity) (s : Session) (pending : Text) : Text :=
  if pending.isEmpty then (message s who.user who.host).flatMap (·.text) else continuation

/-- Takes events until one leaves; the prompts shown on the way. `count` lines have been typed
before, and `pending` is what is held back of them. -/
def run (site : Site) (who : Identity) (s : Session) (pending : Text) (count : Nat) :
    List Event → Shell (List Text × Session)
  | [] => do
    Shell.print [Text.newline]
    return ([shown who s pending], s)
  | event :: rest => do
    let prompt := shown who s pending
    match event with
    | .interrupt =>
      let (prompts, s) ← run site who s [] count rest
      return (prompt :: prompts, s)
    | .endOfInput =>
      Shell.print [Text.newline]
      return ([prompt], s)
    | .typed text =>
      match Line.lex (pending ++ text) with
      | .error e =>
        Shell.complain (e.report (some (count + 1)))
        let (prompts, s) ← run site who s [] (count + 1) rest
        return (prompt :: prompts, s)
      | .ok lexed =>
        if lexed.state.isOpen then
          let (prompts, s) ←
            run site who s (joinContinuation pending text lexed) (count + 1) rest
          return (prompt :: prompts, s)
        else
          match ← s.command site lexed (some (count + 1)) with
          | (.terminate, s) =>
            Shell.print [Text.newline]
            return ([prompt], s)
          | (_, s) =>
            let (prompts, s) ← run site who s [] (count + 1) rest
            return (prompt :: prompts, s)

end Prompt

namespace Session

/-- Runs the prompt until the user leaves; the end of the events is leaving too. -/
def interact (site : Site) (who : Prompt.Identity) (s : Session) (events : List Prompt.Event) :
    Shell (List Text × Session) :=
  Prompt.run site who s [] 0 events

end Session

end ConfigShell
