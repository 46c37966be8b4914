import ConfigShell.Session.Walk
/-!
# Highlighting a line

Each character of a line gets a style that shows how the shell reads it: what is quoted or
escaped, and what the words that lead somewhere lead to. Nothing is run for it.
-/

namespace ConfigShell

/-- How a character is shown. -/
inductive Style where
  | plain
  | error
  | comment
  | escape
  | quoted
  | container
  | command
  | builtin
  | parameter
  | requiredParameter
  | failedParameter
  deriving Repr, DecidableEq

namespace Style

/-- The class a style is looked up by; the plain style has none. -/
def className : Style → Text
  | plain => []
  | error => "class:error"
  | comment => "class:comment"
  | escape => "class:escape"
  | quoted => "class:quoted"
  | container => "class:container"
  | command => "class:command"
  | builtin => "class:builtin"
  | parameter => "class:parameter"
  | requiredParameter => "class:parameter.required"
  | failedParameter => "class:parameter.failed"

/-- The style of a byte by the state after it. -/
def ofState (state : Line.State) : Style :=
  if state.escaped then escape else if state.quoted then quoted else plain

/-- The style of the words that lead to a node. -/
def ofNode? : Node → Option Style
  | .container _ => some container
  | .command _ => some command
  | .builtin _ => some builtin
  | .parameter p =>
    some (if p.fault.isSome then failedParameter
      else if p.isRequired then requiredParameter else parameter)
  | .option _ _ | .ambiguous _ => none

end Style

namespace Highlight

/-- The characters of a text from an offset on, each with the style of its first byte. -/
def fragmentsFrom (styles : Array Style) : Nat → List Text → List (Style × Text)
  | _, [] => []
  | offset, c :: rest =>
    ((styles[offset]?).getD .plain, c) :: fragmentsFrom styles (offset + c.length) rest

/-- The characters of a text with their styles. -/
def fragments (source : Text) (styles : Array Style) : List (Style × Text) :=
  fragmentsFrom styles 0 (Text.characters source)

/-- Gives the bytes that a word decodes from the style of the node it led to. -/
def paint (styles : Array Style) (step : Line.Token × Node) : Array Style :=
  match Style.ofNode? step.2 with
  | none => styles
  | some style =>
    step.1.offsets.foldl (fun styles offset => styles.setIfInBounds offset.toNat style) styles

end Highlight

namespace Session

/-- The characters of a line with their styles. -/
def highlight (site : Site) (s : Session) (line : Text) : Shell (List (Style × Text)) := do
  match Line.lex line with
  | .error e =>
    let plain := Array.replicate line.length Style.plain
    return Highlight.fragments line (plain.setIfInBounds e.offset.toNat .error)
  | .ok lexed =>
    if lexed.isComment then
      return Highlight.fragments line (Array.replicate line.length .comment)
    else
      let resolution ← s.colourise site lexed
      let styles := (lexed.states.map Style.ofState).toArray
      return Highlight.fragments line (resolution.steps.foldl Highlight.paint styles)

end Session

end ConfigShell
