import ConfigShell.Completion
/-!
# Completion at the prompt

What the completion key offers for the text before the cursor.
-/

namespace ConfigShell

/-- A completion at the prompt. -/
structure Suggestion where
  text : Text
  /-- How many characters before the cursor it starts, as a number that is not positive. -/
  startPosition : Int
  shown : Text
  category : Category
  deriving Repr, DecidableEq

namespace Session

/-- What may complete the text before the cursor. -/
def suggest (site : Site) (s : Session) (text : Text) : Shell (List Suggestion) := do
  match Line.lex text with
  | .error _ => return []
  | .ok lexed =>
    match ← s.complete site lexed with
    | .error _ => return []
    | .ok resolution =>
      return resolution.completions.map fun c =>
        let start := Text.width (Signed.take (resolution.replaceFrom lexed c) lexed.source)
        { text := c.text, startPosition := (start : Int) - Text.width text
          shown := c.shown, category := c.category }

end Session

end ConfigShell
