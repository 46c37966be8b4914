import ConfigShell.Text.Characters
/-!
# Abbreviated names

A word may stand for any name it begins. When it begins several, what they have in common after
it can be added without choosing.
-/

namespace ConfigShell.Names

/-- The names that begin with `start`. -/
def beginningWith (start : Text) (names : List Text) : List Text :=
  names.filter (Text.beginsWith · start)

/-- What all the names go on with after as many characters as `start` has; there has to be one. -/
def commonRun (start : Text) (names : List Text) : Option Text :=
  match names.map fun name => (Text.characters name).drop (Text.width start) with
  | [] => none
  | first :: rest => some (rest.foldl Text.sharedStart first).flatten

end ConfigShell.Names
