import ConfigShell.Config.Value
/-!
# Building a configuration table

The statements of a configuration file add to one table. What has been said once cannot be said
again: a key has one value, a table one heading, and a list or table written as a value is
complete as it stands.
-/

namespace ConfigShell.Config

/-- A path of keys. -/
abbrev Key := List Text

/-- The table built so far. -/
structure Document where
  table : Table := []
  /-- The heading under which the next statements stand. -/
  heading : Key := []
  /-- Tables that may get no heading any more. -/
  closed : List Key := []
  /-- Tables made by a dotted key; the next heading closes them. -/
  dotted : List Key := []
  /-- Values that are complete, and all below them. -/
  frozen : List Key := []

namespace Document

/-- The value at a key, or something it is part of, is complete. -/
def isFrozen (d : Document) (key : Key) : Bool := d.frozen.any (·.isPrefixOf key)

/-- The ways to the tables that a dotted key goes through. -/
def stations (heading key : Key) : List Key :=
  (List.range (key.length - 1)).map fun i => heading ++ key.take (i + 1)

/-- Gives a key its value. -/
def assign (d : Document) (key : Key) (v : Value) : Option Document := do
  let last ← key.getLast?
  let way := d.heading ++ key.dropLast
  let passed := stations d.heading key
  if passed.any d.closed.contains || d.isFrozen way then none
  else
    let table ← Table.change true (Table.addNew last v) way d.table
    let frozen := match v with
      | .list _ | .table _ => (d.heading ++ key) :: d.frozen
      | _ => d.frozen
    some { d with table := table, dotted := passed ++ d.dotted, frozen := frozen }

/-- Closes what dotted keys have made; done before every heading. -/
def settle (d : Document) : Document := { d with closed := d.dotted ++ d.closed, dotted := [] }

/-- Opens the table of a heading. -/
def openTable (d : Document) (key : Key) : Option Document := do
  let d := d.settle
  if d.closed.contains key || d.isFrozen key then none
  else
    let table ← Table.change true some key d.table
    some { d with table := table, heading := key, closed := key :: d.closed }

/-- Opens a new table at the end of the list of a heading. -/
def openItem (d : Document) (key : Key) : Option Document := do
  let d := d.settle
  let last ← key.getLast?
  if d.isFrozen key then none
  else
    let table ← Table.change true (Table.addItem last) key.dropLast d.table
    some { d with
      table := table
      heading := key
      closed := key :: d.closed.filter (!key.isPrefixOf ·)
      frozen := d.frozen.filter (!key.isPrefixOf ·) }

end Document

end ConfigShell.Config
