import ConfigShell.Text.Basic
/-!
# Paths

Paths as they are written: an anchor and the components after it. Repeated slashes and `.`
components mean nothing and are dropped; `..` is kept, because what it leads to depends on the
machine. Two slashes at the start are an anchor of their own, three or more are one.
-/

namespace ConfigShell

/-- A written path. -/
structure Path where
  anchor : Text
  parts : List Text
  deriving Repr, DecidableEq

namespace Path

/-- The byte between components. -/
def separator : UInt8 := 0x2F

/-- The path with no component: the current directory. -/
def current : Path := ⟨[], []⟩

/-- Reads a written path. -/
def ofText (t : Text) : Path :=
  let relative := t.dropWhile (· == separator)
  let anchor :=
    match t.length - relative.length with
    | 0 => []
    | 2 => [separator, separator]
    | _ => [separator]
  ⟨anchor, (Text.splitOn separator relative).filter fun part => !part.isEmpty && part != [0x2E]⟩

instance : Coe String Path := ⟨fun s => ofText s⟩

/-- Writes a path; the one without anchor and components is a dot. -/
def toText (p : Path) : Text :=
  if p.anchor.isEmpty && p.parts.isEmpty then [0x2E]
  else p.anchor ++ Text.join [separator] p.parts

/-- A path below `p`; a path with an anchor of its own takes over. -/
def append (p q : Path) : Path :=
  if q.anchor.isEmpty then ⟨p.anchor, p.parts ++ q.parts⟩ else q

/-- The path of an entry of `p`. -/
def child (p : Path) (name : Text) : Path := p.append (ofText name)

/-- Whether the path does not depend on the current directory. -/
def isAbsolute (p : Path) : Bool := !p.anchor.isEmpty

/-- Whether a machine takes the path: it has no zero byte. -/
def isPassable (p : Path) : Bool := p.parts.all (!·.contains 0)

end Path

end ConfigShell
