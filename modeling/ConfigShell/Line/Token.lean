import ConfigShell.Text.Characters
/-!
# Words of a line

A token is one decoded word together with where it stood: its first byte and the byte after its
last, the place of its first plain equals sign, and for every decoded byte the source byte that
produced it. Words that were never part of a line have no place. A token need not come from a
line: its places are positions, which may be counted from either end.
-/

namespace ConfigShell.Line

/-- One word. -/
structure Token where
  data : Text
  start : Int
  stop : Int
  /-- The index in `data` of the first equals sign outside quotes and escapes. -/
  equals : Option Int := none
  /-- The source byte behind each byte of `data`. -/
  offsets : List Int := []
  /-- The word comes from a line. -/
  located : Bool := true
  deriving Repr, DecidableEq

namespace Token

/-- The key, when there is an equals sign, and the value. -/
def splitEquals (t : Token) : Option Text × Text :=
  match t.equals with
  | none => (none, t.data)
  | some i => (some (Signed.take i t.data), Signed.drop (i + 1) t.data)

/-- The word from its byte `n` on. -/
def dropFirst (n : Int) (t : Token) : Token :=
  { t with
    data := Signed.drop n t.data
    start := (Signed.get? n t.offsets).getD t.stop
    equals := t.equals.bind fun i => if n ≤ i then some (i - n) else none
    offsets := Signed.drop n t.offsets }

/-- A word given as such: every equals sign is plain, and it has no place. -/
def ofWord (word : Text) : Token :=
  { data := word, start := 0, stop := 0, equals := (word.idxOf? 0x3D).map Int.ofNat
    located := false }

/-- The empty word at a place, which asks what may stand there. -/
def empty (offset : Int) : Token := { data := [], start := offset, stop := offset }

end Token

end ConfigShell.Line
