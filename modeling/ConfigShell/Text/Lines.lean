import ConfigShell.Text.Characters
/-!
# Lines

Three ways to cut a text into lines: after each line feed, keeping it; as a script is read,
where a carriage return or a carriage return and a line feed also end a line; and as an editor
counts lines, where any of the characters Unicode calls a line boundary separates two.
-/

namespace ConfigShell.Text

/-- The lines of a text, each with the line feed that ends it; the last may have none. -/
def linesKeepingEnds (t : Text) : List Text :=
  t.foldr (fun b lines => if b == newline then [b] :: lines else extendFirst [b] lines) []

theorem linesKeepingEnds_cons (b : UInt8) (t : Text) :
    linesKeepingEnds (b :: t) =
      if b == newline then [b] :: linesKeepingEnds t
      else extendFirst [b] (linesKeepingEnds t) := rfl

/-- No byte is lost or moved. -/
@[simp]
theorem linesKeepingEnds_flatten (t : Text) : (linesKeepingEnds t).flatten = t := by
  induction t with
  | nil => rfl
  | cons b t ih => rw [linesKeepingEnds_cons]; split <;> simp [ih]

/-- Every line ending becomes a line feed. -/
def unifyNewlines : Text → Text
  | [] => []
  | 0x0D :: 0x0A :: t => newline :: unifyNewlines t
  | b :: t => (if b == 0x0D then newline else b) :: unifyNewlines t

/-- The lines of a script, each ended by a line feed; the last may have none. -/
def scriptLines (t : Text) : List Text := linesKeepingEnds (unifyNewlines t)

/-- The characters at which an editor begins a new line. -/
def isLineBoundary (character : Text) : Bool :=
  [0x0A, 0x0B, 0x0C, 0x0D, 0x1C, 0x1D, 0x1E, 0x85, 0x2028, 0x2029].contains (code character)

/-- The characters with each boundary replaced by a mark, a carriage return and the line feed
after it by a single one. -/
def markBoundaries : List Text → List (Option Text)
  | [] => []
  | [0x0D] :: [0x0A] :: rest => none :: markBoundaries rest
  | c :: rest => (if isLineBoundary c then none else some c) :: markBoundaries rest

/-- The lines an editor shows: boundaries are dropped, and nothing follows the last one. -/
def editorLines (t : Text) : List Text :=
  let pieces := (markBoundaries (characters t)).foldr
    (fun mark pieces =>
      match mark with
      | none => [] :: pieces
      | some c => extendFirst c pieces)
    [[]]
  if pieces.getLast? == some [] then pieces.dropLast else pieces

end ConfigShell.Text
