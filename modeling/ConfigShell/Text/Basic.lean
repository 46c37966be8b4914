/-!
# Texts

Names, lines and everything a program writes are byte strings: nothing obliges a file name or
the output of a command to be valid UTF-8. A `Text` is such a byte string. How it divides into
characters is a separate question, answered in `ConfigShell.Text.Characters`.
-/

namespace ConfigShell

/-- A byte string. -/
abbrev Text := List UInt8

namespace Text

/-- The UTF-8 bytes of a character string. -/
def ofString (s : String) : Text := s.toList.flatMap String.utf8EncodeChar

instance : Coe String Text := ⟨ofString⟩

/-- The UTF-8 bytes of the code point `n`. -/
def ofCode (n : Nat) : Text := String.utf8EncodeChar (Char.ofNat n)

/-- A number in decimal. -/
def decimal (n : Nat) : Text := ofString (toString n)

/-- A whole number in decimal. -/
def integer (n : Int) : Text := (if n < 0 then [0x2D] else []) ++ decimal n.natAbs

/-- A number in hexadecimal, padded with zeros to `width` digits. -/
def hexadecimal (upper : Bool) (width n : Nat) : Text :=
  let digits := (Nat.toDigits 16 n).map fun c => if upper then c.toUpper else c
  ofString (String.ofList (List.replicate (width - digits.length) '0' ++ digits))

/-- The texts one after the other with `separator` between neighbours. -/
def join (separator : Text) (texts : List Text) : Text := List.intercalate separator texts

/-- The line feed. -/
def newline : UInt8 := 0x0A

/-- Puts `start` in front of the first piece, or makes it the only one. -/
def extendFirst (start : Text) : List Text → List Text
  | [] => [start]
  | first :: rest => (start ++ first) :: rest

/-- Cuts at every `separator`: always one piece more than there are separators. -/
def splitOn (separator : UInt8) (t : Text) : List Text :=
  t.foldr (fun b pieces => if b == separator then [] :: pieces else extendFirst [b] pieces) [[]]

@[simp]
theorem extendFirst_ne_nil (start : Text) (pieces : List Text) : extendFirst start pieces ≠ [] := by
  cases pieces <;> simp [extendFirst]

@[simp]
theorem flatten_extendFirst (start : Text) (pieces : List Text) :
    (extendFirst start pieces).flatten = start ++ pieces.flatten := by
  cases pieces <;> simp [extendFirst]

@[simp]
theorem splitOn_nil (separator : UInt8) : splitOn separator [] = [[]] := rfl

theorem splitOn_cons (separator b : UInt8) (t : Text) :
    splitOn separator (b :: t) =
      if b == separator then [] :: splitOn separator t
      else extendFirst [b] (splitOn separator t) := rfl

@[simp]
theorem splitOn_ne_nil (separator : UInt8) (t : Text) : splitOn separator t ≠ [] := by
  cases t with
  | nil => simp
  | cons b t => rw [splitOn_cons]; split <;> simp

theorem join_extendFirst (separator start : Text) {pieces : List Text} (h : pieces ≠ []) :
    join separator (extendFirst start pieces) = start ++ join separator pieces := by
  match pieces, h with
  | [first], _ => simp [extendFirst, join, List.intercalate]
  | first :: second :: rest, _ => simp [extendFirst, join, List.intercalate, List.intersperse]

theorem join_nil_cons (separator : Text) {pieces : List Text} (h : pieces ≠ []) :
    join separator ([] :: pieces) = separator ++ join separator pieces := by
  match pieces, h with
  | first :: rest, _ => simp [join, List.intercalate, List.intersperse]

/-- Joining the pieces with the separator undoes the cutting. -/
@[simp]
theorem join_splitOn (separator : UInt8) (t : Text) :
    join [separator] (splitOn separator t) = t := by
  induction t with
  | nil => rfl
  | cons b t ih =>
    rw [splitOn_cons]
    split
    · rename_i h
      rw [join_nil_cons _ (splitOn_ne_nil separator t), ih]
      simp_all
    · rw [join_extendFirst _ _ (splitOn_ne_nil separator t), ih]
      rfl

/-- Drops every `b` at the end. -/
def trimRight (b : UInt8) (t : Text) : Text := (t.reverse.dropWhile (· == b)).reverse

/-- Lexicographic order of sequences of numbers, the shorter first among equals. -/
def sequenceLE : List Nat → List Nat → Bool
  | [], _ => true
  | _ :: _, [] => false
  | a :: s, b :: t => a < b || (a == b && sequenceLE s t)

end Text

end ConfigShell
