import ConfigShell.Text.Basic
/-!
# Positions counted from either end

A position in a sequence is a whole number: from zero on it counts from the front, below zero from
the end. A cut at a position beyond either end is a cut at that end. For positions from zero on
these are the operations of the same names on lists.
-/

namespace ConfigShell.Signed

variable {α : Type}

/-- How many elements of a sequence of `length` are in front of a position. -/
def index (length : Nat) (n : Int) : Nat :=
  if 0 ≤ n then n.toNat else ((length : Int) + n).toNat

/-- The elements in front of a position. -/
def take (n : Int) (l : List α) : List α := l.take (index l.length n)

/-- The elements from a position on. -/
def drop (n : Int) (l : List α) : List α := l.drop (index l.length n)

/-- Whether there is an element at a position. -/
def isWithin (length : Nat) (n : Int) : Bool := -(length : Int) ≤ n && n < length

/-- The element at a position. -/
def get? (n : Int) (l : List α) : Option α :=
  if isWithin l.length n then l[index l.length n]? else none

@[simp]
theorem index_natCast (length n : Nat) : index length n = n := by simp [index]

@[simp]
theorem take_natCast (n : Nat) (l : List α) : take n l = l.take n := by simp [take]

@[simp]
theorem drop_natCast (n : Nat) (l : List α) : drop n l = l.drop n := by simp [drop]

@[simp]
theorem get?_natCast (n : Nat) (l : List α) : get? n l = l[n]? := by
  by_cases h : n < l.length
  · have : isWithin l.length n = true := by simp [isWithin]; omega
    simp [get?, this]
  · have : isWithin l.length n = false := by simp [isWithin]; omega
    simp [get?, this]
    omega

/-- A cut loses nothing. -/
@[simp]
theorem take_append_drop (n : Int) (l : List α) : take n l ++ drop n l = l := by
  simp [take, drop]

end ConfigShell.Signed
