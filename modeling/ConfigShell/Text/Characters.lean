import ConfigShell.Text.Signed
/-!
# Characters of a text

A text divides into characters: each well-formed UTF-8 sequence is one (no overlong form, no
surrogate, nothing above U+10FFFF), and each byte that belongs to none stands alone. Columns,
prefixes, cuts and the order of names go by characters. A character is kept as the bytes it is
made of, so putting the characters of a text together gives the text back (`characters_flatten`).
-/

namespace ConfigShell.Text

/-- A byte that may follow the first one of a sequence. -/
def isContinuation (b : UInt8) : Bool := 0x80 ≤ b && b ≤ 0xBF

/-- How many bytes follow `first` in the well-formed sequence it begins, when it begins one. -/
def follow (first : UInt8) : Text → Option Nat
  | [] => if first < 0x80 then some 0 else none
  | b :: rest =>
    if first < 0x80 then some 0
    else if 0xC2 ≤ first && first ≤ 0xDF then
      if isContinuation b then some 1 else none
    else if 0xE0 ≤ first && first ≤ 0xEF then
      if (if first == 0xE0 then 0xA0 ≤ b && b ≤ 0xBF
          else if first == 0xED then 0x80 ≤ b && b ≤ 0x9F
          else isContinuation b) then
        match rest with
        | c :: _ => if isContinuation c then some 2 else none
        | [] => none
      else none
    else if 0xF0 ≤ first && first ≤ 0xF4 then
      if (if first == 0xF0 then 0x90 ≤ b && b ≤ 0xBF
          else if first == 0xF4 then 0x80 ≤ b && b ≤ 0x8F
          else isContinuation b) then
        match rest with
        | c :: d :: _ => if isContinuation c && isContinuation d then some 3 else none
        | _ => none
      else none
    else none

/-- At most `limit` characters from the front. -/
def charactersUpTo : Nat → Text → List Text
  | 0, _ => []
  | _, [] => []
  | limit + 1, b :: t =>
    let n := (follow b t).getD 0
    (b :: t.take n) :: charactersUpTo limit (t.drop n)

/-- The characters of a text, each as the bytes it is made of. -/
def characters (t : Text) : List Text := charactersUpTo t.length t

/-- The number of characters. -/
def width (t : Text) : Nat := (characters t).length

theorem flatten_charactersUpTo (limit : Nat) (t : Text) (h : t.length ≤ limit) :
    (charactersUpTo limit t).flatten = t := by
  induction limit generalizing t with
  | zero => simp_all [charactersUpTo]
  | succ limit ih =>
    cases t with
    | nil => simp [charactersUpTo]
    | cons b t =>
      have : (t.drop ((follow b t).getD 0)).length ≤ limit := by
        simp only [List.length_cons, List.length_drop] at *
        omega
      simp [charactersUpTo, ih _ this]

/-- No byte is lost or moved. -/
@[simp]
theorem characters_flatten (t : Text) : (characters t).flatten = t :=
  flatten_charactersUpTo t.length t (Nat.le_refl _)

/-- The code by which a character is ordered: the code point it encodes, and `0xDC00` above
its value for a byte that encodes none. -/
def code : Text → Nat
  | [a] => if a < 0x80 then a.toNat else 0xDC00 + a.toNat
  | [a, b] => (a.toNat - 0xC0) * 64 + (b.toNat - 0x80)
  | [a, b, c] => ((a.toNat - 0xE0) * 64 + (b.toNat - 0x80)) * 64 + (c.toNat - 0x80)
  | [a, b, c, d] =>
    (((a.toNat - 0xF0) * 64 + (b.toNat - 0x80)) * 64 + (c.toNat - 0x80)) * 64 + (d.toNat - 0x80)
  | _ => 0

/-- Whether a number is a code: a code point that UTF-8 encodes, or the code of a stray byte. -/
def isCode (n : Nat) : Bool := n.isValidChar || 0xDC80 ≤ n && n ≤ 0xDCFF

/-- The character with a code. -/
def ofCharacter (n : Nat) : Text := if n.isValidChar then ofCode n else [UInt8.ofNat (n - 0xDC00)]

/-- The codes of all characters. -/
def codes (t : Text) : List Nat := (characters t).map code

/-- A byte that belongs to no well-formed sequence. -/
def isStray (character : Text) : Bool :=
  match character with
  | [a] => 0x80 ≤ a
  | _ => false

/-- Each byte belongs to a sequence that encodes a character. -/
def IsWellFormed (t : Text) : Prop := ∀ character ∈ characters t, isStray character = false

instance (t : Text) : Decidable t.IsWellFormed :=
  inferInstanceAs (Decidable (∀ character ∈ characters t, isStray character = false))

/-- Whether the characters of `t` begin with those of `start`. -/
def beginsWith (t start : Text) : Bool := (characters start).isPrefixOf (characters t)

/-- The characters in front of a position. -/
def takeCharacters (n : Int) (t : Text) : Text := (Signed.take n (characters t)).flatten

/-- The characters from a position on. -/
def dropCharacters (n : Int) (t : Text) : Text := (Signed.drop n (characters t)).flatten

@[simp]
theorem takeCharacters_append_dropCharacters (n : Int) (t : Text) :
    takeCharacters n t ++ dropCharacters n t = t := by
  rw [takeCharacters, dropCharacters, ← List.flatten_append, Signed.take_append_drop,
    characters_flatten]

/-- The column, counted from one, of the character at a byte offset: one more than the number
of characters before it. -/
def column (t : Text) (offset : Int) : Nat := width (Signed.take offset t) + 1

/-- Order by the codes of the characters. -/
def codeLE (s t : Text) : Bool := sequenceLE (codes s) (codes t)

/-- Sorted by the codes of the characters. -/
def sortByCode (texts : List Text) : List Text := texts.mergeSort codeLE

/-- The longest beginning two character sequences share. -/
def sharedStart : List Text → List Text → List Text
  | a :: s, b :: t => if a == b then a :: sharedStart s t else []
  | _, _ => []

/-- The form for a stream that takes well-formed UTF-8 only: a stray byte `NN` is written out
as a backslash and `udcNN`. -/
def spellStrays (t : Text) : Text :=
  (characters t).flatMap fun c =>
    if isStray c then ofString "\\u" ++ hexadecimal false 4 (code c) else c

/-- The form for a file that holds well-formed UTF-8 only: a question mark stands for each stray
byte. -/
def markStrays (t : Text) : Text :=
  (characters t).flatMap fun c => if isStray c then [0x3F] else c

end ConfigShell.Text
