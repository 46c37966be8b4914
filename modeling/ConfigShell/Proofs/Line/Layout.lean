import ConfigShell.Line.Lexed
/-!
# How a line is written

The shape of a line, said without reading it: blanks, then words with gaps between them. A word
is a row of segments, each a plain byte, a run in single quotes, a run in double quotes or an
escape sequence. What a segment adds to its word is given byte by byte (`outputs`), so that a
layout fixes not only the words of its line but all that a token tells about them (`Layout.tokens`).

Nothing here looks at a state. That reading a line recovers exactly its layouts is shown in
`ConfigShell.Proofs.Line.Spelling` and `ConfigShell.Proofs.Line.Recovery`.
-/

namespace ConfigShell.Line

/-! ## Escape sequences -/

/-- The letters of the one-letter escapes, each with the byte it writes. -/
def letterEscapes : List (UInt8 × UInt8) :=
  [(0x61, 0x07), (0x62, 0x08), (0x65, 0x1B), (0x66, 0x0C), (0x6E, 0x0A), (0x72, 0x0D),
    (0x74, 0x09), (0x76, 0x0B), (0x5C, 0x5C), (0x27, 0x27), (0x22, 0x22), (0x3F, 0x3F),
    (0x20, 0x20)]

/-- The number that hexadecimal digits write. -/
def hexNumber (digits : Text) : Nat :=
  digits.foldl (fun n d => n * 16 + (hexValue? d).getD 0) 0

/-- The letter a form of hexadecimal escape begins with. -/
def HexForm.letter : HexForm → UInt8
  | .byte => 0x78
  | .short => 0x75
  | .long => 0x55

/-- What the number of a hexadecimal escape has to be: two digits name a byte in any case, four
or eight a code point, which is at most U+10FFFF and no surrogate. -/
def HexForm.Names : HexForm → Nat → Prop
  | .byte, _ => True
  | .short, n | .long, n => n.isValidChar

/-- An escape sequence. -/
inductive EscapeSequence where
  | letter (letter byte : UInt8) (isPair : (letter, byte) ∈ letterEscapes)
  /-- Three octal digits, the first at most three. -/
  | octal (first : Fin 4) (second third : Fin 8)
  | hex (form : HexForm) (digits : Text) (length_eq : digits.length = form.digits)
      (areDigits : ∀ d ∈ digits, isHexDigit d) (names : form.Names (hexNumber digits))
  /-- The character of the byte that differs from `name` in the bit of value 64. -/
  | control (name : UInt8) (isName : isControlName name)

namespace EscapeSequence

/-- The bytes after the backslash. -/
def tail : EscapeSequence → Text
  | letter l _ _ => [l]
  | octal a b c =>
    [0x30 + UInt8.ofNat a.val, 0x30 + UInt8.ofNat b.val, 0x30 + UInt8.ofNat c.val]
  | hex form digits _ _ _ => form.letter :: digits
  | control name _ => [0x63, name]

theorem tail_ne_nil (e : EscapeSequence) : e.tail ≠ [] := by cases e <;> simp [tail]

def source (e : EscapeSequence) : Text := 0x5C :: e.tail

/-- The bytes it stands for. -/
def decoded : EscapeSequence → Text
  | letter _ byte _ => [byte]
  | octal a b c => [UInt8.ofNat (a.val * 64 + b.val * 8 + c.val)]
  | hex .byte digits _ _ _ => [UInt8.ofNat (hexNumber digits)]
  | hex _ digits _ _ _ => Text.ofCode (hexNumber digits)
  | control name _ => [name ^^^ 0x40]

/-- Its bytes stand for nothing but the last one. -/
def outputs (e : EscapeSequence) : List Text := List.replicate e.tail.length [] ++ [e.decoded]

def isControl : EscapeSequence → Bool
  | control _ _ => true
  | _ => false

@[simp]
theorem length_outputs (e : EscapeSequence) : e.outputs.length = e.source.length := by
  simp [outputs, source]

@[simp]
theorem flatten_outputs (e : EscapeSequence) : e.outputs.flatten = e.decoded := by
  simp [outputs]

end EscapeSequence

/-! ## Segments -/

/-- A byte that stands for itself outside quotes. -/
def IsPlain (b : UInt8) : Prop := isBreak b = false ∧ b ≠ 0x22 ∧ b ≠ 0x27 ∧ b ≠ 0x5C

instance (b : UInt8) : Decidable (IsPlain b) := inferInstanceAs (Decidable (_ ∧ _))

/-- What a run in double quotes is made of. -/
inductive QuotedItem where
  | plain (b : UInt8) (isPlain : b ≠ 0x22 ∧ b ≠ 0x5C)
  | escape (e : EscapeSequence)

namespace QuotedItem

def source : QuotedItem → Text
  | plain b _ => [b]
  | escape e => e.source

def decoded : QuotedItem → Text
  | plain b _ => [b]
  | escape e => e.decoded

def outputs : QuotedItem → List Text
  | plain b _ => [[b]]
  | escape e => e.outputs

@[simp]
theorem length_outputs (i : QuotedItem) : i.outputs.length = i.source.length := by
  cases i <;> simp [outputs, source]

@[simp]
theorem flatten_outputs (i : QuotedItem) : i.outputs.flatten = i.decoded := by
  cases i <;> simp [outputs, decoded]

end QuotedItem

/-- A segment of a word. -/
inductive Segment where
  | plain (b : UInt8) (isPlain : IsPlain b)
  | escape (e : EscapeSequence)
  | single (content : Text) (noQuote : 0x27 ∉ content)
  | double (items : List QuotedItem)

namespace Segment

def source : Segment → Text
  | plain b _ => [b]
  | escape e => e.source
  | single content _ => 0x27 :: content ++ [0x27]
  | double items => 0x22 :: items.flatMap QuotedItem.source ++ [0x22]

/-- The bytes it adds to the word. -/
def decoded : Segment → Text
  | plain b _ => [b]
  | escape e => e.decoded
  | single content _ => content
  | double items => items.flatMap QuotedItem.decoded

/-- The bytes each of its bytes adds to the word; the quotes add none. -/
def outputs : Segment → List Text
  | plain b _ => [[b]]
  | escape e => e.outputs
  | single content _ => [] :: content.map ([·]) ++ [[]]
  | double items => [] :: items.flatMap QuotedItem.outputs ++ [[]]

/-- A plain equals sign. -/
def isEquals : Segment → Bool
  | plain b _ => b == 0x3D
  | _ => false

/-- Where in the decoded bytes the first plain equals sign stands. -/
def equalsIndex : List Segment → Option Nat
  | [] => none
  | s :: rest =>
    if s.isEquals then some 0 else (equalsIndex rest).map (s.decoded.length + ·)

/-- The escape sequences in a segment, those between double quotes included. -/
def escapes : Segment → List EscapeSequence
  | plain _ _ | single _ _ => []
  | escape e => [e]
  | double items => items.filterMap fun
    | .plain _ _ => none
    | .escape e => some e

@[simp]
theorem length_outputs (s : Segment) : s.outputs.length = s.source.length := by
  cases s with
  | plain b h => rfl
  | escape e => simp [outputs, source]
  | single content h => simp [outputs, source]
  | double items => simp [outputs, source, List.length_flatMap]

@[simp]
theorem flatten_outputs (s : Segment) : s.outputs.flatten = s.decoded := by
  cases s with
  | plain b h => rfl
  | escape e => exact e.flatten_outputs
  | single content h => simp [outputs, decoded, ← List.flatMap_def]
  | double items =>
    have hitems : (items.flatMap QuotedItem.outputs).flatten
        = items.flatMap QuotedItem.decoded := by
      simp [List.flatMap_def, List.flatten_flatten, Function.comp_def]
    simp [outputs, decoded, hitems]

theorem source_ne_nil (s : Segment) : s.source ≠ [] := by
  cases s <;> simp [source, EscapeSequence.source]

end Segment

/-! ## Words -/

/-- A word as it is written: it has a first byte, which is no blank. -/
structure WrittenWord where
  segments : List Segment
  starts : (segments.flatMap Segment.source).head?.any (!isBlank ·)

/-- Where each output of a row of source bytes comes from, the first byte standing at `position`. -/
def placed (position : Nat) : List Text → List Nat
  | [] => []
  | out :: rest => List.replicate out.length position ++ placed (position + 1) rest

namespace WrittenWord

def source (w : WrittenWord) : Text := w.segments.flatMap Segment.source

def outputs (w : WrittenWord) : List Text := w.segments.flatMap Segment.outputs

/-- The word that is meant. -/
def decoded (w : WrittenWord) : Text := w.segments.flatMap Segment.decoded

@[simp]
theorem flatten_outputs (w : WrittenWord) : w.outputs.flatten = w.decoded := by
  simp [outputs, decoded, List.flatMap_def, List.flatten_flatten, Function.comp_def]

/-- The token of the word when its first byte stands at `position`. -/
def token (w : WrittenWord) (position : Nat) : Token :=
  { data := w.decoded, start := position, stop := (position + w.source.length : Nat)
    equals := (Segment.equalsIndex w.segments).map Int.ofNat
    offsets := (placed position w.outputs).map Int.ofNat }

end WrittenWord

/-! ## Lines -/

/-- What stands after a word that has ended: a break, and more blanks. -/
structure Gap where
  first : UInt8
  rest : Text
  isBreak_first : isBreak first
  isBlank_rest : ∀ b ∈ rest, isBlank b

def Gap.source (g : Gap) : Text := g.first :: g.rest

/-- A line: blanks, words with a gap after each, and perhaps one more word at the very end. -/
structure Layout where
  lead : Text
  isBlank_lead : ∀ b ∈ lead, isBlank b
  ended : List (WrittenWord × Gap)
  last : Option WrittenWord

namespace Layout

def words (l : Layout) : List WrittenWord := l.ended.map (·.1) ++ l.last.toList

/-- What stands after the leading blanks. -/
def body (ended : List (WrittenWord × Gap)) (last : Option WrittenWord) : Text :=
  ended.flatMap (fun (w, g) => w.source ++ g.source) ++ last.toList.flatMap WrittenWord.source

def source (l : Layout) : Text := l.lead ++ body l.ended l.last

/-- The first word begins with a plain `#`. -/
def isComment (l : Layout) : Bool := l.words.head?.any (·.source.head? == some 0x23)

def escapes (l : Layout) : List EscapeSequence :=
  l.words.flatMap fun w => w.segments.flatMap Segment.escapes

/-- The tokens of words that stand one after the other from `position` on. -/
def tokensFrom (position : Nat) : List (WrittenWord × Gap) → Option WrittenWord → List Token
  | [], last => last.toList.map (·.token position)
  | (w, g) :: rest, last =>
    w.token position
      :: tokensFrom (position + w.source.length + g.source.length) rest last

def tokens (l : Layout) : List Token := tokensFrom l.lead.length l.ended l.last

/-- Where a word stands in its line matters neither to its bytes nor to its equals sign. -/
theorem contents_tokensFrom (position : Nat) (ended : List (WrittenWord × Gap))
    (last : Option WrittenWord) :
    (tokensFrom position ended last).map (fun t => (t.data, t.equals))
      = (ended.map (·.1) ++ last.toList).map
          fun u => (u.decoded, (Segment.equalsIndex u.segments).map Int.ofNat) := by
  induction ended generalizing position with
  | nil => simp [tokensFrom, WrittenWord.token]
  | cons p rest ih => simp [tokensFrom, ih, WrittenWord.token]

theorem contents_tokens (l : Layout) :
    l.tokens.map (fun t => (t.data, t.equals))
      = l.words.map fun u => (u.decoded, (Segment.equalsIndex u.segments).map Int.ofNat) :=
  contents_tokensFrom ..

theorem data_tokens (l : Layout) :
    l.tokens.map (·.data) = l.words.map WrittenWord.decoded := by
  simpa [Function.comp_def] using congrArg (List.map Prod.fst) l.contents_tokens

end Layout

end ConfigShell.Line
