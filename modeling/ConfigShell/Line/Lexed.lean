import ConfigShell.Line.Step
import ConfigShell.Line.Token
/-!
# Reading a line

A line is read byte by byte: a `Reading` holds the words so far, the word under way and the
state, and `Reading.feed` adds a byte. Because reading is a fold, reading one text after another
is reading the two together, which is what lets an open quote or escape go on in the next line.
A line whose first byte after blanks is `#` is a comment, unless it goes on from an open one.
-/

namespace ConfigShell.Line

/-- The word under way. -/
structure Word where
  start : Nat
  data : Array UInt8 := #[]
  offsets : Array Nat := #[]
  equals : Option Nat := none
  deriving Repr, DecidableEq

namespace Word

/-- The word, ended before the byte at `stop`. -/
def close (w : Word) (stop : Nat) : Token :=
  { data := w.data.toList, start := w.start, stop := stop
    equals := w.equals.map Int.ofNat, offsets := w.offsets.toList.map Int.ofNat }

/-- Adds the bytes that the source byte at `position` stands for. -/
def add (w : Word) (position : Nat) (output : Text) : Word :=
  { w with
    data := w.data ++ output
    offsets := w.offsets ++ List.replicate output.length position }

end Word

/-- How far a line has been read. -/
structure Reading where
  position : Nat := 0
  state : State
  /-- The word under way, if the reading stands in one. -/
  word : Option Word := none
  tokens : Array Token := #[]
  /-- The state after each byte. -/
  states : Array State := #[]

/-- A line that has been read. -/
structure Lexed where
  tokens : List Token
  /-- The state at the end. -/
  state : State
  /-- The state after each byte of the line. -/
  states : List State := []
  isComment : Bool := false
  source : Text := []
  deriving Repr, DecidableEq

/-- A fault and where in the line it is. -/
structure LexError where
  fault : Fault
  offset : Int
  source : Text
  deriving Repr, DecidableEq

namespace Reading

/-- Takes a byte as part of the word `w`. -/
def feedWord (r : Reading) (state : State) (w : Word) (b : UInt8) :
    Except (Fault × Nat) Reading :=
  match state.step b with
  | .error fault => .error (fault, r.position)
  | .ok step =>
    let states := r.states.push step.state
    if step.isBoundary then
      .ok { position := r.position + 1, state := step.state, word := none,
            tokens := r.tokens.push (w.close r.position), states := states }
    else
      let w :=
        if step.state.equalsSeen && !state.equalsSeen then
          { w with equals := some w.data.size }
        else w
      .ok { position := r.position + 1, state := step.state,
            word := some (w.add r.position step.output), tokens := r.tokens, states := states }

/-- Takes one more byte. -/
def feed (r : Reading) (b : UInt8) : Except (Fault × Nat) Reading :=
  match r.word with
  | some w => r.feedWord r.state w b
  | none =>
    if isBlank b then
      .ok { r with position := r.position + 1, states := r.states.push r.state }
    else
      r.feedWord { r.state with inWord := true, equalsSeen := false } { start := r.position } b

/-- Where the reading of a line begins: in the middle of a word if the state is open, and then
only if the line holds anything. -/
def start (state : State) (line : Text) : Reading :=
  if state.isOpen && !line.isEmpty then
    { state := { state with inWord := true }, word := some { start := 0 } }
  else { state := state }

/-- The line, ended where the reading stands. -/
def finish (r : Reading) (source : Text) : Lexed :=
  { tokens := (match r.word with
      | some w => r.tokens.push (w.close r.position)
      | none => r.tokens).toList
    state := r.state, states := r.states.toList, source := source }

end Reading

/-- The line is a comment: it does not go on from an open one, and its first byte after blanks
is `#`. -/
def startsComment (state : State) (line : Text) : Bool :=
  !state.isOpen && (line.dropWhile isBlank).head? == some 0x23

/-- Reads a line from a state. -/
def lex (line : Text) (state : State := {}) : Except LexError Lexed :=
  if startsComment state line then
    .ok { tokens := [], state := state, states := List.replicate line.length state,
          isComment := true, source := line }
  else
    match line.foldlM Reading.feed (Reading.start state line) with
    | .error (fault, offset) => .error ⟨fault, offset, line⟩
    | .ok r => .ok (r.finish line)

/-- What is missing at the end of a line that ends open. -/
def openFault (state : State) : Fault :=
  if state.quote == .double then .openDoubleQuote
  else if state.quote == .single then .openSingleQuote
  else .openEscape

/-- Reads a line that nothing may follow: it must not end open. -/
def lexFinal (line : Text) (state : State := {}) : Except LexError Lexed := do
  let lexed ← lex line state
  if !lexed.isComment && lexed.state.isOpen then
    .error ⟨openFault lexed.state, line.length, line⟩
  else .ok lexed

namespace Lexed

/-- The line asks for nothing. -/
def isEmpty (l : Lexed) : Bool := l.isComment || l.tokens.isEmpty

/-- Words given as such, as if a line had been read. -/
def ofWords (words : List Text) : Lexed := { tokens := words.map Token.ofWord, state := {} }

end Lexed

end ConfigShell.Line
