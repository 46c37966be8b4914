import ConfigShell.Text.Digit
/-!
# Switches of the command line

The command line has operands, which are the words of a command to run, and switches, which ask
for something by name. A switch is spelt with one dash and a letter or with two dashes and a
name, and some take a value.
-/

namespace ConfigShell.CommandLine

/-- What may be asked for by name. -/
inductive Switch where
  | help
  | file
  | libexec
  | sysconf
  | config
  | noHistory
  | debug
  | version
  deriving Repr, DecidableEq

namespace Switch

/-- All switches, in the order in which messages list them. -/
def all : List Switch := [help, file, libexec, sysconf, config, noHistory, debug, version]

/-- The spellings of a switch. -/
def spellings : Switch → List Text
  | help => ["-h", "--help"]
  | file => ["-f", "--file"]
  | libexec => ["--libexec"]
  | sysconf => ["--sysconf"]
  | config => ["--config"]
  | noHistory => ["--no-history"]
  | debug => ["--debug"]
  | version => ["-v", "--version"]

/-- How messages call a switch. -/
def title (s : Switch) : Text := Text.join "/" s.spellings

/-- Whether a value goes with the switch. -/
def takesValue : Switch → Bool
  | file | libexec | sysconf | config => true
  | _ => false

/-- Every spelling of a switch. -/
def vocabulary : List (Text × Switch) := all.flatMap fun s => s.spellings.map (·, s)

/-- The switch with exactly this spelling. -/
def ofSpelling? (word : Text) : Option Switch := vocabulary.lookup word

theorem mem_all (s : Switch) : s ∈ all := by cases s <;> decide

/-- No spelling is shared by two switches. -/
theorem ofSpelling?_eq_some (s : Switch) : ∀ word ∈ s.spellings, ofSpelling? word = some s := by
  cases s <;> decide

/-- The switch of a dash and one letter. -/
def ofLetter? (letter : UInt8) : Option Switch := ofSpelling? [0x2D, letter]

end Switch

/-! ## Reading a word -/

/-- What is wrong with a command line. -/
inductive UsageFault where
  /-- The word begins several spellings. -/
  | ambiguous (word : Text) (spellings : List Text)
  | missingValue (s : Switch)
  | unwantedValue (s : Switch) (value : Text)
  /-- Switches that there are not, and operands apart from the first group. -/
  | unrecognized (words : List Text)
  deriving Repr, DecidableEq

/-- The wording of a fault. -/
def UsageFault.message : UsageFault → Text
  | .ambiguous word spellings =>
    "ambiguous option: " ++ word ++ " could match " ++ Text.join ", " spellings
  | .missingValue s => "argument " ++ s.title ++ ": expected one argument"
  | .unwantedValue s value =>
    "argument " ++ s.title ++ ": ignored explicit argument " ++ Text.quoted value
  | .unrecognized words => "unrecognized arguments: " ++ Text.join " " words

/-- What one word of a command line is. -/
inductive Reading where
  | operand
  /-- Two dashes: all words after it are operands. -/
  | divider
  /-- A switch and the text glued to it. Others may follow a short one within the word. -/
  | switch (s : Switch) (isShort : Bool) (glued : Option Text)
  /-- Looks like a switch and is none. -/
  | unknown
  deriving Repr, DecidableEq

namespace Reading

/-- The text before the first equals sign and, if there is one, the text after it. -/
def splitValue (word : Text) : Text × Option Text :=
  let name := word.takeWhile (· != 0x3D)
  (name, (word.drop name.length).tail?)

/-- The spellings that a word may stand for, with the text glued to them: a long one may be cut
short, and a short one is followed by its value directly. -/
def candidates (word : Text) : List (Text × Switch × Option Text) :=
  match word with
  | 0x2D :: 0x2D :: _ =>
    let (start, value) := splitValue word
    (Switch.vocabulary.filter fun (spelling, _) => start.isPrefixOf spelling).map
      fun (spelling, s) => (spelling, s, value)
  | _ =>
    (Switch.ofSpelling? (word.take 2)).toList.map fun s => (word.take 2, s, some (word.drop 2))

/-- Whether the word is a negative number, a fraction included. A line feed may follow it. -/
def isNegativeNumber (word : Text) : Bool :=
  let isDecimal (n : Nat) : Bool := (Text.decimalDigitValue? n).isSome
  let bare (codes : List Nat) : List Nat :=
    if codes.getLast? == some 0x0A then codes.dropLast else codes
  match Text.codes word with
  | 0x2D :: rest =>
    let whole := (bare rest).takeWhile isDecimal
    match (bare rest).drop whole.length with
    | [] => !whole.isEmpty
    | 0x2E :: places => !places.isEmpty && places.all isDecimal
    | _ => false
  | _ => false

/-- The spelling has one dash. -/
def isShort (spelling : Text) : Bool := spelling.length == 2

/-- Reads a word other than two dashes. -/
def ofWord (word : Text) : Except UsageFault Reading :=
  if word.head? != some 0x2D || word == [0x2D] then .ok .operand
  else
    match Switch.ofSpelling? word, splitValue word with
    | some s, _ => .ok (.switch s (isShort word) none)
    | none, (name, value) =>
      match value, Switch.ofSpelling? name with
      | some v, some s => .ok (.switch s (isShort name) (some v))
      | _, _ =>
        match candidates word with
        | [(spelling, s, glued)] => .ok (.switch s (isShort spelling) glued)
        | [] =>
          .ok (if isNegativeNumber word || word.contains 0x20 then .operand else .unknown)
        | several => .error (.ambiguous word (several.map (·.1)))

/-- Reads the words of a command line. -/
def ofWords : List Text → Except UsageFault (List (Text × Reading))
  | [] => .ok []
  | word :: rest =>
    if word == [0x2D, 0x2D] then .ok ((word, .divider) :: rest.map (·, .operand))
    else do
      let reading ← ofWord word
      return (word, reading) :: (← ofWords rest)

end Reading

end ConfigShell.CommandLine
