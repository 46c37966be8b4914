import ConfigShell.CommandTree
import ConfigShell.Line.Position
import ConfigShell.Names
import ConfigShell.Probe.Run
/-!
# Where a word leads

From a container a word leads to what it names there, or to the only thing whose name it begins,
and `..` leads back up. From a command every word is a parameter; asked for, the command says
whether the word is one of its candidates or begins one. Below a builtin words are just kept.
-/

namespace ConfigShell

/-- Why a word leads nowhere. -/
inductive Refusal where
  | notFound
  | aboveTop
  | ambiguous (candidates : List Text)
  /-- A reason that others give the wording of. -/
  | described (reason : Text)
  deriving Repr, DecidableEq

/-- The refusal for a reason of one's own, or for no particular one. -/
def Refusal.ofReason (reason : Option Text := none) : Refusal :=
  .described (reason.getD "cannot be resolved")

/-- The wording of a refusal. -/
def Refusal.message : Refusal → Text
  | .notFound => "not found"
  | .aboveTop => "already at the top level"
  | .ambiguous [] => "ambiguous"
  | .ambiguous candidates =>
    "ambiguous, could be one of: " ++ Text.join ", " candidates
  | .described reason => reason

/-- A word that leads nowhere. -/
structure WordError where
  word : Text
  token : Option Line.Token
  refusal : Refusal
  deriving Repr, DecidableEq

namespace WordError

/-- The token, if it has a place. -/
def locatedToken? (e : WordError) : Option Line.Token := e.token.filter (·.located)

/-- The column of the word, within its physical line if the source is known. -/
def column (e : WordError) (source : Option Text) : Option Int :=
  e.locatedToken?.map fun t =>
    match source with
    | none => t.start + 1
    | some s => Line.columnAt s t.start

/-- The complaint itself, without a place. -/
def complaint (e : WordError) : Text :=
  "bad command '" ++ e.word ++ "': " ++ e.refusal.message

/-- The report, in the line of the given number and with the source shown, as far as known. -/
def report (e : WordError) (line : Option Int := none) (source : Option Text := none) : Text :=
  let head := e.complaint ++ Line.place (e.column source) line
  match source, e.locatedToken? with
  | some (b :: rest), some t =>
    head ++ "\n" ++ Line.context (b :: rest) t.start (max 1 (t.stop - t.start).toNat)
  | _, _ => head

end WordError

/-- A machine and the command tree on it. -/
structure Site where
  host : Host
  tree : CommandTree

namespace Container

/-- The ambiguity of a word in a container. -/
def ambiguity (c : Container) (word : Text) (token : Option Line.Token) : Ambiguity :=
  let builtins := Names.beginningWith word c.builtins
  let commands := Names.beginningWith word c.commands
  let containers := Names.beginningWith word c.containers
  { name := some word, token := token, typed := word
    common := Names.commonRun word (builtins ++ commands ++ containers)
    builtins := builtins, commands := commands, containers := containers }

/-- What a word names in a container, or what it alone begins: a builtin before a command before
a container. -/
def lookUp (site : Site) (c : Container) (word : Text) (token : Option Line.Token) :
    Shell (Except WordError Node) := do
  let builtin (name : Text) : Node := .builtin { name := some name, token := token }
  let command (name : Text) : Node := .command (c.command name token)
  let container (name : Text) : Shell Node :=
    .container <$> site.tree.container site.host c name token
  if c.builtins.contains word then return .ok (builtin word)
  else if c.commands.contains word then return .ok (command word)
  else if c.containers.contains word then return .ok (← container word)
  else
    let a := c.ambiguity word token
    match a.builtins, a.commands, a.containers with
    | [], [], [] => return .error ⟨word, token, .notFound⟩
    | [name], [], [] => return .ok (builtin name)
    | [], [name], [] => return .ok (command name)
    | [], [], [name] => return .ok (← container name)
    | _, _, _ => return .ok (.ambiguous a)

end Container

namespace Parameter

/-- The parameter a word is for a command. A key with an equals sign in it is a fault. -/
def ofWord (command : Command) (word : Text) (token : Option Line.Token) : Parameter :=
  let (key, value) := (token.getD (Line.Token.ofWord word)).splitEquals
  { name := some word, token := token, command := command, key := key, value := value
    fault := if key.any (·.contains 0x3D) then some .hiddenEquals else none }

/-- Matches the value of a parameter with the key `key` against the candidates. -/
def matchValue (p : Parameter) (key word : Text) (token : Option Line.Token) : Node :=
  if p.values.contains p.value then .parameter p
  else
    match Names.beginningWith p.value p.values with
    | [] => .parameter p
    | [value] => .parameter { p with value := value, name := some (key ++ "=" ++ value) }
    | values => .ambiguous
        { name := some word, token := token, typed := word
          common := Names.commonRun p.value values, values := values }

/-- The parameter completed to a key of its command. -/
def completeKey (p : Parameter) (key : Text) (required : Bool) : Parameter :=
  { p with isRequired := required, key := some key, value := [], name := some key,
           completion := "=" }

/-- Matches the bare word of a parameter against the candidates. -/
def matchWord (p : Parameter) (word : Text) (token : Option Line.Token) : Node :=
  if p.requiredKeys.contains word then .parameter { p with isRequired := true }
  else if p.keys.contains word || p.values.contains word then .parameter p
  else
    let keys := Names.beginningWith word p.keys
    let requiredKeys := Names.beginningWith word p.requiredKeys
    let values := Names.beginningWith word p.values
    match keys, requiredKeys, values with
    | [], [], [] => .parameter p
    | [key], [], [] => .parameter (p.completeKey key false)
    | [], [key], [] => .parameter (p.completeKey key true)
    | [], [], [value] => .parameter { p with value := value, name := some value }
    | _, _, _ => .ambiguous
        { name := some word, token := token, typed := word
          common := Names.commonRun word (keys ++ requiredKeys ++ values)
          keys := keys, requiredKeys := requiredKeys, values := values }

/-- Matches a parameter against its candidates. -/
def matchCandidates (p : Parameter) (word : Text) (token : Option Line.Token) : Node :=
  match p.key with
  | some key => p.matchValue key word token
  | none => p.matchWord word token

end Parameter

namespace Landing

/-- Resolves a word below a command or one of its parameters. With `validate` the command is
asked about it, unless the word has a fault already. -/
def resolveParameter (site : Site) (l : Landing) (command : Command) (word : Text)
    (token : Option Line.Token) (validate : Bool) : Shell Landing := do
  let p := Parameter.ofWord command word token
  if p.fault.isSome then return l.enter (.parameter p)
  let p ← if validate then Probe.run site.host site.tree.environment l p else pure p
  return l.enter (p.matchCandidates word token)

/-- Where a word leads. -/
def resolve (site : Site) (l : Landing) (word : Text) (token : Option Line.Token := none)
    (validate : Bool := false) : Shell (Except WordError Landing) :=
  match l.node with
  | .container c =>
    if word == ".." then
      match l.parent? with
      | some up => pure (.ok up)
      | none => pure (.error ⟨word, token, .aboveTop⟩)
    else (·.map l.enter) <$> c.lookUp site word token
  | .command c => Except.ok <$> l.resolveParameter site c word token validate
  | .parameter p =>
    match p.command with
    | some c => Except.ok <$> l.resolveParameter site c word token validate
    | none => throw .noCommand
  | .builtin _ => pure (.ok (l.enter (.builtin { name := some word, token := token })))
  | .option _ command =>
    pure (.ok (l.enter (.option { name := some word, token := token } command)))
  | .ambiguous _ => pure (.error ⟨word, token, .notFound⟩)

end Landing

end ConfigShell
