import ConfigShell.Line.Escaped
import ConfigShell.Session.Walk
/-!
# Completing a word

What may be typed in place of the last word of a line, given where the line has led: each
candidate as it is written in a line, followed by a space, or by an equals sign if it is a key.
-/

namespace ConfigShell

/-- What a candidate names. -/
inductive Category where
  | key
  | requiredKey
  | value
  | node (kind : NodeKind)
  deriving Repr, DecidableEq

/-- The word for a kind of node. -/
def NodeKind.word : NodeKind → Text
  | .container => "container"
  | .command => "command"
  | .parameter => "parameter"
  | .builtin => "builtin"
  | .option => "option"
  | .ambiguous => "ambiguous"

/-- The word for a category. -/
def Category.word : Category → Text
  | .key => "key"
  | .requiredKey => "key.required"
  | .value => "value"
  | .node kind => kind.word

/-- A way to complete a word. -/
structure Completion where
  /-- What is put into the line. -/
  text : Text
  category : Category
  /-- It replaces only what follows the equals sign of the word. -/
  afterEquals : Bool := false
  deriving Repr, DecidableEq

namespace Completion

/-- The candidates of a group, each with its suffix. -/
def group (names : List Text) (category : Category) (suffix : UInt8)
    (afterEquals : Bool := false) : List Completion :=
  names.map fun name => ⟨Line.escapeWord name ++ [suffix], category, afterEquals⟩

/-- The candidates of an ambiguous word; `keyed` says that the word has an equals sign. -/
def ofAmbiguity (a : Ambiguity) (keyed : Bool) : List Completion :=
  group a.containers (.node .container) 0x20
    ++ group a.commands (.node .command) 0x20
    ++ group a.builtins (.node .builtin) 0x20
    ++ group a.keys .key 0x3D
    ++ group a.requiredKeys .requiredKey 0x3D
    ++ group a.values .value 0x20 keyed

/-- The node itself by its name, if it has one that is not empty. -/
def ofLabel (n : Node) : List Completion :=
  match n.name with
  | none | some [] => []
  | some (b :: name) => [⟨Line.escapeWord (b :: name) ++ n.label.completion, .node n.kind, false⟩]

/-- The ways to complete the word `token`, which has led to the node `n`. -/
def ofNode (n : Node) (token : Option Line.Token) : List Completion :=
  let keyed := token.any (·.equals.isSome)
  match n with
  | .ambiguous a => ofAmbiguity a keyed
  | .parameter p =>
    if p.key.isSome && keyed then
      if p.value.isEmpty then [] else [⟨Line.escapeWord p.value ++ p.completion, .value, true⟩]
    else ofLabel n
  | _ => ofLabel n

/-- Where in the source a completion of `token` starts. A line that does not end in a word, or a
word without a place, is added to. -/
def replaceFrom (lexed : Line.Lexed) (token : Option Line.Token) (afterEquals : Bool) : Int :=
  match token with
  | none => lexed.source.length
  | some t =>
    if !t.located || !lexed.state.inWord then lexed.source.length
    else
      match if afterEquals then t.equals else none with
      | none => t.start
      | some i =>
        match Signed.get? i t.offsets with
        | some offset => offset + 1
        | none => lexed.source.length

/-- The completion as it is shown, without the space after it. -/
def shown (c : Completion) : Text := Text.trimRight 0x20 c.text

end Completion

/-- The ways to complete the end of a resolved line. -/
def Resolution.completions (r : Resolution) : List Completion :=
  match r.landing with
  | none => []
  | some l => Completion.ofNode l.node (r.steps.getLast?.map (·.1))

/-- Where each of them starts. -/
def Resolution.replaceFrom (r : Resolution) (lexed : Line.Lexed) (c : Completion) : Int :=
  Completion.replaceFrom lexed (r.steps.getLast?.map (·.1)) c.afterEquals

end ConfigShell
