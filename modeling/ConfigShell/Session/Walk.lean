import ConfigShell.Landing.Resolve
import ConfigShell.Line.Lexed
/-!
# Walking a line

A session keeps a saved path, the container it stands in. A line is walked from there, or from
the top if its first word begins with a plain slash: first the saved path is replayed, without
asking any command, then the words of the line are resolved one after another.
-/

namespace ConfigShell

/-- What a session keeps between lines. -/
structure Session where
  /-- The names of the containers from the top to the current one. -/
  path : List Text := []
  /-- Each resolved line is outlined on the error stream. -/
  isTracing : Bool := false
  deriving Repr, DecidableEq

/-- Why a line was not walked to its end. -/
inductive WalkError where
  /-- The saved path no longer leads anywhere, from this name on. -/
  | stalePath (name : Text)
  | word (error : WordError)
  deriving Repr, DecidableEq

/-- The wording of a stale path. -/
def stalePathMessage (name : Text) : Text := "bad saved command '" ++ name ++ "'"

/-- Where a line led, and the node each of its words led to. -/
structure Resolution where
  /-- Missing for a line that was not walked. -/
  landing : Option Landing := none
  steps : List (Line.Token × Node) := []
  deriving Repr, DecidableEq

/-- How far the words of a line have led. -/
structure Walk where
  landing : Landing
  steps : List (Line.Token × Node) := []
  /-- The first word that led nowhere; the walk ends before it. -/
  refused : Option WordError := none

namespace Walk

/-- The word starts at the top: its slash is neither quoted nor escaped. -/
def hasRootSlash (t : Line.Token) : Bool :=
  t.data.head? == some Path.separator && (!t.located || t.offsets.head? == some t.start)

/-- Whether the words start at the top, and the words without the slash that says so. -/
def splitRoot (tokens : List Line.Token) : Bool × List Line.Token :=
  match tokens with
  | [] => (false, [])
  | first :: rest =>
    if hasRootSlash first then
      (true, if first.data == [Path.separator] then rest else first.dropFirst 1 :: rest)
    else (false, tokens)

/-- The top of the tree. -/
def top (site : Site) : Shell Landing := do
  return ⟨.container (← site.tree.top site.host), []⟩

/-- Follows a saved path; the error is the name that leads nowhere. -/
def replay (site : Site) (l : Landing) : List Text → Shell (Except Text Landing)
  | [] => pure (.ok l)
  | name :: rest => do
    match ← l.resolve site name with
    | .error _ => return .error name
    | .ok next => replay site next rest

/-- Where the words of a line start. -/
def start (site : Site) (path : List Text) (fromTop : Bool) : Shell (Except Text Landing) := do
  replay site (← top site) (if fromTop then [] else path)

/-- Resolves words one after another, up to the first that leads nowhere. -/
def words (site : Site) (validate : Bool) (l : Landing) : List Line.Token → Shell Walk
  | [] => pure { landing := l }
  | token :: rest => do
    match ← l.resolve site token.data (some token) validate with
    | .error e => return { landing := l, refused := some e }
    | .ok next =>
      let walk ← words site validate next rest
      return { walk with steps := (token, next.node) :: walk.steps }

/-- Walks a line that is no comment. With `probeNext` an empty word is added where the line does
not end within a word. -/
def line (site : Site) (path : List Text) (lexed : Line.Lexed) (validate : Bool)
    (probeNext : Bool := false) : Shell (Except Text Walk) := do
  let (fromTop, typed) := splitRoot lexed.tokens
  let next := if probeNext && !lexed.state.inWord
    then [Line.Token.empty lexed.source.length] else []
  match ← start site path fromTop with
  | .error name => return .error name
  | .ok l => return .ok (← words site validate l (typed ++ next))

/-- The resolution of a walk that has to reach the end. -/
def settle : Except Text Walk → Except WalkError Resolution
  | .error name => .error (.stalePath name)
  | .ok walk =>
    match walk.refused with
    | some e => .error (.word e)
    | none => .ok { landing := some walk.landing, steps := walk.steps }

end Walk

namespace Session

/-- Resolves the words of a line, failing at the first that leads nowhere. -/
def resolve (site : Site) (s : Session) (lexed : Line.Lexed) (validate : Bool := false) :
    Shell (Except WalkError Resolution) :=
  if lexed.isComment then pure (.ok {})
  else Walk.settle <$> Walk.line site s.path lexed validate

/-- Resolves a line for completing it: commands are asked, and after a blank the empty word is
resolved too, so that the resolution tells what may come next. -/
def complete (site : Site) (s : Session) (lexed : Line.Lexed) :
    Shell (Except WalkError Resolution) :=
  if lexed.isComment then pure (.ok {})
  else Walk.settle <$> Walk.line site s.path lexed true true

/-- Resolves as much of a line as leads somewhere, asking no command. -/
def colourise (site : Site) (s : Session) (lexed : Line.Lexed) : Shell Resolution :=
  if lexed.isComment then pure {}
  else do
    match ← Walk.line site s.path lexed false with
    | .error _ => return {}
    | .ok walk => return { landing := some walk.landing, steps := walk.steps }

/-- The saved path as the prompt shows it. -/
def promptPath (s : Session) : Text := "/" ++ Text.join " " s.path

end Session

end ConfigShell
