import ConfigShell.Config.Reader.Basic
/-!
# Reading texts

A text stands between quotes, single ones if nothing in it is escaped, or between three quotes if
it may go over several lines.
-/

namespace ConfigShell.Config.Reader

/-- The character of a code point in `digits` hexadecimal digits. -/
def codePoint (digits : Nat) : Reader Text := fun t => do
  let values ← require ((t.take digits).mapM hexDigit?)
  let code := values.foldl (fun n d => 16 * n + d) 0
  if values.length < digits || 0x10FFFF < code || (0xD800 ≤ code && code ≤ 0xDFFF) then
    throw .malformed
  else return (Text.ofCode code, t.drop digits)

/-- The escape after a backslash. In a text of several lines a backslash before a line end drops
it and all blanks after it. -/
def escape (severalLines : Bool) : Reader Text
  | 0x62 :: t => .ok ([0x08], t)
  | 0x74 :: t => .ok ([0x09], t)
  | 0x6E :: t => .ok ([0x0A], t)
  | 0x66 :: t => .ok ([0x0C], t)
  | 0x72 :: t => .ok ([0x0D], t)
  | 0x22 :: t => .ok ([0x22], t)
  | 0x5C :: t => .ok ([0x5C], t)
  | 0x75 :: t => codePoint 4 t
  | 0x55 :: t => codePoint 8 t
  | b :: t =>
    if severalLines && (isSpace b || b == Text.newline) then
      match skipSpaces (b :: t) with
      | [] => .ok ([], [])
      | c :: rest =>
        if c == Text.newline then .ok ([], rest.dropWhile fun b => isSpace b || b == Text.newline)
        else .error .malformed
    else .error .malformed
  | [] => .error .malformed

/-- The rest of a text between double quotes; `limit` bounds its length. -/
def basicRest (severalLines : Bool) : Nat → Reader Text
  | 0, _ => .error .malformed
  | _, [] => .error .malformed
  | limit + 1, b :: t =>
    if b == 0x22 then
      if !severalLines then .ok ([], t)
      else if [0x22, 0x22].isPrefixOf t then .ok ([], t.drop 2)
      else (basicRest severalLines limit t).map fun (more, rest) => (b :: more, rest)
    else if b == 0x5C then do
      let (c, t) ← escape severalLines t
      let (more, rest) ← basicRest severalLines limit t
      return (c ++ more, rest)
    else if (if severalLines then isForbiddenInLines b else isForbidden b) then .error .malformed
    else (basicRest severalLines limit t).map fun (more, rest) => (b :: more, rest)

/-- The rest of a text between single quotes, which has no escapes. -/
def literalRest : Reader Text := fun t =>
  let body := t.takeWhile (· != 0x27)
  match t.drop body.length with
  | _ :: rest => if body.any isForbidden then .error .malformed else .ok (body, rest)
  | [] => .error .malformed

/-- The rest of a text between three single quotes. -/
def literalLinesRest : Reader Text
  | [] => .error .malformed
  | b :: t =>
    if [0x27, 0x27, 0x27].isPrefixOf (b :: t) then .ok ([], t.drop 2)
    else if isForbiddenInLines b then .error .malformed
    else (literalLinesRest t).map fun (more, rest) => (b :: more, rest)

/-- Up to two more quotes right after a text of several lines belong to it. -/
def closingQuotes (quote : UInt8) : Text × Text → Text × Text := fun (body, rest) =>
  let extra := (rest.take 2).takeWhile (· == quote)
  (body ++ extra, rest.drop extra.length)

/-- A text of several lines does not begin with the line end after its quotes. -/
def dropFirstLineEnd (t : Text) : Text :=
  match t with
  | b :: rest => if b == Text.newline then rest else t
  | [] => t

/-- A text in quotes. -/
def quotedText : Reader Text := fun t =>
  match t with
  | 0x22 :: 0x22 :: 0x22 :: rest =>
    (basicRest true t.length (dropFirstLineEnd rest)).map (closingQuotes 0x22)
  | 0x22 :: rest => basicRest false t.length rest
  | 0x27 :: 0x27 :: 0x27 :: rest =>
    (literalLinesRest (dropFirstLineEnd rest)).map (closingQuotes 0x27)
  | 0x27 :: rest => literalRest rest
  | _ => .error .malformed

end ConfigShell.Config.Reader
