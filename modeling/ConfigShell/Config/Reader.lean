import ConfigShell.Config.Document
import ConfigShell.Config.Reader.Moment
import ConfigShell.Config.Reader.Quoted
/-!
# Reading a configuration file

The written form of a configuration file: one statement a line, a heading in brackets or a key
and its value, with comments after `#`. That a number is too long, or that values are nested too
deeply, counts only if all before it is well formed.
-/

namespace ConfigShell.Config

namespace Reader

/-! ## Keys -/

/-- The bytes of a key without quotes. -/
def isBare (b : UInt8) : Bool :=
  (0x41 ≤ b && b ≤ 0x5A) || (0x61 ≤ b && b ≤ 0x7A) || (0x30 ≤ b && b ≤ 0x39) || b == 0x2D
    || b == 0x5F

/-- One part of a key. -/
def keyPart : Reader Text := fun t =>
  match t with
  | 0x22 :: rest => basicRest false t.length rest
  | 0x27 :: rest => literalRest rest
  | _ =>
    let bare := t.takeWhile isBare
    if bare.isEmpty then .error .malformed else .ok (bare, t.drop bare.length)

/-- A key of parts with dots between them; `limit` bounds the parts. -/
def key : Nat → Reader Key
  | 0, _ => .error .malformed
  | limit + 1, t => do
    let (part, t) ← keyPart t
    match skipSpaces t with
    | 0x2E :: t =>
      let (more, rest) ← key limit (skipSpaces t)
      return (part :: more, rest)
    | t => return ([part], t)

/-! ## Values -/

/-- A date, a time or a number. A date has to be one of the calendar. -/
def momentOrNumber : Reader Value := fun t =>
  match moment? t with
  | some (m, rest) => if m.isValid then .ok (.moment m, rest) else .error .malformed
  | none => numeric t

mutual

/-- A value. It may be nested `room` deep; `limit` bounds how deeply values are nested, items
included. -/
def value : Nat → Nat → Reader Value
  | _, 0, _ => .error .malformed
  | room, limit + 1, t =>
    match t with
    | 0x22 :: _ | 0x27 :: _ => (quotedText t).map fun (s, rest) => (.text s, rest)
    | 0x5B :: rest => do
      let room ← deeper room
      let rest ← skipFiller rest.length rest
      match rest with
      | 0x5D :: rest => return (.list [], rest)
      | _ => (items room limit rest).map fun (vs, rest) => (.list vs, rest)
    | 0x7B :: rest => do
      let room ← deeper room
      match skipSpaces rest with
      | 0x7D :: rest => return (.table [], rest)
      | rest => (entries room limit {} rest).map fun (es, rest) => (.table es, rest)
    | _ =>
      if (Text.ofString "true").isPrefixOf t then .ok (.boolean true, t.drop 4)
      else if (Text.ofString "false").isPrefixOf t then .ok (.boolean false, t.drop 5)
      else momentOrNumber t

/-- The items of a list up to its closing bracket. -/
def items : Nat → Nat → Reader (List Value)
  | _, 0, _ => .error .malformed
  | room, limit + 1, t => do
    let (v, t) ← value room limit t
    let t ← skipFiller t.length t
    match t with
    | 0x5D :: rest => return ([v], rest)
    | 0x2C :: rest =>
      let rest ← skipFiller rest.length rest
      match rest with
      | 0x5D :: rest => return ([v], rest)
      | _ =>
        let (more, rest) ← items room limit rest
        return (v :: more, rest)
    | _ => throw .malformed

/-- The entries of a table in braces up to its closing brace. -/
def entries : Nat → Nat → Document → Reader Table
  | _, 0, _, _ => .error .malformed
  | room, limit + 1, d, t => do
    let (k, t) ← key t.length t
    match t with
    | 0x3D :: t =>
      let (v, t) ← value room limit (skipSpaces t)
      let last ← require k.getLast?
      if d.isFrozen k then throw .malformed
      else
        let table ← require (Table.change false (Table.addNew last v) k.dropLast d.table)
        let frozen := match v with
          | .list _ | .table _ => k :: d.frozen
          | _ => d.frozen
        match skipSpaces t with
        | 0x7D :: rest => return (table, rest)
        | 0x2C :: rest =>
          entries room limit { d with table := table, frozen := frozen } (skipSpaces rest)
        | _ => throw .malformed
    | _ => throw .malformed

end

/-! ## Files -/

/-- The statement at the beginning of a line, if there is one. -/
def statement (depth : Nat) (d : Document) : Reader Document := fun t =>
  match t with
  | 0x5B :: 0x5B :: rest => do
    let (k, rest) ← key rest.length (skipSpaces rest)
    let d ← require (d.openItem k)
    if [0x5D, 0x5D].isPrefixOf rest then return (d, rest.drop 2) else throw .malformed
  | 0x5B :: rest => do
    let (k, rest) ← key rest.length (skipSpaces rest)
    let d ← require (d.openTable k)
    if [0x5D].isPrefixOf rest then return (d, rest.drop 1) else throw .malformed
  | b :: _ =>
    if isBare b || b == 0x22 || b == 0x27 then do
      let (k, rest) ← key t.length t
      match rest with
      | 0x3D :: rest =>
        let (v, rest) ← value depth (2 * t.length) (skipSpaces rest)
        return (← require (d.assign k v), rest)
      | _ => throw .malformed
    else .ok (d, t)
  | [] => .ok (d, t)

/-- The statements of a file; `limit` bounds the lines. -/
def statements (depth : Nat) : Nat → Document → Text → Except FormatFault Table
  | 0, d, _ => .ok d.table
  | limit + 1, d, t => do
    let (d, t) ← statement depth d (skipSpaces t)
    match ← skipComment (skipSpaces t) with
    | [] => return d.table
    | b :: rest => if b == Text.newline then statements depth limit d rest else throw .malformed

/-- A carriage return before a line feed is dropped. -/
def dropCarriageReturns : Text → Text
  | 0x0D :: 0x0A :: t => Text.newline :: dropCarriageReturns t
  | b :: t => b :: dropCarriageReturns t
  | [] => []

end Reader

/-- Reads the table that a configuration file writes, where values may be nested as deeply as
`depth`. -/
def readTable (depth : Nat) (file : Text) : Except FormatFault Table :=
  if ¬ file.IsWellFormed then .error .notUtf8
  else
    let t := Reader.dropCarriageReturns file
    Reader.statements depth (t.length + 1) {} t

end ConfigShell.Config
