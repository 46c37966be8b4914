import ConfigShell.Config.Moment
import ConfigShell.Number.Binary
import ConfigShell.Text.Digit
/-!
# Values of a configuration file

A configuration file is a table of named values. Messages show a value by its literal, unless a
whole number in it has too many digits for one or it is nested too deeply.
-/

namespace ConfigShell.Config

/-- A value. Tables keep their entries in the order in which they were written. -/
inductive Value where
  | text (t : Text)
  | integer (n : Int)
  | real (x : Binary)
  | boolean (b : Bool)
  | moment (m : Moment)
  | list (items : List Value)
  | table (entries : List (Text × Value))

/-- The entries of a table. -/
abbrev Table := List (Text × Value)

/-! ## Literals -/

/-- How real numbers are shown: with a point for exponents of ten from -4 up to 15, and else
with one digit before the point and a signed exponent of two digits or more. -/
def decimalLiteral (d : Decimal) : Text :=
  let digits (ds : List Nat) : Text := ds.map fun n => UInt8.ofNat (n + 0x30)
  let zeros (n : Int) : Text := List.replicate n.toNat 0x30
  let count : Int := d.digits.length
  if -4 < d.point && d.point ≤ 16 then
    if d.point ≤ 0 then "0." ++ zeros (-d.point) ++ digits d.digits
    else if count ≤ d.point then digits d.digits ++ zeros (d.point - count) ++ ".0"
    else digits (d.digits.take d.point.toNat) ++ "." ++ digits (d.digits.drop d.point.toNat)
  else
    let exponent := d.point - 1
    let size := Text.decimal exponent.natAbs
    digits (d.digits.take 1)
      ++ (if d.digits.length ≤ 1 then [] else Text.ofString "." ++ digits (d.digits.drop 1))
      ++ (if exponent < 0 then Text.ofString "e-" else Text.ofString "e+")
      ++ (if size.length < 2 then [0x30] else []) ++ size

/-- A minus sign, if wanted. -/
def sign (isNegative : Bool) : Text := if isNegative then [0x2D] else []

/-- The literal of a real number. -/
def realLiteral : Binary → Text
  | .notANumber => "nan"
  | .infinite isNegative => sign isNegative ++ "inf"
  | .finite isNegative 0 _ => sign isNegative ++ "0.0"
  | .finite isNegative m q => sign isNegative ++ decimalLiteral (Binary.shortest m q)

mutual

/-- The literal of a value. -/
def Value.literal : Value → Text
  | .text t => Text.quoted t
  | .integer n => Text.integer n
  | .real x => realLiteral x
  | .boolean b => if b then "True" else "False"
  | .moment m => m.literal
  | .list items => Text.quotedList (Value.literals items)
  | .table entries =>
    [0x7B] ++ Text.join (Text.ofString ", ") (Value.entryLiterals entries) ++ [0x7D]

/-- The literals of the items of a list. -/
def Value.literals : List Value → List Text
  | [] => []
  | v :: rest => v.literal :: Value.literals rest

/-- The literals of the entries of a table. -/
def Value.entryLiterals : List (Text × Value) → List Text
  | [] => []
  | (key, v) :: rest => (Text.quoted key ++ ": " ++ v.literal) :: Value.entryLiterals rest

end

/-- Why a message cannot show a value. -/
inductive ShowFault where
  | tooManyDigits
  | tooDeep
  deriving Repr, DecidableEq

mutual

/-- Why a message cannot show the value, if it cannot: a whole number in it has too many decimal
digits, or something in it is nested more than `room` deep. What comes first is the reason. -/
def Value.showFault? (room : Nat) (v : Value) : Option ShowFault :=
  match room, v with
  | 0, _ => some .tooDeep
  | _ + 1, .integer n =>
    if (Text.decimal n.natAbs).length ≤ Text.maxNumeralDigits then none else some .tooManyDigits
  | room + 1, .list items => Value.itemsShowFault? room items
  | room + 1, .table entries => Value.entriesShowFault? room entries
  | _ + 1, .text _ | _ + 1, .real _ | _ + 1, .boolean _ | _ + 1, .moment _ => none

/-- Why a message cannot show the items of a list. -/
def Value.itemsShowFault? (room : Nat) (items : List Value) : Option ShowFault :=
  match items with
  | [] => none
  | v :: rest => (v.showFault? room).or (Value.itemsShowFault? room rest)

/-- Why a message cannot show the entries of a table. -/
def Value.entriesShowFault? (room : Nat) (entries : List (Text × Value)) : Option ShowFault :=
  match entries with
  | [] => none
  | (_, v) :: rest => (v.showFault? room).or (Value.entriesShowFault? room rest)

end

/-! ## Tables -/

namespace Table

/-- The value of a key. -/
def value? (t : Table) (key : Text) : Option Value := t.lookup key

/-- Replaces the value of a key, or adds it at the end. -/
def set (t : Table) (key : Text) (v : Value) : Table :=
  if t.any (·.1 == key) then t.map fun (k, old) => (k, if k == key then v else old)
  else t ++ [(key, v)]

theorem lookup_replace (t : Table) (key : Text) (v : Value) (h : t.any (·.1 == key)) :
    (t.map fun (k, old) => (k, if k == key then v else old)).lookup key = some v := by
  induction t with
  | nil => simp at h
  | cons e t ih =>
    obtain ⟨k, old⟩ := e
    by_cases hk : k = key
    · simp [hk]
    · have hb : (key == k) = false := by simpa using fun e => hk e.symm
      simp only [List.map_cons, List.lookup_cons, hb]
      exact ih (by simpa [hk] using h)

theorem lookup_append_new (t : Table) (key : Text) (v : Value) (h : ¬t.any (·.1 == key)) :
    (t ++ [(key, v)]).lookup key = some v := by
  induction t with
  | nil => simp
  | cons e t ih =>
    obtain ⟨k, old⟩ := e
    have hk : k ≠ key := by rintro rfl; simp at h
    have hb : (key == k) = false := by simpa using fun e => hk e.symm
    simp only [List.cons_append, List.lookup_cons, hb]
    exact ih (by simpa [hk] using h)

@[simp]
theorem value?_set (t : Table) (key : Text) (v : Value) : (t.set key v).value? key = some v := by
  unfold set value?
  split
  · next h => exact lookup_replace t key v h
  · next h => exact lookup_append_new t key v h

/-- Changes the table at a path of keys; missing tables are made on the way. A list on the way,
where `intoLists` admits it, is entered at its last item. None if something else is in the
way. -/
def change (intoLists : Bool) (f : Table → Option Table) : List Text → Table → Option Table
  | [], t => f t
  | key :: rest, t =>
    match t.lookup key with
    | none => (change intoLists f rest []).map fun below => t.set key (.table below)
    | some (.table below) =>
      (change intoLists f rest below).map fun below => t.set key (.table below)
    | some (.list items) =>
      match intoLists, items.getLast? with
      | true, some (.table below) =>
        (change intoLists f rest below).map fun below =>
          t.set key (.list (items.dropLast ++ [.table below]))
      | _, _ => none
    | some _ => none

/-- Adds a key that is not there yet. -/
def addNew (key : Text) (v : Value) (t : Table) : Option Table :=
  if t.any (·.1 == key) then none else some (t ++ [(key, v)])

/-- Adds an empty table to the list of a key, which may be new. -/
def addItem (key : Text) (t : Table) : Option Table :=
  match t.lookup key with
  | none => some (t ++ [(key, .list [.table []])])
  | some (.list items) => some (t.set key (.list (items ++ [.table []])))
  | some _ => none

end Table

end ConfigShell.Config
