/-!
# Binary floating point

Numbers of 53 binary digits, as a whole number times a power of two. A decimal becomes the
nearest of them, and of two equally near the even one; `shortest` goes back, giving the fewest
decimal digits that become the same number again, and of those the nearest to it.
-/

namespace ConfigShell

/-- A binary floating point number. -/
inductive Binary where
  /-- The value `significand * 2 ^ exponent`, negated if so said. -/
  | finite (isNegative : Bool) (significand : Nat) (exponent : Int)
  | infinite (isNegative : Bool)
  | notANumber
  deriving Repr, DecidableEq

/-- A decimal: the digits of a whole number, and where the point stands counted from their
beginning. -/
structure Decimal where
  digits : List Nat
  point : Int
  deriving Repr, DecidableEq

namespace Binary

/-- The lowest exponent. -/
def minExponent : Int := -1074

/-- The highest exponent. -/
def maxExponent : Int := 971

/-- The least significand of a number that is not among the smallest: 53 binary digits. -/
def leastFull : Nat := 0x10000000000000

/-- The nearest whole number to a quotient, the even one of two. -/
def divideToEven (n d : Nat) : Nat :=
  let whole := n / d
  let twice := 2 * (n % d)
  if twice < d then whole
  else if d < twice then whole + 1
  else whole + whole % 2

/-- The fraction `n / d` times `base ^ e`, as numerator and denominator. -/
def scale (base n d : Nat) (e : Int) : Nat × Nat :=
  if 0 ≤ e then (n * base.pow e.toNat, d) else (n, d * base.pow (-e).toNat)

/-- The nearest number to the positive fraction `n / d`. -/
def ofFraction (isNegative : Bool) (n d : Nat) : Binary :=
  let low : Int := max minExponent ((n.log2 : Int) - d.log2 - 53)
  let (n₀, d₀) := scale 2 n d (-low)
  let exponent := if n₀ < 2 * leastFull * d₀ then low else low + 1
  let (n₁, d₁) := scale 2 n d (-exponent)
  let m := divideToEven n₁ d₁
  let (m, exponent) := if m = 2 * leastFull then (leastFull, exponent + 1) else (m, exponent)
  if maxExponent < exponent then infinite isNegative else finite isNegative m exponent

/-- The nearest number to `digits * 10 ^ exponent`. -/
def ofDecimal (isNegative : Bool) (digits : Nat) (exponent : Int) : Binary :=
  let places : Int := (Nat.toDigits 10 digits).length + exponent
  if digits = 0 || places < -330 then finite isNegative 0 minExponent
  else if 310 < places then infinite isNegative
  else
    let (n, d) := scale 10 digits 1 exponent
    ofFraction isNegative n d

/-- The place of the decimal point before the first digit of `n / d`: the least `p` with
`n / d < 10 ^ p`, looked for upwards from `p`. -/
def pointFrom (n d : Nat) : Nat → Int → Int
  | 0, p => p
  | limit + 1, p =>
    let (d', n') := scale 10 d n p
    if n' < d' then p else pointFrom n d limit (p + 1)

/-- The decimal of `count` digits, with the point at `point`, that lies nearest to the value
among those between the given ends, if there is one. All are multiples of `2 ^ unit`. -/
def nearestOf (value low high : Nat) (includesEnds : Bool) (unit point : Int) (count : Nat) :
    Option Nat :=
  let (n, d) := scale 2 1 1 unit
  let (n, d) := scale 10 n d (count - point)
  let below := value * n / d
  let fits (c : Nat) : Bool :=
    if includesEnds then low * n ≤ c * d && c * d ≤ high * n
    else low * n < c * d && c * d < high * n
  let gapBelow := value * n - below * d
  let gapAbove := (below + 1) * d - value * n
  match fits below, fits (below + 1) with
  | false, false => none
  | true, false => some below
  | false, true => some (below + 1)
  | true, true =>
    some (if gapBelow < gapAbove || (gapBelow == gapAbove && below % 2 == 0) then below
      else below + 1)

/-- The digits of a number, the zeros at the end left out. -/
def significantDigits (n : Nat) : List Nat :=
  (((Nat.toDigits 10 n).map fun c => c.toNat - 48).reverse.dropWhile (· == 0)).reverse

/-- The shortest decimal that becomes the positive number `significand * 2 ^ exponent` again. -/
def shortest (significand : Nat) (exponent : Int) : Decimal :=
  let narrow := significand = leastFull && minExponent < exponent
  let value := 4 * significand
  let low := if narrow then value - 1 else value - 2
  let unit := exponent - 2
  let (n, d) := scale 2 value 1 unit
  let point := pointFrom n d 700 (-340)
  let tries := (List.range 17).filterMap fun i =>
    (nearestOf value low (value + 2) (significand % 2 == 0) unit point (i + 1)).map (i + 1, ·)
  match tries with
  | [] => ⟨[], point⟩
  | (count, c) :: _ =>
    ⟨significantDigits c, (Nat.toDigits 10 c).length + (point - count)⟩

end Binary

end ConfigShell
