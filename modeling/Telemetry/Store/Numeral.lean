import Telemetry.Decimal.Numeral

/-!
# Numbers in stored texts

How a store takes a text for a number: blanks, a sign, digits with at most one point, an exponent,
blanks.  A text may be such a number as a whole, or only begin with one.
-/

namespace Telemetry

/-! ### Pairs of floats

A pair stands for the sum of its two parts, of which the second is what rounding has cut off from the
first.  A pair is multiplied by splitting each factor into an upper half, whose products are exact,
and the rest.  That is how a significand of 64 bits is scaled by a power of ten with an error far
below one unit of the last place; the result can still differ from the nearest float in that unit.
-/

namespace Decimal

/-- A float and what rounding has cut off from it. -/
structure FloatPair where
  high : Float
  low : Float
deriving Repr

namespace FloatPair

/-- The float with the lower half of its significand cleared. -/
def upperHalf (x : Float) : Float := Float.ofBits (x.toBits &&& 0xFFFFFFFFFC000000)

/-- A pair multiplied by a float with its own rest. -/
def times (y rest : Float) (x : FloatPair) : FloatPair :=
  let xUpper := upperHalf x.high
  let xLower := x.high - xUpper
  let yUpper := upperHalf y
  let yLower := y - yUpper
  let p := xUpper * yUpper
  let q := xUpper * yLower + xLower * yUpper
  let c := p + q
  let cut := p - c + q + xLower * yLower
  let cut := x.high * rest + x.low * y + cut
  let high := c + cut
  ⟨high, c - high + cut⟩

def ofNat (n : Nat) : FloatPair :=
  let high := n.toUInt64.toFloat
  if high ≤ 18446744073709549568.0 then
    let near := high.toUInt64.toNat
    ⟨high,
      if near ≤ n then (n - near).toUInt64.toFloat else -(near - n).toUInt64.toFloat⟩
  else ⟨high, 0.0⟩

/-- Multiplied by ten to a power, by the greatest steps first. -/
def scaleUp (power : Nat) (x : FloatPair) : FloatPair :=
  let x := Nat.repeat (times 1.0e+100 (-1.5902891109759918046e+83)) (power / 100) x
  let x := Nat.repeat (times 1.0e+10 0.0) (power % 100 / 10) x
  Nat.repeat (times 1.0e+01 0.0) (power % 10) x

/-- Divided by ten to a power, by the greatest steps first. -/
def scaleDown (power : Nat) (x : FloatPair) : FloatPair :=
  let x := Nat.repeat (times 1.0e-100 (-1.99918998026028836196e-117)) (power / 100) x
  let x := Nat.repeat (times 1.0e-10 (-3.6432197315497741579e-27)) (power % 100 / 10) x
  Nat.repeat (times 1.0e-01 (-5.5511151231257827021e-18)) (power % 10) x

/-- The sum of both parts. What overflows is infinite. -/
def toFloat (x : FloatPair) : Float :=
  let sum := x.high + x.low
  if sum.isNaN then 1.0 / 0.0 else sum

end FloatPair

end Decimal

/-! ### Numerals

The number is computed from as many digits as fit into 64 bits, scaled by pairs of floats: see
`FloatPair`.  So it need not be the nearest float.
-/

/-- How much of a text is a number. -/
inductive NumeralExtent where
  /-- All of it, and it has neither point nor exponent. -/
  | integer
  /-- All of it. -/
  | whole
  /-- Its beginning, which has a point or an exponent. -/
  | beginning
  /-- At most the digits that it begins with. -/
  | digits
deriving DecidableEq, Repr

/-- The beginning of a text, taken for a number. -/
structure StoredNumeral where
  negative : Bool
  digits : List Char
  fraction : List Char
  exponent : Int
  extent : NumeralExtent
deriving DecidableEq, Repr

namespace StoredNumeral

/-- The blanks: the space, the tab and the line and page breaks of one byte. -/
def isBlank (c : Char) : Bool := c = ' ' || (decide (9 ≤ c.toNat) && decide (c.toNat ≤ 13))

def readSign : List Char → Bool × List Char
  | '-' :: cs => (true, cs)
  | '+' :: cs => (false, cs)
  | cs => (false, cs)

/-- The digits of an exponent. Far exponents are all the same. -/
def exponentOf (digits : List Char) : Nat :=
  digits.foldl (fun n c => if n < 10000 then 10 * n + Decimal.digitValue c else 10000) 0

/-- The extent of a number that has a point or an exponent or both. -/
def extentOf (digits point exponent exponentDigits complete : Bool) : NumeralExtent :=
  let valid := !exponent || exponentDigits
  if !digits then .digits
  else if complete && valid then (if point || exponent then .whole else .integer)
  else if point && exponent || (point || exponent) && valid then .beginning
  else .digits

def ofText (text : String) : StoredNumeral :=
  let (negative, cs) := readSign (text.toList.dropWhile isBlank)
  let (digits, cs) := Decimal.spanDigits cs
  let (point, fraction, cs) :=
    match cs with
    | '.' :: r => (true, Decimal.spanDigits r)
    | r => (false, [], r)
  let (exponent, down, exponentDigits, cs) :=
    match cs with
    | 'e' :: r | 'E' :: r =>
      let (down, r) := readSign r
      (true, down, Decimal.spanDigits r)
    | r => (false, false, [], r)
  let power : Int := exponentOf exponentDigits
  let counts := !(digits.isEmpty && fraction.isEmpty)
  let complete := (cs.dropWhile isBlank).isEmpty
  { negative, digits, fraction
    exponent := if down then -power else power
    extent := extentOf counts point exponent (!exponentDigits.isEmpty) complete }

/-! ### The value -/

/-- Below this a significand takes one more digit. -/
def significandLimit : Nat := (UInt64.size - 10) / 10

/-- Below this a significand is rather multiplied by ten than its exponent kept. -/
def exactLimit : Nat := (UInt64.size - 2048) / 10

/-- A significand and a power of ten with the digits before the point. -/
def takeWhole (digits : List Char) : Nat × Int :=
  digits.foldl
    (fun (s, power) c =>
      if s < significandLimit then (10 * s + Decimal.digitValue c, power) else (s, power + 1))
    (0, 0)

/-- The same, with the digits after the point. -/
def takeFraction (start : Nat × Int) (digits : List Char) : Nat × Int :=
  digits.foldl
    (fun (s, power) c =>
      if s < significandLimit then (10 * s + Decimal.digitValue c, power - 1) else (s, power))
    start

/-- Moves as much of a power of ten as possible into the significand. -/
def absorb : Nat → Nat × Int → Nat × Int
  | 0, r => r
  | fuel + 1, (s, power) =>
    if 0 < power && s < exactLimit then absorb fuel (10 * s, power - 1)
    else if power < 0 && s % 10 = 0 then absorb fuel (s / 10, power + 1)
    else (s, power)

/-- The magnitude of the number. -/
def magnitude (n : StoredNumeral) : Float :=
  let (s, power) := takeFraction (takeWhole n.digits) n.fraction
  if s = 0 then 0.0
  else
    let (s, power) := absorb 20 (s, power + n.exponent)
    let x := Decimal.FloatPair.ofNat s
    (if 0 < power then x.scaleUp power.toNat else x.scaleDown power.natAbs).toFloat

def toFloat (n : StoredNumeral) : Float := if n.negative then -n.magnitude else n.magnitude

/-- The integer that the digits before the point make, if 64 bits hold it. -/
def integer? (n : StoredNumeral) : Option Int :=
  let magnitude : Int := Decimal.digitsValue n.digits
  let value := if n.negative then -magnitude else magnitude
  if fitsInt64 value then some value else none

end StoredNumeral

end Telemetry
