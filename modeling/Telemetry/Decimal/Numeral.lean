/-!
# Numerals

A numeral as it stands in a text, and the two ways it becomes a number.

* `Numeral.integer?` — a numeral without point and exponent that fits 64 bits, signed or unsigned;
* `Numeral.scaled?` — any numeral: the leading digits that fit 64 unsigned bits, scaled by one
  multiplication or division by a power of ten;
* `nearest?` — free-standing numbers, read to the nearest representable one.
-/

namespace Telemetry

/-- Do 64 bits hold an integer? -/
def fitsInt64 (n : Int) : Bool :=
  decide (Int64.minValue.toInt ≤ n) && decide (n ≤ Int64.maxValue.toInt)

namespace Decimal

/-- A numeral in its parts: digits before and after the point, and a signed exponent. -/
structure Numeral where
  negative : Bool
  whole : List Char
  fraction : Option (List Char)
  exponent : Option (Bool × List Char)
deriving DecidableEq, Repr

def digitValue (c : Char) : Nat := c.toNat - '0'.toNat

def digitsValue (digits : List Char) : Nat := digits.foldl (fun n c => 10 * n + digitValue c) 0

/-- A numeral without point and exponent, if 64 bits hold it. Minus zero is no integer. -/
def Numeral.integer? (n : Numeral) : Option Int :=
  match n.fraction, n.exponent with
  | none, none =>
    let magnitude := digitsValue n.whole
    if n.negative then
      let i : Int := -magnitude
      if 0 < magnitude && Int64.minValue.toInt ≤ i then some i else none
    else if magnitude < UInt64.size then some magnitude else none
  | _, _ => none

/-- Digits taken while 64 unsigned bits hold them, with the number of digits left over. -/
def takeDigits : Nat → List Char → Nat × Nat
  | kept, [] => (kept, 0)
  | kept, c :: rest =>
    let next := 10 * kept + digitValue c
    if next < UInt64.size then takeDigits next rest else (kept, rest.length + 1)

def tenTo (k : Nat) : Float := Float.ofScientific 1 false k

/-- Division by `10^k` in steps that floats can hold. -/
def divideByTen (x : Float) (k : Nat) : Float :=
  if k ≤ 308 then x / tenTo k
  else if x == 0.0 then x
  else divideByTen (x / tenTo 308) (k - 308)
termination_by k
decreasing_by omega

/-- `significand · 10^power`, by one multiplication where that is possible. -/
def scaleByTen? (significand : Nat) (power : Int) : Option Float :=
  let x := significand.toUInt64.toFloat
  if power < 0 then some (divideByTen x power.natAbs)
  else if 308 < power then (if significand = 0 then some x else none)
  else
    let y := x * tenTo power.toNat
    if y.isInf then none else some y

/-- The numeral as a floating number; none if it is too large. -/
def Numeral.scaled? (n : Numeral) : Option Float :=
  let (kept, dropped) := takeDigits 0 n.whole
  let (significand, placed) :=
    match n.fraction with
    | none => (kept, 0)
    | some digits =>
      let (k, left) := takeDigits kept digits
      (k, digits.length - left)
  let base : Int := (dropped : Int) - placed
  let magnitude :=
    match n.exponent with
    | none => scaleByTen? significand base
    | some (down, digits) =>
      let power := digitsValue digits
      if Int32.maxValue.toInt < power then (if significand = 0 || down then some 0.0 else none)
      else scaleByTen? significand (if down then base - power else base + power)
  magnitude.map fun x => if n.negative then -x else x

def spanDigits (cs : List Char) : List Char × List Char :=
  (cs.takeWhile Char.isDigit, cs.dropWhile Char.isDigit)

/-- `mantissa · 10^power`, rounded to nearest; far powers are settled without computing them. -/
def nearestScaled (mantissa : Nat) (power : Int) : Float :=
  let top : Int := (Nat.toDigits 10 mantissa).length + power
  if mantissa = 0 || top < -400 then 0.0
  else if 400 < top then 1.0 / 0.0
  else Float.ofScientific mantissa (decide (power < 0)) power.natAbs

/-- An unsigned free-standing number: digits with at most one point and an optional exponent, or
one of the words for infinity and not-a-number in any case. -/
def nearestUnsigned? (cs : List Char) : Option Float :=
  let word := cs.map Char.toLower
  if word = "inf".toList || word = "infinity".toList then some (1.0 / 0.0)
  else if word = "nan".toList then some (0.0 / 0.0)
  else
    let (whole, rest) := spanDigits cs
    let (fraction, rest) :=
      match rest with
      | '.' :: r => spanDigits r
      | r => ([], r)
    if whole.isEmpty && fraction.isEmpty then none
    else
      let mantissa := digitsValue (whole ++ fraction)
      match rest with
      | [] => some (nearestScaled mantissa (-(fraction.length : Int)))
      | e :: r =>
        if e != 'e' && e != 'E' then none
        else
          let (down, r) :=
            match r with
            | '-' :: r => (true, r)
            | '+' :: r => (false, r)
            | r => (false, r)
          let (digits, after) := spanDigits r
          if digits.isEmpty || !after.isEmpty then none
          else
            let power : Int := digitsValue digits
            some (nearestScaled mantissa ((if down then -power else power) - fraction.length))

/-- A free-standing number with an optional sign. -/
def nearest? (text : String) : Option Float :=
  match text.toList with
  | '-' :: r => (nearestUnsigned? r).map fun x => -x
  | '+' :: r => nearestUnsigned? r
  | r => nearestUnsigned? r

def integer? (text : String) : Option Int :=
  let magnitude? (cs : List Char) : Option Nat :=
    if cs.isEmpty || !cs.all Char.isDigit then none else some (digitsValue cs)
  match text.toList with
  | '-' :: r => (magnitude? r).map fun n => -(n : Int)
  | '+' :: r => (magnitude? r).map fun n => (n : Int)
  | r => (magnitude? r).map fun n => (n : Int)

end Decimal

end Telemetry
