/-!
# The text of a number

A finite number is written with the fewest digits that read back the same.
-/

namespace Telemetry.Decimal

/-! ### Shortest decimals

A finite binary number is `m · 2^q`.  The reals that round to it form an interval around it, closed
when `m` is even.  Its shortest decimal is the first point of the grids of 1, 2, …, 17 digits that
lies in that interval; of two such points on one grid the nearer one, the even one on a tie.

All arithmetic is exact, on natural numbers.
-/

/-- A nonnegative number `m · 2^q`; `atPower` says that the neighbour below is only half as far as
the neighbour above. -/
structure Dyadic where
  m : Nat
  q : Int
  atPower : Bool
deriving DecidableEq, Repr

/-- A decimal number `digits · 10^exponent`. -/
structure Scientific where
  digits : Nat
  exponent : Int
deriving DecidableEq, Repr

/-- The magnitude of a finite number from its 64 bits. -/
def Dyadic.ofBits (bits : UInt64) : Dyadic :=
  let fraction := (bits &&& 0x000FFFFFFFFFFFFF).toNat
  let power := ((bits >>> 52) &&& 0x7FF).toNat
  if power = 0 then ⟨fraction, -1074, false⟩
  else ⟨fraction + (1 <<< 52), (power : Int) - 1075, fraction = 0 && decide (1 < power)⟩

def Dyadic.floor (x : Dyadic) : Nat :=
  if 0 ≤ x.q then x.m <<< x.q.toNat else x.m >>> x.q.natAbs

/-- The nearest integer, a half going up. -/
def Dyadic.nearestInteger (x : Dyadic) : Nat :=
  if 0 ≤ x.q then x.floor
  else (2 * x.m + (1 <<< x.q.natAbs)) >>> (x.q.natAbs + 1)

def Dyadic.isIntegral (x : Dyadic) : Bool :=
  decide (0 ≤ x.q) || x.floor <<< x.q.natAbs == x.m

/-- `a · 2^i · 10^j` compared with `b · 2^k · 10^l`, by clearing the negative powers. -/
def compareScaled (a : Nat) (i j : Int) (b : Nat) (k l : Int) : Ordering :=
  let two := min i k
  let ten := min j l
  compare ((a * Nat.pow 10 (j - ten).toNat) <<< (i - two).toNat)
    ((b * Nat.pow 10 (l - ten).toNat) <<< (k - two).toNat)

/-- Does `d` round to `x`? Bounds are kept in quarters of a unit of `x`. -/
def Dyadic.contains (x : Dyadic) (d : Scientific) : Bool :=
  let low := 4 * x.m - (if x.atPower then 1 else 2)
  let high := 4 * x.m + 2
  let below := compareScaled low (x.q - 2) 0 d.digits 0 d.exponent
  let above := compareScaled d.digits 0 d.exponent high (x.q - 2) 0
  if x.m % 2 = 0 then below != .gt && above != .gt else below == .lt && above == .lt

/-- The number of digits before the point: `10^(p-1) ≤ x < 10^p`. -/
def Dyadic.magnitude (x : Dyadic) : Int :=
  let guess := (((Nat.log2 x.m : Nat) : Int) + x.q) * 30103 / 100000 + 1
  if compareScaled x.m x.q 0 1 0 guess != .lt then guess + 1
  else if compareScaled x.m x.q 0 1 0 (guess - 1) == .lt then guess - 1
  else guess

/-- The grid point at or below `x` among the multiples of `10^e`. -/
def Dyadic.floorAt (x : Dyadic) (e : Int) : Nat :=
  let two := min x.q 0
  let ten := min (-e) 0
  ((x.m * Nat.pow 10 (-e - ten).toNat) <<< (x.q - two).toNat) /
    (Nat.pow 10 (-ten).toNat <<< (-two).toNat)

/-- The point of the grid of multiples of `10^e` that stands for `x`, if one rounds to it. -/
def Dyadic.onGrid (x : Dyadic) (e : Int) : Option Scientific :=
  let lower : Scientific := ⟨x.floorAt e, e⟩
  let upper : Scientific := ⟨x.floorAt e + 1, e⟩
  match x.contains lower, x.contains upper with
  | true, false => some lower
  | false, true => some upper
  | false, false => none
  | true, true =>
    match compareScaled (2 * x.m) x.q 0 (2 * lower.digits + 1) 0 e with
    | .lt => some lower
    | .gt => some upper
    | .eq => if lower.digits % 2 = 0 then some lower else some upper

/-- Drops trailing zeros of the digits; `fuel` bounds their number. -/
def Scientific.trimmed : Nat → Scientific → Scientific
  | 0, d => d
  | fuel + 1, d =>
    if d.digits % 10 = 0 && d.digits != 0 then Scientific.trimmed fuel ⟨d.digits / 10, d.exponent + 1⟩
    else d

/-- The shortest decimal that rounds to `x`, for `x ≠ 0`. -/
def Dyadic.shortest (x : Dyadic) : Scientific :=
  let p := x.magnitude
  let found := (List.range 17).findSome? fun (n : Nat) => x.onGrid (p - (n + 1 : Nat))
  (found.getD ⟨x.floorAt (p - 17), p - 17⟩).trimmed 20

/-! ### Number text

How the digits of a number are laid out: plainly while the leading digit stands between the fifth
place after the point and the sixteenth before it, with an exponent beyond.  A plain integral number
keeps `.0`, an exponent always carries its sign, and zero keeps its own.
-/

/-- Where plain notation ends: the least and greatest place of the leading digit. -/
structure Layout where
  leastPlace : Int
  greatestPlace : Int

/-- The layout of every number this library writes. -/
def Layout.standard : Layout := ⟨-5, 15⟩

def digitChars (n : Nat) : List Char := Nat.toDigits 10 n

/-- A plain numeral: the point is put, or the zeros that are missing. -/
def plainChars (digits : List Char) (exponent : Int) : List Char :=
  let point : Int := digits.length + exponent
  if 0 ≤ exponent then digits ++ List.replicate exponent.toNat '0' ++ ['.', '0']
  else if 0 < point then digits.take point.toNat ++ '.' :: digits.drop point.toNat
  else '0' :: '.' :: List.replicate (-point).toNat '0' ++ digits

/-- A numeral with an exponent: one digit, the others after a point, then the signed power. -/
def scientificChars (digits : List Char) (place : Int) : List Char :=
  let power := (if place < 0 then '-' else '+') :: digitChars place.natAbs
  match digits with
  | [] => []
  | [d] => d :: 'e' :: power
  | d :: rest => d :: '.' :: rest ++ 'e' :: power

def Scientific.chars (layout : Layout) (d : Scientific) : List Char :=
  let digits := digitChars d.digits
  let place : Int := digits.length + d.exponent - 1
  if layout.leastPlace ≤ place && place ≤ layout.greatestPlace then plainChars digits d.exponent
  else scientificChars digits place

/-- The text of a finite number: the shortest digits that read back the same. -/
def floatChars (x : Float) : List Char :=
  let bits := x.toBits
  let magnitude := Dyadic.ofBits bits
  let sign := if bits >>> 63 = 0 then [] else ['-']
  let body := if magnitude.m = 0 then ['0', '.', '0'] else magnitude.shortest.chars .standard
  sign ++ body

def intChars (n : Int) : List Char :=
  if n < 0 then '-' :: digitChars n.natAbs else digitChars n.natAbs

end Telemetry.Decimal
