import Telemetry.Decimal.Shortest
import Telemetry.Store.Numeral

/-!
# Cells

A stored cell, as someone finds it who looks at a table from outside: nothing, an integer, a number
or a text.  Every column has a leaning: what is put into it is turned into the kind of the column
where nothing is lost by that, and kept as it is otherwise.  So a column may hold a cell of the wrong
kind, and reading it then fails.

Cells are compared exactly, an integer with a number as well: no integer is rounded for that.
-/

namespace Telemetry

inductive Cell where
  | null
  | int (n : Int)
  | real (x : Float)
  | text (s : String)
deriving Repr

/-- What a column leans to. -/
inductive Leaning where
  | text
  | integer
  | real
deriving DecidableEq, Repr

namespace Cell

def same : Cell → Cell → Bool
  | .null, .null => true
  | .int a, .int b => a == b
  | .real a, .real b => a.toBits == b.toBits
  | .text a, .text b => a == b
  | _, _ => false

def isNull : Cell → Bool
  | .null => true
  | _ => false

def ofOption {α : Type} (f : α → Cell) : Option α → Cell
  | none => .null
  | some a => f a

/-! ### Putting a cell into a column -/

/-- The greatest number that is taken for an integer where it is one. -/
def greatestIntegral : Float := 9223372036854774784.0

/-- A number without fraction as an integer. -/
def integral : Cell → Cell
  | .real x =>
    let d := Decimal.Dyadic.ofBits x.toBits
    if x.abs ≤ greatestIntegral && d.isIntegral then
      .int (if x < 0.0 then -(d.floor : Int) else d.floor)
    else .real x
  | c => c

/-- The number that a text is. -/
def numeral? (s : String) : Option Cell :=
  let n := StoredNumeral.ofText s
  match n.extent with
  | .integer => some (n.integer?.elim (.real n.toFloat) .int)
  | .whole => some (.real n.toFloat)
  | .beginning | .digits => none

/-- The cell that stays in a column. -/
def leaned : Leaning → Cell → Cell
  | .text, .int n => .text (String.ofList (Decimal.intChars n))
  | .text, .real x => .text (String.ofList (Decimal.floatChars x))
  | .integer, .text s => (numeral? s).elim (.text s) integral
  | .integer, .real x => integral (.real x)
  | .real, .int n => .real (Float.ofInt n)
  | .real, .text s =>
    match (numeral? s).map integral with
    | some (.int n) => .real (Float.ofInt n)
    | some c => c
    | none => .text s
  | _, c => c

/-! ### Comparing cells

Numbers come before texts; nothing comes before all, but is neither above nor below anything. -/

/-- The greatest integer that is not above a finite number. -/
def floorOf (x : Float) : Int :=
  let d := Decimal.Dyadic.ofBits x.toBits
  if x < 0.0 then -(d.floor : Int) - (if d.isIntegral then 0 else 1) else d.floor

/-- An integer compared with a number. -/
def compareIntReal (n : Int) (x : Float) : Ordering :=
  if x.isInf then (if x > 0.0 then .lt else .gt)
  else
    let d := Decimal.Dyadic.ofBits x.toBits
    (compare n (floorOf x)).then (if d.isIntegral then .eq else .lt)

/-- The order of cells. -/
def order : Cell → Cell → Ordering
  | .null, .null => .eq
  | .null, _ => .lt
  | _, .null => .gt
  | .int a, .int b => compare a b
  | .int a, .real b => compareIntReal a b
  | .real a, .int b => (compareIntReal b a).swap
  | .real a, .real b => if a < b then .lt else if b < a then .gt else .eq
  | .text a, .text b => compare a b
  | .text _, _ => .gt
  | _, .text _ => .lt

/-- The first cell is at most the second. -/
def atMost (a b : Cell) : Bool := !a.isNull && !b.isNull && a.order b != .gt

/-- The first cell is below the second. -/
def below (a b : Cell) : Bool := !a.isNull && !b.isNull && a.order b == .lt

/-- Integers are compared as such. -/
theorem atMost_int (a b : Int) : (Cell.int a).atMost (.int b) = decide (a ≤ b) := by
  show (true && true && compare a b != .gt) = decide (a ≤ b)
  rw [Bool.eq_iff_iff]
  simp [← Std.isLE_compare, Ordering.isLE_iff_ne_gt]

/-- Integers are compared as such. -/
theorem below_int (a b : Int) : (Cell.int a).below (.int b) = decide (a < b) := by
  show (true && true && compare a b == .lt) = decide (a < b)
  rw [Bool.eq_iff_iff]
  simp [Std.compare_eq_lt]

/-! ### Calculating with cells -/

/-- What a cell is as a number: a text counts as the number that it begins with. -/
def counted : Cell → Cell
  | .text s =>
    let n := StoredNumeral.ofText s
    match n.extent with
    | .integer | .digits => n.integer?.elim (.real n.toFloat) .int
    | .whole | .beginning => .real n.toFloat
  | c => c

def toFloat : Cell → Float
  | .int n => Float.ofInt n
  | .real x => x
  | _ => 0.0

/-- The difference of two cells. Where 64 bits do not hold the difference of integers, it is that of
floats. -/
def minus (a b : Cell) : Cell :=
  if a.isNull || b.isNull then .null
  else
    let difference :=
      match a.counted, b.counted with
      | .int m, .int n => if fitsInt64 (m - n) then Cell.int (m - n) else .real (Float.ofInt m - Float.ofInt n)
      | x, y => .real (x.toFloat - y.toFloat)
    match difference with
    | .real x => if x.isNaN then .null else difference
    | _ => difference

/-! ### Reading a cell -/

def asText? : Cell → Option String
  | .text s => some s
  | _ => none

def asInt? : Cell → Option Int
  | .int n => some n
  | _ => none

/-- A number; integers are numbers. -/
def asNumber? : Cell → Option Float
  | .int n => some (Float.ofInt n)
  | .real x => some x
  | _ => none

/-- A truth value: every integer but zero is true. -/
def asBool? (c : Cell) : Option Bool := c.asInt?.map (· != 0)

/-- An integer of 32 bits without sign. -/
def asNat32? (c : Cell) : Option Nat :=
  (c.asInt?.filter fun n : Int => 0 ≤ n && n < UInt32.size).map Int.toNat

/-- Nothing, or what is read. -/
def optional? {α : Type} (read : Cell → Option α) : Cell → Option (Option α)
  | .null => some none
  | c => (read c).map some

end Cell

end Telemetry
