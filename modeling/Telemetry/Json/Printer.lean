import Telemetry.Decimal.Shortest

/-!
# Writing JSON

The values that are written, and their text: compact, without any blank, or indented by two blanks a
level with every item on a line of its own.
-/

namespace Telemetry

/-! ### JSON values

The values that are written.  An object keeps the order in which its fields are given; maps are
given in the order of their keys.  Integers and floating numbers are told apart, as their texts are.
-/

inductive Json where
  | null
  | bool (b : Bool)
  | int (n : Int)
  | float (x : Float)
  | str (s : String)
  | arr (items : List Json)
  | obj (fields : List (String × Json))
deriving Inhabited, Repr

namespace Json

/-- An optional value; nothing is written as `null`. -/
def ofOption {α : Type} (f : α → Json) : Option α → Json
  | none => .null
  | some a => f a

/-- A field that is left out when there is nothing to write. -/
def optionalField {α : Type} (key : String) (f : α → Json) : Option α → List (String × Json)
  | none => []
  | some a => [(key, f a)]

def strings (xs : List String) : Json := .arr (xs.map .str)

def asNumber? : Json → Option Float
  | .int n => some (Float.ofInt n)
  | .float x => if x.isFinite then some x else none
  | _ => none

end Json

/-! ### JSON text

Two forms of one value: compact, without any blank, and indented by two blanks a level with every
item on a line of its own.  Empty arrays and objects stay on one line in both.

A number that is not finite has no JSON text and is written `null`.
-/

namespace Json

def hexDigit (n : Nat) : Char := (Nat.toDigits 16 (n % 16)).headD '0'

/-- One character inside a JSON string: quotes, backslashes and control characters are escaped. -/
def escapeChar (c : Char) : List Char :=
  if c = '"' then ['\\', '"']
  else if c = '\\' then ['\\', '\\']
  else if c = '\x08' then ['\\', 'b']
  else if c = '\t' then ['\\', 't']
  else if c = '\n' then ['\\', 'n']
  else if c = '\x0c' then ['\\', 'f']
  else if c = '\r' then ['\\', 'r']
  else if c.toNat < 32 then ['\\', 'u', '0', '0', hexDigit (c.toNat / 16), hexDigit c.toNat]
  else [c]

def stringChars (s : String) : List Char := '"' :: s.toList.flatMap escapeChar ++ ['"']

def numberChars (x : Float) : List Char :=
  if x.isFinite then Decimal.floatChars x else "null".toList

mutual
def chars : Json → List Char
  | .null => "null".toList
  | .bool true => "true".toList
  | .bool false => "false".toList
  | .int n => Decimal.intChars n
  | .float x => numberChars x
  | .str s => stringChars s
  | .arr [] => ['[', ']']
  | .arr (x :: xs) => '[' :: chars x ++ itemsChars xs
  | .obj [] => ['\x7b', '\x7d']
  | .obj ((k, v) :: fs) => '\x7b' :: stringChars k ++ ':' :: chars v ++ fieldsChars fs
/-- The items after the first, and the closing bracket. -/
def itemsChars : List Json → List Char
  | [] => [']']
  | x :: xs => ',' :: chars x ++ itemsChars xs
/-- The fields after the first, and the closing brace. -/
def fieldsChars : List (String × Json) → List Char
  | [] => ['\x7d']
  | (k, v) :: fs => ',' :: stringChars k ++ ':' :: chars v ++ fieldsChars fs
end

/-- A new line, indented to a level. -/
def newline (level : Nat) : List Char := '\n' :: List.replicate (2 * level) ' '

mutual
/-- The indented form, inside `level` levels. -/
def prettyChars (level : Nat) : Json → List Char
  | .arr (x :: xs) => '[' :: newline (level + 1) ++ prettyChars (level + 1) x ++ prettyItems level xs
  | .obj ((k, v) :: fs) =>
    '\x7b' :: newline (level + 1) ++ stringChars k ++ ':' :: ' ' :: prettyChars (level + 1) v
      ++ prettyFields level fs
  | v => chars v
/-- The items after the first, each on its own line. -/
def prettyItems (level : Nat) : List Json → List Char
  | [] => newline level ++ [']']
  | x :: xs => ',' :: newline (level + 1) ++ prettyChars (level + 1) x ++ prettyItems level xs
/-- The fields after the first, each on its own line. -/
def prettyFields (level : Nat) : List (String × Json) → List Char
  | [] => newline level ++ ['\x7d']
  | (k, v) :: fs =>
    ',' :: newline (level + 1) ++ stringChars k ++ ':' :: ' ' :: prettyChars (level + 1) v
      ++ prettyFields level fs
end

def compact (v : Json) : String := String.ofList v.chars

def pretty (v : Json) : String := String.ofList (prettyChars 0 v)

end Json

end Telemetry
