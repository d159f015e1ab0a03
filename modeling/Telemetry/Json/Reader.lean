import Telemetry.Decimal.Numeral

/-!
# Reading JSON

From a text to its syntax.  What the parts of a text mean is for the decoders to say.
-/

namespace Telemetry.Json

/-! ### Syntax of a JSON text

A text that follows the grammar, before it is given a meaning.  Numerals are kept as they are
written, fields in their order and with their repetitions.  A string may name code units that make
up no text; such a string is well-formed but has no value, and neither has a part that nobody asks
for.
-/

/-- One unit of a string: a character as it stands, or a number given by an escape. -/
inductive Piece where
  | plain (c : Char)
  | unit (n : Nat)
deriving DecidableEq, Repr

/-- The characters a row of pieces stands for; a lone half of a pair stands for none. -/
def Piece.join? : List Piece → Option (List Char)
  | [] => some []
  | .plain c :: rest => (Piece.join? rest).map (c :: ·)
  | .unit n :: rest =>
    if n < 0xD800 || 0xDFFF < n then (Piece.join? rest).map (Char.ofNat n :: ·)
    else
      match rest with
      | .unit m :: rest' =>
        if n ≤ 0xDBFF && 0xDC00 ≤ m && m ≤ 0xDFFF then
          (Piece.join? rest').map
            (Char.ofNat (0x10000 + (n - 0xD800) * 0x400 + (m - 0xDC00)) :: ·)
        else none
      | _ => none

/-- A JSON text by its syntax. -/
inductive Tree where
  | null
  | bool (b : Bool)
  | number (n : Decimal.Numeral)
  | text (pieces : List Piece)
  | list (items : List Tree)
  | record (fields : List (List Piece × Tree))
deriving Inhabited, Repr

/-! ### Reading JSON text

A reader takes a prefix off a list of characters.  Values nest, so the reader of values carries a
bound on the steps left; the length of the text is always enough, and `Tree.read?` supplies it.
-/

open Telemetry.Decimal

/-- Blanks between tokens: space, tab, line feed and carriage return. -/
def isBlank (c : Char) : Bool := c == ' ' || c == '\n' || c == '\t' || c == '\r'

def skipBlanks (cs : List Char) : List Char := cs.dropWhile isBlank

def hexValue? (c : Char) : Option Nat :=
  let n := c.toNat
  if '0' ≤ c && c ≤ '9' then some (n - 48)
  else if 'a' ≤ c && c ≤ 'f' then some (n - 87)
  else if 'A' ≤ c && c ≤ 'F' then some (n - 55)
  else none

/-- The piece that a one-letter escape stands for. -/
def shortEscape? (c : Char) : Option Piece :=
  match c with
  | '"' => some (.plain '"')
  | '\\' => some (.plain '\\')
  | '/' => some (.plain '/')
  | 'b' => some (.plain '\x08')
  | 'f' => some (.plain '\x0c')
  | 'n' => some (.plain '\n')
  | 'r' => some (.plain '\r')
  | 't' => some (.plain '\t')
  | _ => none

/-- The rest of a string after its opening quote, up to and with the closing one. -/
def readString : List Char → Option (List Piece × List Char)
  | [] => none
  | '"' :: rest => some ([], rest)
  | '\\' :: 'u' :: a :: b :: c :: d :: rest => do
    let a ← hexValue? a
    let b ← hexValue? b
    let c ← hexValue? c
    let d ← hexValue? d
    let (pieces, rest) ← readString rest
    some (.unit (((a * 16 + b) * 16 + c) * 16 + d) :: pieces, rest)
  | '\\' :: e :: rest => do
    let piece ← shortEscape? e
    let (pieces, rest) ← readString rest
    some (piece :: pieces, rest)
  | c :: rest =>
    if c.toNat < 32 || c == '\\' then none
    else do
      let (pieces, rest) ← readString rest
      some (.plain c :: pieces, rest)

/-- The digits of an exponent with its sign; `true` stands for a negative one. -/
def readExponent (cs : List Char) : Option ((Bool × List Char) × List Char) :=
  let (down, cs) :=
    match cs with
    | '-' :: r => (true, r)
    | '+' :: r => (false, r)
    | r => (false, r)
  let (digits, rest) := spanDigits cs
  if digits.isEmpty then none else some ((down, digits), rest)

/-- What follows the whole part of a numeral. -/
def readFraction (cs : List Char) : Option (Option (List Char) × List Char) :=
  match cs with
  | '.' :: r =>
    let (digits, rest) := spanDigits r
    if digits.isEmpty then none else some (some digits, rest)
  | r => some (none, r)

/-- A numeral without its sign. A leading zero stands alone. -/
def readNumeral (negative : Bool) (cs : List Char) : Option (Numeral × List Char) := do
  let (whole, rest) := spanDigits cs
  if whole.isEmpty || (whole.head? == some '0' && 1 < whole.length) then none
  else
    let (fraction, rest) ← readFraction rest
    match rest with
    | 'e' :: r | 'E' :: r =>
      let (exponent, rest) ← readExponent r
      some (⟨negative, whole, fraction, some exponent⟩, rest)
    | r => some (⟨negative, whole, fraction, none⟩, r)

mutual
/-- One value, after leading blanks. -/
def readValue : Nat → List Char → Option (Tree × List Char)
  | 0, _ => none
  | fuel + 1, cs =>
    match skipBlanks cs with
    | 'n' :: 'u' :: 'l' :: 'l' :: r => some (.null, r)
    | 't' :: 'r' :: 'u' :: 'e' :: r => some (.bool true, r)
    | 'f' :: 'a' :: 'l' :: 's' :: 'e' :: r => some (.bool false, r)
    | '"' :: r => do
      let (pieces, r) ← readString r
      some (.text pieces, r)
    | '[' :: r =>
      match skipBlanks r with
      | ']' :: r => some (.list [], r)
      | r => do
        let (items, r) ← readItems fuel r
        some (.list items, r)
    | '\x7b' :: r =>
      match skipBlanks r with
      | '\x7d' :: r => some (.record [], r)
      | r => do
        let (fields, r) ← readFields fuel r
        some (.record fields, r)
    | '-' :: r => do
      let (n, r) ← readNumeral true r
      some (.number n, r)
    | r => do
      let (n, r) ← readNumeral false r
      some (.number n, r)
/-- The items of an array up to its closing bracket, at least one. -/
def readItems : Nat → List Char → Option (List Tree × List Char)
  | 0, _ => none
  | fuel + 1, cs => do
    let (item, r) ← readValue fuel cs
    match skipBlanks r with
    | ',' :: r =>
      let (items, r) ← readItems fuel r
      some (item :: items, r)
    | ']' :: r => some ([item], r)
    | _ => none
/-- The fields of an object up to its closing brace, at least one. -/
def readFields : Nat → List Char → Option (List (List Piece × Tree) × List Char)
  | 0, _ => none
  | fuel + 1, cs =>
    match skipBlanks cs with
    | '"' :: r => do
      let (key, r) ← readString r
      match skipBlanks r with
      | ':' :: r =>
        let (value, r) ← readValue fuel r
        match skipBlanks r with
        | ',' :: r =>
          let (fields, r) ← readFields fuel r
          some ((key, value) :: fields, r)
        | '\x7d' :: r => some ([(key, value)], r)
        | _ => none
      | _ => none
    | _ => none
end

/-- The syntax of a whole text: one value and nothing but blanks around it. -/
def Tree.ofChars? (cs : List Char) : Option Tree :=
  match readValue (cs.length + 1) cs with
  | some (tree, rest) => if (skipBlanks rest).isEmpty then some tree else none
  | none => none

def Tree.read? (text : String) : Option Tree := Tree.ofChars? text.toList

end Telemetry.Json
