import Telemetry.Json.Printer
import Telemetry.Json.Reader
import Telemetry.KeyMap

/-!
# Decoding

From the syntax of a text to a value of a type.  A decoder is given the number of levels it may
still open: a text may nest 127 containers where it is really decoded, and any number where it is
skipped.

A structure is given as an object, in any order of its fields and with foreign ones between them, or
as an array of its fields in order.  A choice without data is its name, or an object of that name
and `null`; a choice with data is an object of its name and the data.
-/

namespace Telemetry.Json

/-- Decodes a syntax tree with a number of levels left. -/
abbrev Decoder (α : Type) := Nat → Tree → Option α

/-- The levels a text may open. -/
def levels : Nat := 128

def descend (level : Nat) : Option Nat := if level ≤ 1 then none else some (level - 1)

/-- A whole text decoded. -/
def decode {α : Type} (decoder : Decoder α) (text : String) : Option α :=
  (Tree.read? text).bind (decoder levels)

namespace Decoder

variable {α β : Type}

def string : Decoder String
  | _, .text pieces => (Piece.join? pieces).map String.ofList
  | _, _ => none

def bool : Decoder Bool
  | _, .bool b => some b
  | _, _ => none

/-- An integer between two bounds. -/
def intBetween (low high : Int) : Decoder Int
  | _, .number n => n.integer?.filter fun i => decide (low ≤ i) && decide (i ≤ high)
  | _, _ => none

def int64 : Decoder Int := intBetween Int64.minValue.toInt Int64.maxValue.toInt

def natBelow (bound : Nat) : Decoder Nat := fun level t =>
  (intBetween 0 ((bound : Int) - 1) level t).map Int.toNat

def nat32 : Decoder Nat := natBelow UInt32.size

def nat64 : Decoder Nat := natBelow UInt64.size

/-- `null` stands for nothing. -/
def optional (decoder : Decoder α) : Decoder (Option α)
  | _, .null => some none
  | level, t => (decoder level t).map some

def list (decoder : Decoder α) : Decoder (List α)
  | level, .list items => do
    let level ← descend level
    items.mapM (decoder level)
  | _, _ => none

/-- An object as a map; of several values for one key the last one stays. -/
def keyMap (decoder : Decoder α) : Decoder (KeyMap α)
  | level, .record fields => do
    let level ← descend level
    let entries ← fields.mapM fun f => do
      let key ← Piece.join? f.1
      let value ← decoder level f.2
      some (String.ofList key, value)
    some (KeyMap.ofList entries)
  | _, _ => none

/-- A choice among names without data. -/
def choice (parse : String → Option α) : Decoder α
  | level, .text pieces => (string level (.text pieces)).bind parse
  | level, .record [(key, .null)] => do
    let _ ← descend level
    let name ← Piece.join? key
    parse (String.ofList name)
  | _, _ => none

/-- The fields of a structure that were given. -/
structure Slots where
  level : Nat
  given : List (String × Tree)

/-- The given fields among `names`. A field that comes twice is refused, so is an array with more
items than there are fields. -/
def slots (names : List String) : Decoder Slots
  | level, .record fields => do
    let level ← descend level
    let named ← fields.mapM fun f => (Piece.join? f.1).map fun k => (String.ofList k, f.2)
    let known := named.filter fun f => names.contains f.1
    if (known.map (·.1)).Nodup then some ⟨level, known⟩ else none
  | level, .list items => do
    let level ← descend level
    if items.length ≤ names.length then some ⟨level, names.zip items⟩ else none
  | _, _ => none

def Slots.find? (s : Slots) (name : String) : Option Tree :=
  (s.given.find? fun f => f.1 == name).map (·.2)

def Slots.required (s : Slots) (name : String) (decoder : Decoder α) : Option α :=
  (s.find? name).bind (decoder s.level)

/-- A field that has a value when it is not given. -/
def Slots.defaulting (s : Slots) (name : String) (decoder : Decoder α) (value : α) : Option α :=
  match s.find? name with
  | none => some value
  | some t => decoder s.level t

mutual
/-- Any JSON value. Objects come out in key order. -/
def json (level : Nat) : Tree → Option Json
  | .null => some .null
  | .bool b => some (.bool b)
  | .number n =>
    match n.integer? with
    | some i => some (.int i)
    | none => n.scaled?.map .float
  | .text pieces => (Piece.join? pieces).map fun cs => .str (String.ofList cs)
  | .list items =>
    match descend level with
    | none => none
    | some level => (jsonItems level items).map .arr
  | .record fields =>
    match descend level with
    | none => none
    | some level => (jsonFields level fields).map fun fs => .obj (KeyMap.ofList fs).entries
def jsonItems (level : Nat) : List Tree → Option (List Json)
  | [] => some []
  | t :: ts => do
    let v ← json level t
    let vs ← jsonItems level ts
    some (v :: vs)
def jsonFields (level : Nat) : List (List Piece × Tree) → Option (List (String × Json))
  | [] => some []
  | (k, t) :: fs => do
    let k ← Piece.join? k
    let v ← json level t
    let vs ← jsonFields level fs
    some ((String.ofList k, v) :: vs)
end

end Decoder

end Telemetry.Json
