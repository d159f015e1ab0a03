/-!
# Paths

A path as it is written: whether it begins at the root, and its names.  Names stand between single
slashes, so that a doubled slash or one at the end leaves an empty name.  Nothing is lost:
`Path.text` gives back the text that `Path.ofText` read.

Empty names and `.` are idle: they lead nowhere.  Idle names at the end do not count when one asks
for the last name of a path or for what stands above it, but a `.` that begins a path is kept.
-/

namespace Telemetry

/-- A path as it is written. -/
structure Path where
  /-- Does the path begin at the root? -/
  rooted : Bool
  /-- What stands between the slashes. -/
  names : List String
deriving DecidableEq, Repr

namespace Path

/-! ### Texts -/

/-- Cuts a text at its slashes. -/
def splitNames : List Char → List (List Char)
  | [] => [[]]
  | c :: cs =>
    if c = '/' then [] :: splitNames cs
    else
      match splitNames cs with
      | [] => [[c]]
      | name :: names => (c :: name) :: names

/-- Joins names by slashes. -/
def joinNames : List (List Char) → List Char
  | [] => []
  | [name] => name
  | name :: names => name ++ '/' :: joinNames names

def ofText (text : String) : Path :=
  match text.toList with
  | '/' :: cs => ⟨true, (splitNames cs).map String.ofList⟩
  | cs => ⟨false, (splitNames cs).map String.ofList⟩

def text (p : Path) : String :=
  let names := joinNames (p.names.map String.toList)
  String.ofList (if p.rooted then '/' :: names else names)

theorem splitNames_ne_nil : (cs : List Char) → splitNames cs ≠ []
  | [] => by simp [splitNames]
  | c :: cs => by
    unfold splitNames
    split
    · simp
    · split <;> simp

theorem joinNames_splitNames (cs : List Char) : joinNames (splitNames cs) = cs := by
  induction cs with
  | nil => rfl
  | cons c cs ih =>
    unfold splitNames
    split
    · next h =>
      cases hs : splitNames cs with
      | nil => exact absurd hs (splitNames_ne_nil cs)
      | cons name names => simp [joinNames, ← hs, ih, h]
    · split
      · next hs => exact absurd hs (splitNames_ne_nil cs)
      · next name names hs =>
        rw [hs] at ih
        cases names <;> simp_all [joinNames]

/-- Writing a path gives back what was read. -/
theorem text_ofText (s : String) : (ofText s).text = s := by
  have toList_ofList : String.toList ∘ String.ofList = id := funext fun _ => String.toList_ofList
  unfold ofText text
  split
  · next cs h =>
    simp only [List.map_map, toList_ofList, List.map_id, joinNames_splitNames, if_true]
    rw [← h, String.ofList_toList]
  · simp only [List.map_map, toList_ofList, List.map_id, joinNames_splitNames]
    exact String.ofList_toList

/-! ### Names -/

/-- A name that leads nowhere. -/
def isIdle (name : String) : Bool := name = "" || name = "."

/-- A list of names without the idle ones at its end. -/
def trimNames (names : List String) : List String := (names.reverse.dropWhile isIdle).reverse

/-- The path without the idle names at its end; a `.` that begins it stays. -/
def trim (p : Path) : Path :=
  match p.rooted, p.names with
  | false, "." :: names => { p with names := "." :: trimNames names }
  | _, names => { p with names := trimNames names }

/-- What stands above a path, if it has names at all. -/
def parent? (p : Path) : Option Path :=
  let p := p.trim
  if p.names.isEmpty then none else some { p with names := p.names.dropLast }.trim

/-- The last name of a path, unless that leads up or nowhere. -/
def fileName? (p : Path) : Option String :=
  p.trim.names.getLast?.filter fun name => name != "." && name != ".."

def isEmpty (p : Path) : Bool := p.text.isEmpty

/-- A path continued by another one, which is all that counts if it begins at the root. -/
def join (p q : Path) : Path :=
  if q.rooted then q
  else if p.isEmpty then q
  else
    match p.names.getLast? with
    | some "" => { p with names := p.names.dropLast ++ q.names }
    | _ => { p with names := p.names ++ q.names }

/-- The path and all above it, upwards; the root and the empty path are left out. `fuel` bounds
their number. -/
def ancestorsUpTo : Nat → Path → List Path
  | 0, _ => []
  | fuel + 1, p =>
    if p.isEmpty then []
    else
      match p.parent? with
      | none => []
      | some above => p :: ancestorsUpTo fuel above

/-- The path and all above it, upwards; the root and the empty path are left out. -/
def ancestors (p : Path) : List Path := p.ancestorsUpTo (p.names.length + 1)

/-! ### Extensions -/

/-- A name in front of its last dot, and what follows the dot. A dot that begins a name begins no
extension. -/
def splitExtension (name : String) : String × Option String :=
  let parts := (name.toList.splitOn '.').map String.ofList
  let stem := ".".intercalate parts.dropLast
  if stem.isEmpty then (name, none) else (stem, parts.getLast?)

/-- The path with the extension of its last name replaced. Where cutting the extension off leaves
the way up, that is the path. -/
def withExtension (p : Path) (extension : String) : Path :=
  match p.fileName? with
  | none => p
  | some name =>
    let (stem, _) := splitExtension name
    let above := p.trim.names.dropLast
    if stem = "." && p == p.trim then { p with names := above ++ [".."] }
    else { p with names := above ++ [s!"{stem}.{extension}"] }

end Path

end Telemetry
