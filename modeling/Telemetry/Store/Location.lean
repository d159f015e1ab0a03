import Telemetry.Files

/-!
# Where a store is kept

A store is named by a text.  Mostly that is the path of its file; the name `:memory:` stands for a
store that is not kept at all.  A text that begins with `file:` is a locator: an optional authority,
a path, and after a question mark options, all with escapes of the form `%41`.  What follows a `#`
does not count.

Of the options, `mode` says what may be done with the file; `cache` has to be known, and so has `vfs`,
the system that the file is kept by; `nolock` says that the file is not shared with anyone, and
`immutable` that nobody changes it.  Any other option is passed over.

A locator without a path names a store that is not kept.
-/

namespace Telemetry

/-- What may be done with the file of a store. -/
inductive StoreAccess where
  /-- The file is there and is not changed. -/
  | reading
  /-- The file is there. -/
  | changing
  /-- The file is created where it is missing. -/
  | creating
deriving DecidableEq, Repr

/-- The file of a store. -/
structure StoreFile where
  path : Path
  access : StoreAccess
  /-- Can several users share the file? Only then are changes of it logged. -/
  shared : Bool
  /-- Is the file taken for one that nobody changes? -/
  fixed : Bool
deriving DecidableEq, Repr

def StoreFile.readOnly (f : StoreFile) : Bool := f.access = .reading || f.fixed

/-- Where a store is kept. -/
inductive StoreLocation where
  | nowhere (readOnly : Bool)
  | file (file : StoreFile)
deriving DecidableEq, Repr

namespace StoreLocation

/-! ### Locators -/

def hexValue? (b : UInt8) : Option UInt8 :=
  if 48 ≤ b && b ≤ 57 then some (b - 48)
  else if 65 ≤ b && b ≤ 70 then some (b - 55)
  else if 97 ≤ b && b ≤ 102 then some (b - 87)
  else none

/-- Resolves the escapes in a part of a locator. An escaped zero ends the part. -/
def unescape : List UInt8 → List UInt8
  | 37 :: a :: b :: rest =>
    match hexValue? a, hexValue? b with
    | some x, some y =>
      let octet := x * 16 + y
      if octet = 0 then [] else octet :: unescape rest
    | _, _ => 37 :: unescape (a :: b :: rest)
  | b :: rest => b :: unescape rest
  | [] => []

def partText (bytes : List UInt8) : String :=
  (String.fromUTF8? (ByteArray.mk (unescape bytes).toArray)).getD ""

/-- What stands before the first byte of a kind, and what stands after it. -/
def cutAt (mark : Char) (bytes : List UInt8) : List UInt8 × List UInt8 :=
  let isMark (b : UInt8) : Bool := b.toNat == mark.toNat
  (bytes.takeWhile fun b => !isMark b, (bytes.dropWhile fun b => !isMark b).drop 1)

/-- Cuts at every byte of a kind. -/
def pieces (mark : Char) : List UInt8 → List (List UInt8)
  | [] => [[]]
  | b :: rest =>
    if b.toNat == mark.toNat then [] :: pieces mark rest
    else
      match pieces mark rest with
      | [] => [[b]]
      | piece :: more => (b :: piece) :: more

/-- The options of a locator: names and values. An option without a name does not count. -/
def optionsOf (bytes : List UInt8) : List (String × String) :=
  ((pieces '&' bytes).map fun piece =>
    let (name, value) := cutAt '=' piece
    (partText name, partText value)).filter fun o => o.1 != ""

/-- How a store is opened: with its file, under one of three ranks, or without one. -/
inductive Mode where
  | reading
  | changing
  | creating
  | memory
deriving DecidableEq, Repr

def Mode.ofName? : String → Option Mode
  | "ro" => some .reading
  | "rw" => some .changing
  | "rwc" => some .creating
  | "memory" => some .memory
  | _ => none

/-- A later mode may not allow more than the one before it. -/
def Mode.rank : Mode → Nat
  | .reading => 1
  | .changing => 2
  | .creating => 3
  | .memory => 4

/-- Takes an option into account. The result has the mode and the name of the file system. -/
def takeOption (state : Mode × String) (option : String × String) : Except String (Mode × String) :=
  let (mode, system) := state
  let (name, value) := option
  if name = "vfs" then .ok (mode, value)
  else if name = "cache" then
    if value = "shared" || value = "private" then .ok state
    else .error s!"no such cache mode: {value}"
  else if name = "mode" then
    match Mode.ofName? value with
    | none => .error s!"no such access mode: {value}"
    | some asked =>
      if asked = .memory || asked.rank ≤ mode.rank then .ok (asked, system)
      else .error s!"access mode not allowed: {value}"
  else .ok state

/-- Is a switch on? Its value is one of three words, or begins with digits: these make a signed number
of 32 bits whose last byte is not zero. -/
def isOn (value : String) : Bool :=
  match value.toList.takeWhile Char.isDigit with
  | [] => ["on", "yes", "true"].contains value.toLower
  | digits =>
    let n := digits.foldl (fun n c => 10 * n + (c.toNat - 48)) 0
    decide (n < Int32.size / 2) && n % 256 != 0

/-- Is an option a switch that is on? Its first value counts. -/
def isSwitchedOn (options : List (String × String)) (name : String) : Bool :=
  ((options.find? fun o => o.1 == name).map fun o => isOn o.2).getD false

/-- The file systems whose files can be shared. -/
def sharingSystems : List String := ["unix", "unix-excl"]

/-- The other file systems that keep files. -/
def lonelySystems : List String := ["unix-none", "unix-dotfile"]

/-- The system that keeps no files. -/
def memorySystem : String := "memdb"

/-- The location of a path that is opened in a mode. -/
def ofPathText (text : String) (mode : Mode) (shared fixed : Bool) : StoreLocation :=
  if text = "" || text = ":memory:" then .nowhere (mode = .reading)
  else
    match mode with
    | .reading => .file ⟨.ofText text, .reading, shared, fixed⟩
    | .changing => .file ⟨.ofText text, .changing, shared, fixed⟩
    | .creating => .file ⟨.ofText text, .creating, shared, fixed⟩
    | .memory => .nowhere false

/-- A locator without the scheme: the authority has to be empty or `localhost`. -/
def afterAuthority (bytes : List UInt8) : Except String (List UInt8) :=
  match bytes with
  | 47 :: 47 :: rest =>
    let authority := rest.takeWhile (· != 47)
    let name := (String.fromUTF8? (ByteArray.mk authority.toArray)).getD ""
    if name = "" || name = "localhost" then .ok (rest.drop authority.length)
    else .error s!"invalid uri authority: {name}"
  | _ => .ok bytes

def ofLocator (bytes : List UInt8) : Except String StoreLocation := do
  let bytes ← afterAuthority bytes
  let (bytes, _) := cutAt '#' bytes
  let (path, options) := cutAt '?' bytes
  let options := optionsOf options
  let (mode, system) ← options.foldlM takeOption (.creating, "unix")
  let path := partText path
  let fixed := isSwitchedOn options "immutable"
  if system = memorySystem then
    .ok (.nowhere (mode = .reading || (fixed && mode != .memory && path != "" && path != ":memory:")))
  else if !(sharingSystems ++ lonelySystems).contains system then .error s!"no such vfs: {system}"
  else
    let shared := sharingSystems.contains system && !isSwitchedOn options "nolock"
    .ok (ofPathText path mode shared fixed)

/-- The location that a text names. -/
def ofText (text : String) : Except String StoreLocation :=
  if text.startsWith "file:" then ofLocator (text.toUTF8.toList.drop 5)
  else .ok (ofPathText text .creating true false)

end StoreLocation

end Telemetry
