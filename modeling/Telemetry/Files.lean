import Telemetry.Failure
import Telemetry.Path

/-!
# Files

A tree of folders and files, as far as settings, exports and stores need one.  A place is the list of
names that lead to it from the root; the root is always there, every other place is listed with what
it holds.

A path is walked name by name.  Each name but the last asks for a folder to be there, the idle ones
and `..` as well; so `a/../b` needs a folder `a`, and `a/` is a folder or nothing.  What creates or
moves something looks at the last name apart: see `Files.ending`.

What a file holds is a text, or bytes that make no text.
-/

namespace Telemetry

/-- What a file holds: a text, or bytes that are none. -/
inductive FileContent where
  | text (s : String)
  | bytes (data : List UInt8)
deriving DecidableEq, Repr

def FileContent.ofBytes (data : ByteArray) : FileContent :=
  match String.fromUTF8? data with
  | some s => .text s
  | none => .bytes data.toList

/-- What is at a place. -/
inductive FileNode where
  | folder
  | file (content : FileContent)
deriving DecidableEq, Repr

/-- A place: the names that lead to it from the root. -/
abbrev Place := List String

/-- A tree of folders and files, as a list of its places. -/
structure Files where
  /-- The folder that paths begin in unless they begin at the root. -/
  current : Place
  nodes : List (Place × FileNode)
deriving Repr

instance : Inhabited Files := ⟨⟨[], []⟩⟩

/-- The place that a name leads to. -/
def Place.step (place : Place) (name : String) : Place :=
  if Path.isIdle name then place else if name = ".." then place.dropLast else place ++ [name]

def Place.path (place : Place) : Path := ⟨true, place⟩

/-- How a path ends: in a folder that needs no name of its own, or with a name, which may have
slashes after it. -/
inductive PathEnding where
  | folder
  | name (place : Place) (slashed : Bool)
deriving DecidableEq, Repr

namespace Files

/-! ### Finding -/

/-- The most bytes that a name has. -/
def longestName : Nat := 255

/-- More bytes than a path has. -/
def tooLongPath : Nat := 4096

def node? (fs : Files) (place : Place) : Option FileNode :=
  if place = [] then some .folder else (fs.nodes.find? fun e => e.1 == place).map (·.2)

/-- Where a path begins, if it can be followed at all. -/
def startOf (fs : Files) (p : Path) : Except FileFault Place :=
  let text := p.text
  if text.toList.contains '\x00' then .error .invalidPath
  else if text.isEmpty then .error .notFound
  else if tooLongPath ≤ text.utf8ByteSize then .error .nameTooLong
  else .ok (if p.rooted then [] else fs.current)

/-- Follows names from a place. -/
def walk (fs : Files) : Place → List String → Except FileFault Place
  | place, [] => .ok place
  | place, name :: names =>
    match fs.node? place with
    | none => .error .notFound
    | some (.file _) => .error .notAFolder
    | some .folder =>
      if longestName < name.utf8ByteSize then .error .nameTooLong
      else walk fs (place.step name) names

/-- The place of a path, whether or not something is there. -/
def locate (fs : Files) (p : Path) : Except FileFault Place := do
  fs.walk (← fs.startOf p) p.names

/-- What a path leads to. -/
def find (fs : Files) (p : Path) : Except FileFault FileNode := do
  match fs.node? (← fs.locate p) with
  | none => .error .notFound
  | some node => .ok node

def contains (fs : Files) (p : Path) : Bool :=
  match fs.find p with
  | .ok _ => true
  | .error _ => false

def isFolder (fs : Files) (p : Path) : Bool :=
  match fs.find p with
  | .ok .folder => true
  | _ => false

/-- How a path ends. The folder of its last name has to be there. -/
def ending (fs : Files) (p : Path) : Except FileFault PathEnding := do
  let start ← fs.startOf p
  let names := p.names.filter (· ≠ "")
  match names.getLast? with
  | none => .ok .folder
  | some last =>
    let folder ← fs.walk start (names.dropLast ++ [""])
    if last = "." || last = ".." then .ok .folder
    else .ok (.name (folder ++ [last]) (p.names.getLast? = some ""))

/-- What is listed for the place of a last name, if such a name can be. -/
def lastNode? (fs : Files) (place : Place) : Except FileFault (Option FileNode) :=
  if (place.getLast?.getD "").utf8ByteSize ≤ longestName then .ok (fs.node? place)
  else .error .nameTooLong

/-! ### Changing -/

def put (fs : Files) (place : Place) (node : FileNode) : Files :=
  { fs with nodes := fs.nodes.filter (fun e => e.1 != place) ++ [(place, node)] }

def drop (fs : Files) (place : Place) : Files :=
  { fs with nodes := fs.nodes.filter fun e => e.1 != place }

def createFolder (fs : Files) (p : Path) : Except FileFault Files := do
  match ← fs.ending p with
  | .folder => .error .alreadyExists
  | .name place _ =>
    match ← fs.lastNode? place with
    | some _ => .error .alreadyExists
    | none => .ok (fs.put place .folder)

/-- Creates a folder unless it is there. -/
def ensureFolder (fs : Files) (p : Path) : Except FileFault Files :=
  match fs.createFolder p with
  | .error .alreadyExists => if fs.isFolder p then .ok fs else .error .alreadyExists
  | r => r

/-- Creates the first folder, going upwards, that can be created or is there. The result has those
below it, downwards. -/
def createHighest (fs : Files) : List Path → Except FileFault (List Path × Files)
  | [] => .ok ([], fs)
  | p :: above =>
    match fs.ensureFolder p with
    | .ok fs => .ok ([], fs)
    | .error .notFound => (fs.createHighest above).map fun (missing, fs) => (missing ++ [p], fs)
    | .error fault => .error fault

/-- Creates folders one after the other, up to the first that fails. -/
def createEach (fs : Files) : List Path → Except FileFault Unit × Files
  | [] => (.ok (), fs)
  | p :: below =>
    match fs.ensureFolder p with
    | .ok fs => fs.createEach below
    | .error fault => (.error fault, fs)

/-- Creates a folder and all folders above it. -/
def createFolders (fs : Files) (p : Path) : Except FileFault Unit × Files :=
  match fs.createHighest p.ancestors with
  | .ok (missing, fs) => fs.createEach missing
  | .error fault => (.error fault, fs)

/-- The place where a file can be written. -/
def writable (fs : Files) (p : Path) : Except FileFault Place := do
  match ← fs.ending p with
  | .folder | .name _ true => .error .isAFolder
  | .name place false =>
    match ← fs.lastNode? place with
    | some .folder => .error .isAFolder
    | _ => .ok place

/-- Writes a file, in the stead of one that is there. -/
def write (fs : Files) (p : Path) (content : FileContent) : Except FileFault Files :=
  (fs.writable p).map fun place => fs.put place (.file content)

def read (fs : Files) (p : Path) : Except FileFault String := do
  match ← fs.find p with
  | .folder => .error .isAFolder
  | .file (.bytes _) => .error (.other "stream did not contain valid UTF-8")
  | .file (.text s) => .ok s

def text? (fs : Files) (p : Path) : Option String :=
  match fs.read p with
  | .ok text => some text
  | .error _ => none

def remove (fs : Files) (p : Path) : Except FileFault Files := do
  match ← fs.ending p with
  | .folder => .error .isAFolder
  | .name place slashed =>
    match ← fs.lastNode? place with
    | none => .error .notFound
    | some .folder => .error .isAFolder
    | some (.file _) => if slashed then .error .notAFolder else .ok (fs.drop place)

/-- The tree without a file, if that can be removed. -/
def discard (fs : Files) (p : Path) : Files :=
  match fs.remove p with
  | .ok fs => fs
  | .error _ => fs

def removeTree (fs : Files) (p : Path) : Except FileFault Files := do
  let place ← fs.locate p
  match ← fs.find p with
  | .file _ => .error .notAFolder
  | .folder => .ok { fs with nodes := fs.nodes.filter fun e => !place.isPrefixOf e.1 }

/-- Moves a file, over one that is there. -/
def rename (fs : Files) (source target : Path) : Except FileFault Files := do
  match ← fs.ending source, ← fs.ending target with
  | .name source sourceSlashed, .name target targetSlashed =>
    match ← fs.lastNode? source with
    | none => .error .notFound
    | some .folder => .error .isAFolder
    | some (.file content) =>
      let there ← fs.lastNode? target
      if sourceSlashed || targetSlashed then .error .notAFolder
      else if there = some .folder then .error .isAFolder
      else .ok ((fs.drop source).put target (.file content))
  | _, _ => .error .busy

def children (fs : Files) (p : Path) : List Place :=
  match fs.locate p with
  | .error _ => []
  | .ok place =>
    if fs.node? place = some .folder then
      (fs.nodes.map (·.1)).filter fun q => q.length == place.length + 1 && place.isPrefixOf q
    else []

end Files

/-! ### What has changed -/

/-- A step from one tree to another. -/
inductive FileChange where
  | addFolder (place : Place)
  | write (place : Place) (content : FileContent)
  | remove (place : Place)
deriving Repr

/-- The steps from one tree to another; folders come before what is in them. -/
def Files.changes (old new : Files) : List FileChange :=
  let added := new.nodes.filterMap fun (place, node) =>
    if old.node? place = some node then none
    else
      match node with
      | .folder => some (.addFolder place)
      | .file content => some (.write place content)
  let removed := old.nodes.filterMap fun (place, _) =>
    if (new.node? place).isNone then some (.remove place) else none
  added ++ removed

end Telemetry
