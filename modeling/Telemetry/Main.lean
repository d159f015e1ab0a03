import Std.Time.DateTime.Timestamp
import Telemetry.Command.Run

/-!
# The program

Reads the places that a command may touch, runs the command on them, and carries out on disk what it
has changed.
-/

namespace Telemetry.Main

open Telemetry.Command

def nodeAt (place : Place) : IO (Option FileNode) := do
  try
    let bytes ← IO.FS.readBinFile place.path.text
    pure (some (.file (.ofBytes bytes)))
  catch e =>
    match e with
    | .noFileOrDirectory .. => pure none
    | .inappropriateType .. =>
      if place.isEmpty then pure none else pure (some .folder)
    | e => throw e

/-- Reads the places on a way into a tree. -/
def readPlaces (files : Files) (start : Place) : List String → IO Files
  | [] => pure files
  | name :: names => do
    let place := start.step name
    match ← nodeAt place with
    | none => readPlaces files place names
    | some node => readPlaces (files.put place node) place names

/-- Reads the places that paths lead over into a tree. -/
def readFiles (current : Place) (paths : List Path) : IO Files := do
  let files ← readPlaces ⟨current, []⟩ [] current
  paths.foldlM
    (fun files path => readPlaces files (if path.rooted then [] else current) path.names) files

def carryOut : FileChange → IO Unit
  | .addFolder place => IO.FS.createDirAll place.path.text
  | .write place (.text s) => IO.FS.writeFile place.path.text s
  | .write place (.bytes data) => IO.FS.writeBinFile place.path.text (ByteArray.mk data.toArray)
  | .remove place => IO.FS.removeFile place.path.text

/-- What the program finds around it. -/
def environment : IO Environment := do
  let now ← Std.Time.Timestamp.now
  let bytes ← IO.getRandomBytes 16
  pure
    { home := ← IO.getEnv "HOME"
      dataHome := ← IO.getEnv "XDG_DATA_HOME"
      configHome := ← IO.getEnv "XDG_CONFIG_HOME"
      nowMs := now.toMillisecondsSinceUnixEpoch.toInt
      exportName := exportNameOf bytes.toList }

end Telemetry.Main

open Telemetry in
/-- Runs a command line on the files of the system. -/
def main (args : List String) : IO UInt32 := do
  let env ← Main.environment
  let current := (Path.ofText (← IO.currentDir).toString).names.foldl Place.step []
  let before ← Main.readFiles current (Command.touchedPaths env args)
  let (outcome, after) := Command.run env args before
  for change in before.changes after do
    Main.carryOut change
  IO.print outcome.output
  if let some complaint := outcome.complaint then
    IO.eprintln ("Error: " ++ complaint)
  pure outcome.code.toUInt32
