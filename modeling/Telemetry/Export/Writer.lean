import Telemetry.Failure
import Telemetry.Files
import Telemetry.Json.Decoder
import Telemetry.Json.Printer

/-!
# Writing an export

Behind an hourly report stand the series of its metrics, and they can be exported as a whole.  The
export is written as its points come, to a file beside its place.
-/

namespace Telemetry

/-! ### Export trees

The whole series behind an hourly report: a header, and for each metric a rollup of its points in
the order of time.
-/

open Json (Decoder)

structure Producer where
  version : String
  id : String
deriving DecidableEq, Repr

/-- What an export says before its rollups. -/
structure ExportHeader where
  schemaVersion : Nat
  startMs : Int
  durationMs : Int
  reportType : String
  producer : Producer
deriving DecidableEq, Repr

structure RollupInfo where
  key : String
  metricType : String
  dataType : String
  internal : Bool
deriving DecidableEq, Repr

structure DataPoint where
  timeMs : Int
  value : Json

/-- The series of one metric. -/
structure Rollup where
  info : RollupInfo
  points : List DataPoint

/-- A whole export. -/
structure ExportTree where
  header : ExportHeader
  rollups : List Rollup

def Producer.toJson (p : Producer) : Json := .obj [("version", .str p.version), ("id", .str p.id)]

def RollupInfo.toJson (i : RollupInfo) : Json :=
  .obj [("string_key", .str i.key), ("metric_type", .str i.metricType),
    ("data_type", .str i.dataType), ("internal", .bool i.internal)]

def DataPoint.toJson (p : DataPoint) : Json := .obj [("t", .int p.timeMs), ("value", p.value)]

def Rollup.toJson (r : Rollup) : Json :=
  .obj [("metadata", r.info.toJson), ("data", .arr (r.points.map (·.toJson)))]

def ExportTree.toJson (t : ExportTree) : Json :=
  .obj [("schema_version", .int t.header.schemaVersion), ("start_time", .int t.header.startMs),
    ("duration_ms", .int t.header.durationMs), ("report_type", .str t.header.reportType),
    ("producer", t.header.producer.toJson), ("rollups", .arr (t.rollups.map (·.toJson)))]

def Producer.decoder : Decoder Producer := fun level t => do
  let s ← Decoder.slots ["version", "id"] level t
  let version ← s.required "version" Decoder.string
  let id ← s.required "id" Decoder.string
  some { version, id }

def RollupInfo.decoder : Decoder RollupInfo := fun level t => do
  let s ← Decoder.slots ["string_key", "metric_type", "data_type", "internal"] level t
  let key ← s.required "string_key" Decoder.string
  let metricType ← s.required "metric_type" Decoder.string
  let dataType ← s.required "data_type" Decoder.string
  let internal ← s.required "internal" Decoder.bool
  some { key, metricType, dataType, internal }

def DataPoint.decoder : Decoder DataPoint := fun level t => do
  let s ← Decoder.slots ["t", "value"] level t
  let timeMs ← s.required "t" Decoder.int64
  let value ← s.required "value" Decoder.json
  some { timeMs, value }

def Rollup.decoder : Decoder Rollup := fun level t => do
  let s ← Decoder.slots ["metadata", "data"] level t
  let info ← s.required "metadata" RollupInfo.decoder
  let points ← s.required "data" (Decoder.list DataPoint.decoder)
  some { info, points }

def ExportTree.decoder : Decoder ExportTree := fun level t => do
  let names := ["schema_version", "start_time", "duration_ms", "report_type", "producer", "rollups"]
  let s ← Decoder.slots names level t
  let schemaVersion ← s.required "schema_version" Decoder.nat32
  let startMs ← s.required "start_time" Decoder.int64
  let durationMs ← s.required "duration_ms" Decoder.int64
  let reportType ← s.required "report_type" Decoder.string
  let producer ← s.required "producer" Producer.decoder
  let rollups ← s.required "rollups" (Decoder.list Rollup.decoder)
  some { header := { schemaVersion, startMs, durationMs, reportType, producer }, rollups }

/-! ### Writing an export

An export is written as its points come, so that a series never has to be held as a whole.  The
writer keeps the text written so far and the number of rollups in it.  A rollup without points
leaves no trace.  A point that cannot be had ends its rollup where it stands; the text keeps what was
written of it.
-/

/-- An export being written. -/
structure ExportWriter where
  startMs : Int
  written : String
  rollups : Nat

namespace ExportWriter

def headerChars (h : ExportHeader) : List Char :=
  "\x7b\"schema_version\":".toList ++ Decimal.intChars h.schemaVersion
    ++ ",\"start_time\":".toList ++ Decimal.intChars h.startMs
    ++ ",\"duration_ms\":".toList ++ Decimal.intChars h.durationMs
    ++ ",\"report_type\":".toList ++ Json.stringChars h.reportType
    ++ ",\"producer\":".toList ++ h.producer.toJson.chars
    ++ ",\"rollups\":[".toList

def start (h : ExportHeader) : ExportWriter := ⟨h.startMs, String.ofList (headerChars h), 0⟩

def append (w : ExportWriter) (cs : List Char) : ExportWriter :=
  { w with written := w.written ++ String.ofList cs }

/-- The point as it is written: not before the start of the report. -/
def clampPoint (w : ExportWriter) (p : DataPoint) : DataPoint :=
  { p with timeMs := max p.timeMs w.startMs }

/-- What comes before the first point of a rollup. -/
def openRollup (w : ExportWriter) (info : RollupInfo) : List Char :=
  (if 0 < w.rollups then [','] else [])
    ++ "\x7b\"metadata\":".toList ++ info.toJson.chars ++ ",\"data\":[".toList

/-- The points of a rollup, with the number of those written before them; the second result counts
all, or is the failure that ended the rollup. -/
def writePoints (info : RollupInfo) :
    ExportWriter → Nat → List (Except Failure DataPoint) → ExportWriter × Except Failure Nat
  | w, count, [] => (w, .ok count)
  | w, _, .error e :: _ => (w, .error e)
  | w, count, .ok p :: rest =>
    let lead := if count = 0 then w.openRollup info else [',']
    writePoints info (w.append (lead ++ (w.clampPoint p).toJson.chars)) (count + 1) rest

/-- Writes a rollup; tells whether there was anything to write. -/
def writeRollup (w : ExportWriter) (info : RollupInfo) (points : List (Except Failure DataPoint)) :
    ExportWriter × Except Failure Bool :=
  match writePoints info w 0 points with
  | (w, .error e) => (w, .error e)
  | (w, .ok 0) => (w, .ok false)
  | (w, .ok _) => ({ w.append [']', '\x7d'] with rollups := w.rollups + 1 }, .ok true)

def finish (w : ExportWriter) : String := w.written ++ String.ofList [']', '\x7d']

end ExportWriter

/-! ### The file of an export

An export is written to a temporary file beside its place and moved there when it is complete.  An
export that is given up leaves no file.
-/

/-- Where an export is written. -/
structure ExportFile where
  path : Path
deriving Repr

namespace ExportFile

def draft (f : ExportFile) : Path := f.path.withExtension "json.tmp"

/-- A file operation whose fault is reported as it is. -/
def plainly {α : Type} (r : Except FileFault α) : Except Failure α := r.mapError .io

def create (f : ExportFile) (fs : Files) : Except Failure Files :=
  plainly (fs.write f.draft (.text ""))

def abandon (f : ExportFile) (fs : Files) : Files := fs.discard f.draft

/-- Completes the export with its text. -/
def complete (f : ExportFile) (text : String) (fs : Files) : Except Failure Files := do
  let fs ← plainly (fs.write f.draft (.text text))
  plainly (fs.rename f.draft f.path)

/-- Creates the folder of an export and its temporary file there. -/
def createIn (folder : Path) (name : String) (fs : Files) : Except Failure ExportFile × Files :=
  match fs.createFolders folder with
  | (.error fault, fs) =>
    let folder := folder.text
    let cause := fault.message
    (.error (.settings s!"내보내기 디렉토리 생성 실패 '{folder}': {cause}"), fs)
  | (.ok (), fs) =>
    let f : ExportFile := ⟨folder.join (.ofText name)⟩
    match f.create fs with
    | .ok fs => (.ok f, fs)
    | .error e => (.error e, fs)

end ExportFile

end Telemetry
