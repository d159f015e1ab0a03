import Telemetry.Files
import Telemetry.Json.Printer
import Telemetry.Store.Values

/-!
# A store as a file

How a store is kept in a file: a byte that no text has, and after it one line of JSON with the rows
of all tables and the last ids.  Numbers are kept by their bits, so that every one of them comes back
as it was.  The file also says whether changes of it are logged beside it.

A file of at most one byte is blank: a store that nothing was put into yet.  Anything else that does
not decode is no store.
-/

namespace Telemetry

/-- How changes of the file of a store are made. -/
inductive Journal where
  /-- That is still open: the file is blank. -/
  | undecided
  /-- In the file itself. -/
  | direct
  /-- In a log beside it, which asks for a file that can be shared. -/
  | logged
deriving DecidableEq, Repr

/-- What the file of a store holds. -/
structure Snapshot where
  store : Store
  journal : Journal

namespace Snapshot

open Json (Decoder)

/-- A value by its kind; a number by its bits. -/
def valueJson : SampleValue → Json
  | .bool b => .obj [("bool", .bool b)]
  | .number x => .obj [("number", .int x.toBits.toNat)]
  | .string s => .obj [("string", .str s)]

def valueDecoder : Decoder SampleValue
  | level, .record [(key, t)] =>
    match (Json.Piece.join? key).map String.ofList with
    | some "bool" => (Decoder.bool level t).map .bool
    | some "number" => (Decoder.nat64 level t).map fun n => .number (Float.ofBits n.toUInt64)
    | some "string" => (Decoder.string level t).map .string
    | _ => none
  | _, _ => none

def reportJson (r : ReportRow) : Json :=
  .arr [.int r.id, r.kind.toJson, .ofOption .str r.name, .int r.startMs, .ofOption .int r.endMs,
    .ofOption .str r.softwareVersion]

def reportDecoder : Decoder ReportRow := fun level t => do
  let s ← Decoder.slots ["id", "kind", "name", "start", "end", "version"] level t
  let id ← s.required "id" Decoder.int64
  let kind ← s.required "kind" ReportKind.decoder
  let name ← s.required "name" (Decoder.optional Decoder.string)
  let startMs ← s.required "start" Decoder.int64
  let endMs ← s.required "end" (Decoder.optional Decoder.int64)
  let softwareVersion ← s.required "version" (Decoder.optional Decoder.string)
  some { id, kind, name, startMs, endMs, softwareVersion }

def metricJson (m : MetricRow) : Json :=
  .arr [.int m.id, .int m.reportId, .str m.spec.eventName, m.spec.metricKind.toJson,
    m.spec.dataKind.toJson, .bool m.spec.carryOver,
    .arr (m.spec.aggregations.map (·.toJson)), .bool m.spec.internal]

def metricDecoder : Decoder MetricRow := fun level t => do
  let names := ["id", "report", "event", "kind", "data", "carry", "aggregations", "internal"]
  let s ← Decoder.slots names level t
  let id ← s.required "id" Decoder.int64
  let reportId ← s.required "report" Decoder.int64
  let eventName ← s.required "event" Decoder.string
  let metricKind ← s.required "kind" MetricKind.decoder
  let dataKind ← s.required "data" DataKind.decoder
  let carryOver ← s.required "carry" Decoder.bool
  let aggregations ← s.required "aggregations" (Decoder.list Aggregation.decoder)
  let internal ← s.required "internal" Decoder.bool
  some { id, reportId, spec := ⟨eventName, metricKind, dataKind, carryOver, aggregations, internal⟩ }

def valueRowJson (v : ValueRow) : Json :=
  .arr [.int v.id, .int v.metricId, .int v.version, .int v.timeMs, valueJson v.value]

def valueRowDecoder : Decoder ValueRow := fun level t => do
  let s ← Decoder.slots ["id", "metric", "version", "time", "value"] level t
  let id ← s.required "id" Decoder.int64
  let metricId ← s.required "metric" Decoder.int64
  let version ← s.required "version" Decoder.nat32
  let timeMs ← s.required "time" Decoder.int64
  let value ← s.required "value" valueDecoder
  some { id, metricId, version, timeMs, value }

def tableJson {α : Type} (row : α → Json) (t : Table α) : Json :=
  .obj [("last_id", .int t.lastId), ("rows", .arr (t.rows.map row))]

def tableDecoder {α : Type} (row : Decoder α) : Decoder (Table α) := fun level t => do
  let s ← Decoder.slots ["last_id", "rows"] level t
  let lastId ← s.required "last_id" Decoder.int64
  let rows ← s.required "rows" (Decoder.list row)
  some { rows, lastId }

def blank : Snapshot := ⟨.empty, .undecided⟩

/-- The rows and the last ids of a store. -/
def toJson (s : Snapshot) : Json :=
  .obj [("logged", .bool (s.journal = .logged)), ("reports", tableJson reportJson s.store.reports),
    ("metrics", tableJson metricJson s.store.metrics),
    ("values", tableJson valueRowJson s.store.values)]

def decoder : Decoder Snapshot := fun level t => do
  let s ← Decoder.slots ["logged", "reports", "metrics", "values"] level t
  let isLogged ← s.required "logged" Decoder.bool
  let reports ← s.required "reports" (tableDecoder reportDecoder)
  let metrics ← s.required "metrics" (tableDecoder metricDecoder)
  let values ← s.required "values" (tableDecoder valueRowDecoder)
  some ⟨{ Store.empty with reports, metrics, values }, if isLogged then .logged else .direct⟩

/-- The byte that begins the file of a store. -/
def mark : UInt8 := 0xFF

/-- The file of a snapshot. -/
def encode (s : Snapshot) : FileContent := .bytes (mark :: s.toJson.compact.toUTF8.toList)

/-- The snapshot in a file. -/
def decode? : FileContent → Option Snapshot
  | .text s => if s.utf8ByteSize ≤ 1 then some blank else none
  | .bytes [] | .bytes [_] => some blank
  | .bytes (first :: rest) =>
    if first = mark then
      (String.fromUTF8? (ByteArray.mk rest.toArray)).bind (Json.decode decoder)
    else none

end Snapshot

end Telemetry
