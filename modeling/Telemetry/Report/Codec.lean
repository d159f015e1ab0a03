import Telemetry.Metric.Sample
import Telemetry.Report.Basic

/-!
# Reports as JSON

Writing and reading of reports and of derived entries.
-/

namespace Telemetry

open Json (Decoder)

/-- A map of entries as an object, in key order. -/
def MetricMap.toJson (m : MetricMap) : Json := .obj m.entries

def MetricMap.decoder : Decoder MetricMap := Decoder.keyMap Decoder.json

namespace MetricReport

/-- The fields of a report, in the order in which they are written. -/
def fieldNames : List String :=
  ["version", "start_time_ms", "end_time_ms", "kind", "name", "metrics", "internal_metrics",
   "software_version"]

/-- A report as an object; name and software version are left out when there are none. -/
def toJson (r : MetricReport) : Json :=
  .obj ([("version", .int r.version), ("start_time_ms", .int r.startMs),
         ("end_time_ms", .int r.endMs), ("kind", r.kind.toJson)]
    ++ Json.optionalField "name" .str r.name
    ++ [("metrics", MetricMap.toJson r.metrics),
        ("internal_metrics", MetricMap.toJson r.internalMetrics)]
    ++ Json.optionalField "software_version" .str r.softwareVersion)

def decoder : Decoder MetricReport := fun level t => do
  let s ← Decoder.slots fieldNames level t
  let version ← s.required "version" Decoder.nat32
  let startMs ← s.required "start_time_ms" Decoder.int64
  let endMs ← s.required "end_time_ms" Decoder.int64
  let kind ← s.required "kind" ReportKind.decoder
  let name ← s.defaulting "name" (Decoder.optional Decoder.string) none
  let metrics ← s.required "metrics" MetricMap.decoder
  let internalMetrics ← s.required "internal_metrics" MetricMap.decoder
  let softwareVersion ← s.defaulting "software_version" (Decoder.optional Decoder.string) none
  some { version, startMs, endMs, kind, name, metrics, internalMetrics, softwareVersion }

end MetricReport

namespace CustomReport

/-- The fields of a collection's reports, in the order in which they are written. -/
def fieldNames : List String := ["hourly", "daily", "sessions", "export"]

/-- The reports as an object; the daily report and the export are left out when there are none. -/
def toJson (r : CustomReport) : Json :=
  .obj (("hourly", r.hourly.toJson) :: Json.optionalField "daily" (·.toJson) r.daily
    ++ ("sessions", .arr (r.sessions.map (·.toJson)))
    :: Json.optionalField "export" .str r.exportPath)

def decoder : Decoder CustomReport := fun level t => do
  let s ← Decoder.slots fieldNames level t
  let hourly ← s.required "hourly" MetricReport.decoder
  let daily ← s.defaulting "daily" (Decoder.optional MetricReport.decoder) none
  let sessions ← s.defaulting "sessions" (Decoder.list MetricReport.decoder) []
  let exportPath ← s.defaulting "export" (Decoder.optional Decoder.string) none
  some { hourly, daily, sessions, exportPath }

end CustomReport

namespace DerivedMetric

/-- The fields of a derived entry, in the order in which they are written. -/
def fieldNames : List String :=
  ["event_name", "metric_kind", "data_kind", "internal", "timestamp_ms", "value"]

def toJson (d : DerivedMetric) : Json :=
  .obj [("event_name", .str d.eventName), ("metric_kind", d.metricKind.toJson),
    ("data_kind", d.dataKind.toJson), ("internal", .bool d.internal),
    ("timestamp_ms", .int d.timeMs), ("value", d.value.toJson)]

def decoder : Decoder DerivedMetric := fun level t => do
  let s ← Decoder.slots fieldNames level t
  let eventName ← s.required "event_name" Decoder.string
  let metricKind ← s.required "metric_kind" MetricKind.decoder
  let dataKind ← s.required "data_kind" DataKind.decoder
  let internal ← s.required "internal" Decoder.bool
  let timeMs ← s.required "timestamp_ms" Decoder.int64
  let value ← s.required "value" SampleValue.decoder
  some { eventName, metricKind, dataKind, internal, timeMs, value }

end DerivedMetric

end Telemetry
