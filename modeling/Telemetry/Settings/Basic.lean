import Telemetry.Failure
import Telemetry.Json.Decoder

/-!
# Settings

What a user can set, which of it is taken, and how it is written and read.
-/

namespace Telemetry

/-! ### What can be set

How values are paged, how long things are kept, who signs an export, and what
a collection includes.  `validate` says which settings are taken; it reports the first fault.
-/

/-- Rows fetched at once, and rows held at most. -/
structure PagingSettings where
  pageSize : Nat
  bufferSize : Nat
deriving DecidableEq, Repr

/-- Ages and spans, in milliseconds. -/
structure RetentionSettings where
  /-- Values older than this are not carried over. -/
  carryOverMaxAge : Int
  /-- How long the daily accumulator keeps a value. -/
  accumulatorRetention : Int
  /-- When a report without metrics is removed. -/
  orphanReportExpiry : Int
  /-- When an open session is ended. -/
  sessionExpiry : Int
  /-- The span of ended hourly reports that makes a daily report. -/
  dailySpan : Int
deriving DecidableEq, Repr

/-- The signature of exports. -/
structure ExportSettings where
  schemaVersion : Nat
  producerId : String
  producerVersion : String
deriving DecidableEq, Repr

structure Settings where
  paging : PagingSettings
  retention : RetentionSettings
  exports : ExportSettings
  dailyEnabled : Bool
  sessionDailyMetrics : List String
deriving DecidableEq, Repr

def dayMs : Int := 86400000

instance : Inhabited PagingSettings := ⟨⟨250, 500⟩⟩

instance : Inhabited RetentionSettings := ⟨⟨3 * dayMs, 3 * dayMs, 3 * dayMs, dayMs, dayMs⟩⟩

instance : Inhabited ExportSettings := ⟨⟨1, "tally", "1"⟩⟩

instance : Inhabited Settings := ⟨⟨default, default, default, true, []⟩⟩

/-- Pages are not empty, the buffer holds a page, and a day takes time. -/
def Settings.validate (s : Settings) : Except Failure Unit :=
  if s.paging.pageSize = 0 then .error (.validation "cursor.page_size" "0보다 커야 합니다")
  else if s.paging.bufferSize < s.paging.pageSize then
    .error (.validation "cursor.buffer_size" "page_size 이상이어야 합니다")
  else if s.retention.dailySpan ≤ 0 then
    .error (.validation "retention.daily_span_ms" "0보다 커야 합니다")
  else .ok ()

/-! ### Settings as JSON

Writing and reading of settings.  Every field may be missing; it has its default then.
-/

open Json (Decoder)

def PagingSettings.toJson (s : PagingSettings) : Json :=
  .obj [("page_size", .int s.pageSize), ("buffer_size", .int s.bufferSize)]

def PagingSettings.decoder : Decoder PagingSettings := fun level t => do
  let s ← Decoder.slots ["page_size", "buffer_size"] level t
  let base : PagingSettings := default
  let pageSize ← s.defaulting "page_size" Decoder.nat64 base.pageSize
  let bufferSize ← s.defaulting "buffer_size" Decoder.nat64 base.bufferSize
  some { pageSize, bufferSize }

def RetentionSettings.toJson (s : RetentionSettings) : Json :=
  .obj [("carry_over_max_age_ms", .int s.carryOverMaxAge),
    ("accumulator_retention_ms", .int s.accumulatorRetention),
    ("orphan_report_expiry_ms", .int s.orphanReportExpiry),
    ("session_expiry_ms", .int s.sessionExpiry), ("daily_span_ms", .int s.dailySpan)]

def RetentionSettings.decoder : Decoder RetentionSettings := fun level t => do
  let names := ["carry_over_max_age_ms", "accumulator_retention_ms", "orphan_report_expiry_ms",
    "session_expiry_ms", "daily_span_ms"]
  let s ← Decoder.slots names level t
  let base : RetentionSettings := default
  let carryOverMaxAge ← s.defaulting "carry_over_max_age_ms" Decoder.int64 base.carryOverMaxAge
  let accumulatorRetention ←
    s.defaulting "accumulator_retention_ms" Decoder.int64 base.accumulatorRetention
  let orphanReportExpiry ←
    s.defaulting "orphan_report_expiry_ms" Decoder.int64 base.orphanReportExpiry
  let sessionExpiry ← s.defaulting "session_expiry_ms" Decoder.int64 base.sessionExpiry
  let dailySpan ← s.defaulting "daily_span_ms" Decoder.int64 base.dailySpan
  some { carryOverMaxAge, accumulatorRetention, orphanReportExpiry, sessionExpiry, dailySpan }

def ExportSettings.toJson (s : ExportSettings) : Json :=
  .obj [("schema_version", .int s.schemaVersion), ("producer_id", .str s.producerId),
    ("producer_version", .str s.producerVersion)]

def ExportSettings.decoder : Decoder ExportSettings := fun level t => do
  let s ← Decoder.slots ["schema_version", "producer_id", "producer_version"] level t
  let base : ExportSettings := default
  let schemaVersion ← s.defaulting "schema_version" Decoder.nat32 base.schemaVersion
  let producerId ← s.defaulting "producer_id" Decoder.string base.producerId
  let producerVersion ← s.defaulting "producer_version" Decoder.string base.producerVersion
  some { schemaVersion, producerId, producerVersion }

def Settings.toJson (s : Settings) : Json :=
  .obj [("cursor", s.paging.toJson), ("retention", s.retention.toJson),
    ("export", s.exports.toJson), ("daily_heartbeat_enabled", .bool s.dailyEnabled),
    ("session_daily_metrics", Json.strings s.sessionDailyMetrics)]

def Settings.decoder : Decoder Settings := fun level t => do
  let names :=
    ["cursor", "retention", "export", "daily_heartbeat_enabled", "session_daily_metrics"]
  let s ← Decoder.slots names level t
  let paging ← s.defaulting "cursor" PagingSettings.decoder default
  let retention ← s.defaulting "retention" RetentionSettings.decoder default
  let exports ← s.defaulting "export" ExportSettings.decoder default
  let dailyEnabled ← s.defaulting "daily_heartbeat_enabled" Decoder.bool true
  let sessionDailyMetrics ←
    s.defaulting "session_daily_metrics" (Decoder.list Decoder.string) []
  some { paging, retention, exports, dailyEnabled, sessionDailyMetrics }

end Telemetry
