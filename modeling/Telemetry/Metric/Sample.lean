import Telemetry.Json.Decoder
import Telemetry.Json.Printer
import Telemetry.Metric.Kind
import Telemetry.Text.Quoted

/-!
# Samples

A sample is a timestamped value of a named metric, addressed to one accumulator.
-/

namespace Telemetry

/-! ### Values

The value of a sample: a truth value, a number or a text.  In a report a truth value is written as
the text `1` or `0`, in an export as it is.  As a state a value is named by its label; a number that
is not finite has none.
-/

/-- The value of a sample. -/
inductive SampleValue where
  | bool (b : Bool)
  | number (x : Float)
  | string (s : String)
deriving Repr

namespace SampleValue

def dataKind : SampleValue → DataKind
  | .bool _ => .boolean
  | .number _ => .double
  | .string _ => .string

def asNumber? : SampleValue → Option Float
  | .number x => some x
  | _ => none

/-- A truth value in a report and as a state. -/
def boolLabel (b : Bool) : String := if b then "1" else "0"

/-- The value in an export, and the sample's own form. -/
def toJson : SampleValue → Json
  | .bool b => .bool b
  | .number x => .float x
  | .string s => .str s

/-- The value in a report. -/
def toMetricJson : SampleValue → Json
  | .bool b => .str (boolLabel b)
  | .number x => .float x
  | .string s => .str s

/-- The integer nearest to zero among those that a finite number lies between. -/
def truncate (x : Float) : Int :=
  let magnitude : Int := (Decimal.Dyadic.ofBits x.toBits).floor
  if x.toBits >>> 63 = 0 then magnitude else -magnitude

def isIntegral (x : Float) : Bool := (Decimal.Dyadic.ofBits x.toBits).isIntegral

/-- The state that a number names: integers below `10^15` without point, others by their text. -/
def numberLabel? (x : Float) : Option String :=
  if !x.isFinite then none
  else if isIntegral x && x.abs < 1e15 then some (String.ofList (Decimal.intChars (truncate x)))
  else some (String.ofList (Decimal.floatChars x))

/-- The state that the value names. -/
def stateLabel? : SampleValue → Option String
  | .bool b => some (boolLabel b)
  | .number x => numberLabel? x
  | .string s => some s

end SampleValue

/-! ### Samples

`validate` says which samples are taken; session names have a validator of their own.
-/

def sessionNameLimit : Nat := 64

/-- Names that no session may have, in any case of letters. -/
def reservedSessionNames : List String := ["heartbeat", "daily-heartbeat"]

def isSessionChar (c : Char) : Bool := c.isAlphanum || c == '-' || c == '_' || c == '.'

/-- What is wrong with a session name. -/
inductive SessionNameFault where
  | length
  | character
  | reserved
deriving DecidableEq, Repr

/-- The first fault of a session name. -/
def sessionNameFault? (name : String) : Option SessionNameFault :=
  if name.isEmpty || sessionNameLimit < name.utf8ByteSize then some .length
  else if !name.toList.all isSessionChar then some .character
  else if reservedSessionNames.contains (String.ofList (name.toList.map Char.toLower)) then
    some .reserved
  else none

def SessionNameFault.failure (name : String) (fault : SessionNameFault) : Failure :=
  let quotedName := Text.quoted name
  .validation "session_name" <|
    match fault with
    | .length => s!"길이는 1~64자여야 합니다: {quotedName}"
    | .character => s!"허용되지 않는 문자가 포함되어 있습니다: {quotedName}"
    | .reserved => s!"예약된 이름입니다: {quotedName}"

/-- Accepts one to 64 of the characters of session names, unless the name is reserved. -/
def validateSessionName (name : String) : Except Failure Unit :=
  match sessionNameFault? name with
  | none => .ok ()
  | some fault => .error (fault.failure name)

/-- A timestamped value of a metric. -/
structure MetricSample where
  eventName : String
  reportKind : ReportKind
  sessionName : Option String
  timeMs : Int
  metricKind : MetricKind
  dataKind : DataKind
  aggregations : List Aggregation
  carryOver : Bool
  internal : Bool
  value : SampleValue
  version : Nat
deriving Repr

namespace MetricSample

/-- A sample for the hourly accumulator: numbers are gauges, all else are properties. -/
def of (eventName : String) (timeMs : Int) (value : SampleValue) : MetricSample where
  eventName := eventName
  reportKind := .hourly
  sessionName := none
  timeMs := timeMs
  metricKind := if value.dataKind = .double then .gauge else .property
  dataKind := value.dataKind
  aggregations := []
  carryOver := false
  internal := false
  value := value
  version := 1

def inSession (s : MetricSample) (name : String) : MetricSample :=
  { s with reportKind := .session, sessionName := some name }

def inDaily (s : MetricSample) : MetricSample :=
  { s with reportKind := .daily, sessionName := none }

/-- Is the sample consistent? -/
def validate (s : MetricSample) : Except Failure Unit :=
  if s.eventName.isEmpty then .error (.validation "event_name" "비어 있을 수 없습니다")
  else if s.value.dataKind ≠ s.dataKind then
    let declared := s.dataKind.name
    let actual := s.value.dataKind.name
    .error (.validation "value" s!"데이터 종류 불일치: 선언={declared}, 값={actual}")
  else
    match s.reportKind, s.sessionName with
    | .session, some name => validateSessionName name
    | .session, none =>
      .error (.validation "session_name" "세션 샘플에는 세션 이름이 필요합니다")
    | _, some _ =>
      .error (.validation "session_name" "세션이 아닌 샘플에는 세션 이름을 지정할 수 없습니다")
    | _, none => .ok ()

end MetricSample

/-! ### Samples as JSON

Writing and reading of kinds, aggregations, values and samples.
-/

open Json (Decoder)

def ReportKind.toJson (k : ReportKind) : Json := .str k.name
def MetricKind.toJson (k : MetricKind) : Json := .str k.name
def DataKind.toJson (k : DataKind) : Json := .str k.name

def ReportKind.decoder : Decoder ReportKind := Decoder.choice ReportKind.ofName?
def MetricKind.decoder : Decoder MetricKind := Decoder.choice MetricKind.ofName?
def DataKind.decoder : Decoder DataKind := Decoder.choice DataKind.ofName?

/-- An aggregation is written as an object of its family and its name. -/
def Aggregation.toJson : Aggregation → Json
  | .numeric a => .obj [("numeric", .str a.name)]
  | .state a => .obj [("state", .str a.name)]

def Aggregation.decoder : Decoder Aggregation
  | level, .record [(key, t)] => do
    let level ← Json.descend level
    let family ← Json.Piece.join? key
    match String.ofList family with
    | "numeric" => (Decoder.choice NumericAggregation.ofName? level t).map .numeric
    | "state" => (Decoder.choice StateAggregation.ofName? level t).map .state
    | _ => none
  | _, _ => none

/-- Reads a value: a truth value, any number or a text. -/
def SampleValue.decoder : Decoder SampleValue
  | _, .bool b => some (.bool b)
  | _, .number n =>
    match n.integer? with
    | some i => some (.number (Float.ofInt i))
    | none => n.scaled?.map .number
  | level, .text pieces => (Decoder.string level (.text pieces)).map .string
  | _, _ => none

namespace MetricSample

/-- The fields of a sample, in the order in which they are written. -/
def fieldNames : List String :=
  ["event_name", "report_kind", "session_name", "timestamp_ms", "metric_kind", "data_kind",
   "aggregations", "carry_over", "internal", "value", "version"]

/-- A sample as an object; the session name is left out when there is none. -/
def toJson (s : MetricSample) : Json :=
  .obj (("event_name", .str s.eventName) :: ("report_kind", s.reportKind.toJson)
    :: Json.optionalField "session_name" .str s.sessionName
    ++ [("timestamp_ms", .int s.timeMs), ("metric_kind", s.metricKind.toJson),
        ("data_kind", s.dataKind.toJson), ("aggregations", .arr (s.aggregations.map (·.toJson))),
        ("carry_over", .bool s.carryOver), ("internal", .bool s.internal),
        ("value", s.value.toJson), ("version", .int s.version)])

def decoder : Decoder MetricSample := fun level t => do
  let s ← Decoder.slots fieldNames level t
  let eventName ← s.required "event_name" Decoder.string
  let reportKind ← s.required "report_kind" ReportKind.decoder
  let sessionName ← s.defaulting "session_name" (Decoder.optional Decoder.string) none
  let timeMs ← s.required "timestamp_ms" Decoder.int64
  let metricKind ← s.required "metric_kind" MetricKind.decoder
  let dataKind ← s.required "data_kind" DataKind.decoder
  let aggregations ← s.defaulting "aggregations" (Decoder.list Aggregation.decoder) []
  let carryOver ← s.defaulting "carry_over" Decoder.bool false
  let internal ← s.defaulting "internal" Decoder.bool false
  let value ← s.required "value" SampleValue.decoder
  let version ← s.defaulting "version" Decoder.nat32 1
  some { eventName, reportKind, sessionName, timeMs, metricKind, dataKind, aggregations, carryOver,
         internal, value, version }

end MetricSample

end Telemetry
