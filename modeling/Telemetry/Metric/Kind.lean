import Telemetry.Failure

/-!
# Kinds

The kinds of reports, metrics and data, and the aggregations a metric may ask for, each with its
name.  Parsing a name is the inverse of naming.
-/

namespace Telemetry

/-- The accumulators that samples go to. -/
inductive ReportKind where
  | hourly
  | daily
  | session
deriving DecidableEq, Repr

namespace ReportKind

def name : ReportKind → String
  | .hourly => "Heartbeat"
  | .daily => "Daily-Heartbeat"
  | .session => "Session"

def ofName? : String → Option ReportKind
  | "Heartbeat" => some .hourly
  | "Daily-Heartbeat" => some .daily
  | "Session" => some .session
  | _ => none

/-- The kind of a name, or the complaint about it. -/
def parse (text : String) : Except Failure ReportKind :=
  match ofName? text with
  | some k => .ok k
  | none => .error (.validation "report_kind" s!"알 수 없는 리포트 종류: {text}")

theorem ofName?_name (k : ReportKind) : ofName? k.name = some k := by cases k <;> rfl

end ReportKind

/-- What a metric measures. Distributions are gauges, states are properties. -/
inductive MetricKind where
  | counter
  | gauge
  | property
  | event
deriving DecidableEq, Repr

namespace MetricKind

def name : MetricKind → String
  | .counter => "counter"
  | .gauge => "gauge"
  | .property => "property"
  | .event => "event"

def ofName? : String → Option MetricKind
  | "counter" => some .counter
  | "gauge" => some .gauge
  | "property" => some .property
  | "event" => some .event
  | _ => none

/-- The kind of a name, or the complaint about it. -/
def parse (text : String) : Except Failure MetricKind :=
  match ofName? text with
  | some k => .ok k
  | none => .error (.validation "metric_kind" s!"알 수 없는 메트릭 종류: {text}")

theorem ofName?_name (k : MetricKind) : ofName? k.name = some k := by cases k <;> rfl

end MetricKind

/-- The type of a metric's values. -/
inductive DataKind where
  | double
  | string
  | boolean
deriving DecidableEq, Repr

namespace DataKind

def name : DataKind → String
  | .double => "double"
  | .string => "string"
  | .boolean => "boolean"

def ofName? : String → Option DataKind
  | "double" => some .double
  | "string" => some .string
  | "boolean" => some .boolean
  | _ => none

/-- The kind of a name, or the complaint about it. -/
def parse (text : String) : Except Failure DataKind :=
  match ofName? text with
  | some k => .ok k
  | none => .error (.validation "data_kind" s!"알 수 없는 데이터 종류: {text}")

theorem ofName?_name (k : DataKind) : ofName? k.name = some k := by cases k <;> rfl

end DataKind

inductive NumericAggregation where
  | count
  | sum
  | min
  | max
  | mean
  | latest
  | drop
  | movingAverage
  | movingAverageDbm
deriving DecidableEq, Repr

namespace NumericAggregation

def name : NumericAggregation → String
  | .count => "COUNT"
  | .sum => "SUM"
  | .min => "MIN"
  | .max => "MAX"
  | .mean => "MEAN"
  | .latest => "LATEST_VALUE"
  | .drop => "VALUE_DROP"
  | .movingAverage => "MOVING_AVERAGE"
  | .movingAverageDbm => "MOVING_AVERAGE_DBM"

def ofName? : String → Option NumericAggregation
  | "COUNT" => some .count
  | "SUM" => some .sum
  | "MIN" => some .min
  | "MAX" => some .max
  | "MEAN" => some .mean
  | "LATEST_VALUE" => some .latest
  | "VALUE_DROP" => some .drop
  | "MOVING_AVERAGE" => some .movingAverage
  | "MOVING_AVERAGE_DBM" => some .movingAverageDbm
  | _ => none

theorem ofName?_name (a : NumericAggregation) : ofName? a.name = some a := by cases a <;> rfl

end NumericAggregation

inductive StateAggregation where
  | latest
  | timePerHour
  | timeTotals
deriving DecidableEq, Repr

namespace StateAggregation

def name : StateAggregation → String
  | .latest => "LATEST_VALUE"
  | .timePerHour => "TIME_PER_HOUR"
  | .timeTotals => "TIME_TOTALS"

def ofName? : String → Option StateAggregation
  | "LATEST_VALUE" => some .latest
  | "TIME_PER_HOUR" => some .timePerHour
  | "TIME_TOTALS" => some .timeTotals
  | _ => none

theorem ofName?_name (a : StateAggregation) : ofName? a.name = some a := by cases a <;> rfl

end StateAggregation

/-- An aggregation that a metric asks for. -/
inductive Aggregation where
  | numeric (a : NumericAggregation)
  | state (a : StateAggregation)
deriving DecidableEq, Repr

namespace Aggregation

def isLatest : Aggregation → Bool
  | .numeric .latest | .state .latest => true
  | _ => false

/-- Computed from the values of a window, in any order. -/
def isScalar : Aggregation → Bool
  | .numeric .count | .numeric .sum | .numeric .min | .numeric .max | .numeric .mean => true
  | _ => false

/-- Computed by one scan in the order of time. -/
def isStreaming : Aggregation → Bool
  | .numeric .drop | .numeric .movingAverage | .numeric .movingAverageDbm => true
  | .state .timePerHour | .state .timeTotals => true
  | _ => false

end Aggregation

end Telemetry
