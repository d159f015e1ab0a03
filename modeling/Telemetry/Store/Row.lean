import Telemetry.Metric.Sample
import Telemetry.Scan
import Telemetry.Store.Cell

/-!
# Rows

The rows of the three tables of a store: reports, the metrics of each report, and the values of each
metric.  Beside each kind of row stand its cells, which is how the row looks from outside, and the
reading of cells back into a row.
-/

namespace Telemetry

/-- A report. It is open as long as it has no end. -/
structure ReportRow where
  id : Int
  kind : ReportKind
  name : Option String
  startMs : Int
  endMs : Option Int
  softwareVersion : Option String
deriving DecidableEq, Repr

/-- What is known of a metric beside its values. -/
structure MetricSpec where
  eventName : String
  metricKind : MetricKind
  dataKind : DataKind
  carryOver : Bool
  aggregations : List Aggregation
  internal : Bool
deriving DecidableEq, Repr

/-- A metric of a report. -/
structure MetricRow where
  id : Int
  reportId : Int
  spec : MetricSpec
deriving DecidableEq, Repr

/-- A value of a metric. -/
structure ValueRow where
  id : Int
  metricId : Int
  version : Nat
  timeMs : Int
  value : SampleValue
deriving Repr

class Identified (α : Type) where
  id : α → Int
  withId : Int → α → α

instance : Identified ReportRow := ⟨ReportRow.id, fun id r => { r with id }⟩

instance : Identified MetricRow := ⟨MetricRow.id, fun id m => { m with id }⟩

instance : Identified ValueRow := ⟨ValueRow.id, fun id v => { v with id }⟩

/-- What a sample says about its metric. -/
def MetricSample.spec (s : MetricSample) : MetricSpec :=
  ⟨s.eventName, s.metricKind, s.dataKind, s.carryOver, s.aggregations, s.internal⟩

def ValueRow.timed (v : ValueRow) : TimedValue := ⟨v.timeMs, v.value⟩

/-! ### Cells of a report -/

/-- The cells of a report, its id aside. -/
structure ReportCells where
  kind : Cell
  name : Cell
  startMs : Cell
  endMs : Cell
  softwareVersion : Cell
deriving Repr

def ReportRow.cells (r : ReportRow) : ReportCells where
  kind := .text r.kind.name
  name := .ofOption .text r.name
  startMs := .int r.startMs
  endMs := .ofOption .int r.endMs
  softwareVersion := .ofOption .text r.softwareVersion

namespace ReportCells

def same (a b : ReportCells) : Bool :=
  a.kind.same b.kind && a.name.same b.name && a.startMs.same b.startMs && a.endMs.same b.endMs
    && a.softwareVersion.same b.softwareVersion

def row? (c : ReportCells) (id : Int) : Option ReportRow := do
  let kind ← c.kind.asText?.bind ReportKind.ofName?
  let name ← c.name.optional? Cell.asText?
  let startMs ← c.startMs.asInt?
  let endMs ← c.endMs.optional? Cell.asInt?
  let softwareVersion ← c.softwareVersion.optional? Cell.asText?
  some { id, kind, name, startMs, endMs, softwareVersion }

end ReportCells

/-! ### Cells of a metric -/

/-- The cells of a metric, its id aside. -/
structure MetricCells where
  reportId : Cell
  eventName : Cell
  metricKind : Cell
  dataKind : Cell
  carryOver : Cell
  aggregations : Cell
  internal : Cell
deriving Repr

/-- A list of aggregations as a text. -/
def Aggregation.listText (aggregations : List Aggregation) : String :=
  (Json.arr (aggregations.map (·.toJson))).compact

def Cell.ofBool (b : Bool) : Cell := .int (if b then 1 else 0)

def MetricRow.cells (m : MetricRow) : MetricCells where
  reportId := .int m.reportId
  eventName := .text m.spec.eventName
  metricKind := .text m.spec.metricKind.name
  dataKind := .text m.spec.dataKind.name
  carryOver := .ofBool m.spec.carryOver
  aggregations := .text (Aggregation.listText m.spec.aggregations)
  internal := .ofBool m.spec.internal

namespace MetricCells

def same (a b : MetricCells) : Bool :=
  a.reportId.same b.reportId && a.eventName.same b.eventName && a.metricKind.same b.metricKind
    && a.dataKind.same b.dataKind && a.carryOver.same b.carryOver
    && a.aggregations.same b.aggregations && a.internal.same b.internal

def row? (c : MetricCells) (id : Int) : Option MetricRow := do
  let reportId ← c.reportId.asInt?
  let eventName ← c.eventName.asText?
  let metricKind ← c.metricKind.asText?.bind MetricKind.ofName?
  let dataKind ← c.dataKind.asText?.bind DataKind.ofName?
  let carryOver ← c.carryOver.asBool?
  let text ← c.aggregations.asText?
  let aggregations ← Json.decode (Json.Decoder.list Aggregation.decoder) text
  let internal ← c.internal.asBool?
  some { id, reportId, spec := ⟨eventName, metricKind, dataKind, carryOver, aggregations, internal⟩ }

end MetricCells

/-! ### Cells of a value -/

/-- The cells of a value, its id aside. One of the last three holds it. -/
structure ValueCells where
  metricId : Cell
  version : Cell
  timeMs : Cell
  text : Cell
  number : Cell
  bool : Cell
deriving Repr

def ValueRow.cells (v : ValueRow) : ValueCells where
  metricId := .int v.metricId
  version := .int v.version
  timeMs := .int v.timeMs
  text := match v.value with | .string s => .text s | _ => .null
  number := match v.value with | .number x => .real x | _ => .null
  bool := match v.value with | .bool b => .ofBool b | _ => .null

namespace ValueCells

def same (a b : ValueCells) : Bool :=
  a.metricId.same b.metricId && a.version.same b.version && a.timeMs.same b.timeMs
    && a.text.same b.text && a.number.same b.number && a.bool.same b.bool

/-- Reads a value; a row that holds none of the three is read as nothing. -/
def row? (c : ValueCells) (id : Int) : Option (Option ValueRow) := do
  let text ← c.text.optional? Cell.asText?
  let number ← c.number.optional? Cell.asNumber?
  let bool ← c.bool.optional? Cell.asBool?
  let value? : Option SampleValue :=
    match bool, number, text with
    | some b, _, _ => some (.bool b)
    | none, some x, _ => some (.number x)
    | none, none, some s => some (.string s)
    | none, none, none => none
  match value? with
  | none => some none
  | some value =>
    let metricId ← c.metricId.asInt?
    let version ← c.version.asNat32?
    let timeMs ← c.timeMs.asInt?
    some (some { id, metricId, version, timeMs, value })

end ValueCells

end Telemetry
