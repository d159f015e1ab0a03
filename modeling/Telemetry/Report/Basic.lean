import Telemetry.Scan

/-!
# Reports

What a collection hands out: a report on one accumulator, with two maps of entries, and the reports
of one call together.  Derived entries are computed from a finished report and merged into its maps;
a later entry replaces an earlier one of the same name.
-/

namespace Telemetry

def reportVersion : Nat := 1

/-- A finished report. -/
structure MetricReport where
  version : Nat
  startMs : Int
  endMs : Int
  kind : ReportKind
  name : Option String
  metrics : MetricMap
  internalMetrics : MetricMap
  softwareVersion : Option String

namespace MetricReport

def empty (kind : ReportKind) (name : Option String) (w : Window)
    (softwareVersion : Option String) : MetricReport :=
  ⟨reportVersion, w.startMs, w.endMs, kind, name, .empty, .empty, softwareVersion⟩

def durationMs (r : MetricReport) : Int := r.endMs - r.startMs

/-- Puts entries into one of the two maps. -/
def insertAll (r : MetricReport) (internal : Bool) (entries : List (String × Json)) :
    MetricReport :=
  if internal then { r with internalMetrics := r.internalMetrics.insertAll entries }
  else { r with metrics := r.metrics.insertAll entries }

end MetricReport

/-- The reports of one collection, and the path of its export if one was written. -/
structure CustomReport where
  hourly : MetricReport
  daily : Option MetricReport
  sessions : List MetricReport
  exportPath : Option String

/-- An entry computed from a finished report. -/
structure DerivedMetric where
  eventName : String
  metricKind : MetricKind
  dataKind : DataKind
  internal : Bool
  timeMs : Int
  value : SampleValue

/-- What a derivation is given: a report's kind, window and maps. -/
structure DerivedInput where
  kind : ReportKind
  startMs : Int
  endMs : Int
  metrics : MetricMap
  internalMetrics : MetricMap

/-- A derivation, called once for each report. -/
abbrev Derivation := DerivedInput → List DerivedMetric

/-- Puts derived entries into the map that each one names. -/
def mergeDerived (derived : List DerivedMetric) (maps : MetricMap × MetricMap) :
    MetricMap × MetricMap :=
  derived.foldl
    (fun (metrics, internals) d =>
      if d.internal then (metrics, internals.insert d.eventName d.value.toMetricJson)
      else (metrics.insert d.eventName d.value.toMetricJson, internals))
    maps

namespace MetricReport

def derivedInput (r : MetricReport) : DerivedInput :=
  ⟨r.kind, r.startMs, r.endMs, r.metrics, r.internalMetrics⟩

/-- The report with derived entries merged in. -/
def withDerived (r : MetricReport) (derived : List DerivedMetric) : MetricReport :=
  let (metrics, internals) := mergeDerived derived (r.metrics, r.internalMetrics)
  { r with metrics := metrics, internalMetrics := internals }

end MetricReport

end Telemetry
