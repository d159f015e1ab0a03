import Telemetry.Report.Basic
import Telemetry.Scan
import Telemetry.Store.Cursor

/-!
# Summaries

A report is made from groups: a name, what is known of the metric, and the ids of the metrics whose
values count for it — one id in a single report, several where reports are merged.  Each group is
summarised by itself, into the entries that its aggregations ask for:

* numbers of the window, without copies that were carried into it;
* the latest value, from before the window only for metrics that are carried over;
* scans, which begin with the latest value up to the start of the window.
-/

namespace Telemetry

/-! ### Groups -/

/-- Values of one metric, stored under one or several ids. -/
structure MetricGroup where
  spec : MetricSpec
  metricIds : List Int
deriving DecidableEq, Repr

def MetricGroup.ofRow (m : MetricRow) : MetricGroup := ⟨m.spec, [m.id]⟩

namespace MetricGroup

/-! ### What is asked for -/

def numbersQuery (g : MetricGroup) (w : Window) : ValueQuery :=
  ⟨g.metricIds, some w.startMs, none, w.endMs, true⟩

/-- The latest value of a window, or of all time where values are carried over. -/
def latestQuery (g : MetricGroup) (w : Window) : ValueQuery :=
  ⟨g.metricIds, if g.spec.carryOver then none else some w.startMs, none, w.endMs, false⟩

/-- The latest value up to the start of a window. -/
def seedQuery (g : MetricGroup) (w : Window) : ValueQuery :=
  ⟨g.metricIds, none, none, w.startMs, false⟩

/-- The values after the start of a window. -/
def scanQuery (g : MetricGroup) (w : Window) : ValueQuery :=
  ⟨g.metricIds, none, some w.startMs, w.endMs, true⟩

/-- All values up to a time. -/
def exportQuery (g : MetricGroup) (endMs : Int) : ValueQuery :=
  ⟨g.metricIds, none, none, endMs, false⟩

/-! ### Entries -/

def numberFor? (key : String) (summary : NumberSummary) : Aggregation → Option (String × Json)
  | .numeric .count => some (s!"{key}.count", .int summary.count)
  | .numeric .sum => summary.sum.map fun x => (s!"{key}.sum", .float x)
  | .numeric .min => summary.min.map fun x => (s!"{key}.min", .float x)
  | .numeric .max => summary.max.map fun x => (s!"{key}.max", .float x)
  | .numeric .mean => summary.mean.map fun x => (s!"{key}.mean", .float x)
  | _ => none

def numberEntries (g : MetricGroup) (w : Window) : Transaction (List (String × Json)) :=
  if g.spec.aggregations.any Aggregation.isScalar then do
    let summary ← Transaction.query (·.summarizeNumbers (g.numbersQuery w))
    pure (g.spec.aggregations.filterMap (numberFor? g.spec.eventName summary))
  else pure []

def latestEntries (g : MetricGroup) (w : Window) : Transaction (List (String × Json)) :=
  if g.spec.aggregations.any Aggregation.isLatest then do
    let v? ← Transaction.query (·.latestValue? (g.latestQuery w))
    pure (v?.toList.map fun v => (s!"{g.spec.eventName}.latest", v.value.toMetricJson))
  else pure []

/-- The values that a scan reads: the latest one up to the start of the window, then those after. -/
def scanned (g : MetricGroup) (paging : PagingSettings) (w : Window) :
    Transaction (List TimedValue) := do
  let seed ← Transaction.query (·.latestValue? (g.seedQuery w))
  let rows ← Transaction.series (g.scanQuery w) paging
  let values ← Transaction.query fun _ => rows.mapM id
  pure ((seed.toList ++ values).map (·.timed))

def scanEntries (g : MetricGroup) (paging : PagingSettings) (w : Window) :
    Transaction (List (String × Json)) :=
  if g.spec.aggregations.any Aggregation.isStreaming then do
    let values ← g.scanned paging w
    pure ((Scanner.feed w (Scanner.forMetric g.spec.aggregations) values).flatMap
      (·.entries g.spec.eventName w))
  else pure []

/-- All entries, in the order in which they are put. -/
def entries (g : MetricGroup) (paging : PagingSettings) (w : Window) :
    Transaction (List (String × Json)) := do
  let numbers ← g.numberEntries w
  let latest ← g.latestEntries w
  let scans ← g.scanEntries paging w
  pure (numbers ++ latest ++ scans)

end MetricGroup

/-- Puts the entries of groups into a report, each into the map that its metric belongs to. -/
def MetricReport.summarize (paging : PagingSettings) (w : Window) :
    List MetricGroup → MetricReport → Transaction MetricReport
  | [], r => pure r
  | g :: gs, r => do
    let entries ← g.entries paging w
    summarize paging w gs (r.insertAll g.spec.internal entries)

/-! ### Merging metrics by name

The metrics of several reports become one group for each name.  Of a name's attributes the last ones
stand; but where two rows of a name disagree on what the metric is, the name is left out for good.
-/

/-- What is known of a name so far: its group, or that its rows disagree. -/
inductive Merged where
  | agreed (group : MetricGroup)
  | conflicting
deriving DecidableEq, Repr

namespace Merged

/-- One more row of the name. -/
def absorb (m : MetricRow) : Option Merged → Merged
  | none => .agreed (.ofRow m)
  | some .conflicting => .conflicting
  | some (.agreed g) =>
    if g.spec.metricKind = m.spec.metricKind && g.spec.dataKind = m.spec.dataKind then
      .agreed ⟨m.spec, g.metricIds ++ [m.id]⟩
    else .conflicting

def group? : Merged → Option MetricGroup
  | .agreed g => some g
  | .conflicting => none

def add (merged : KeyMap Merged) (m : MetricRow) : KeyMap Merged :=
  merged.insert m.spec.eventName (absorb m (merged.get? m.spec.eventName))

end Merged

/-- The groups of the metrics of several reports, by name. -/
def mergeMetrics (reports : List (List MetricRow)) : List MetricGroup :=
  (reports.flatten.foldl Merged.add .empty).entries.filterMap fun e => e.2.group?

end Telemetry
