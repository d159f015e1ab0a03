import Telemetry.Store.Reports

/-!
# The values of metrics

Values are added one by one and asked for by metric and time: the numbers of a window summed up, or
the latest value up to a time.  Values are ordered by time, and by id among those of one time.

A sum is compensated: beside it runs the part that rounding has cut off, and both are added up at the
end, unless that part has overflown.

With its values the store is complete, and can be read as a whole.
-/

namespace Telemetry

/-! ### Queries -/

/-- The values that a query asks for. -/
structure ValueQuery where
  metricIds : List Int
  /-- Not before this time. -/
  since : Option Int
  /-- After this time. -/
  after : Option Int
  /-- Not after this time. -/
  upTo : Int
  /-- Only values of existing reports, and none from before its own report: carried copies are
  older than the report that has them. -/
  ownTime : Bool
deriving Repr

namespace ValueQuery

/-- Does a value match, its report aside? -/
def admits (q : ValueQuery) (v : ValueRow) : Bool :=
  q.metricIds.contains v.metricId
    && q.since.all (fun t => decide (t ≤ v.timeMs))
    && q.after.all (fun t => decide (t < v.timeMs))
    && decide (v.timeMs ≤ q.upTo)

/-- The same, by cells. -/
def admitsCells (q : ValueQuery) (c : ValueCells) : Bool :=
  q.metricIds.any (fun id => c.metricId.same (.int id))
    && q.since.all (fun t => (Cell.int t).atMost c.timeMs)
    && q.after.all (fun t => (Cell.int t).below c.timeMs)
    && c.timeMs.atMost (.int q.upTo)

end ValueQuery

/-! ### Sums -/

/-- A sum and what rounding has cut off from it. -/
structure CompensatedSum where
  sum : Float
  rest : Float
deriving Repr

namespace CompensatedSum

def add (s : CompensatedSum) (x : Float) : CompensatedSum :=
  let t := s.sum + x
  if s.sum.abs > x.abs then ⟨t, s.rest + ((s.sum - t) + x)⟩ else ⟨t, s.rest + ((x - t) + s.sum)⟩

def total (s : CompensatedSum) : Float := if s.rest.isFinite then s.sum + s.rest else s.sum

def ofList (xs : List Float) : CompensatedSum := xs.foldl add ⟨0.0, 0.0⟩

end CompensatedSum

/-- What the numbers of a window come to. -/
structure NumberSummary where
  count : Nat
  sum : Option Float
  min : Option Float
  max : Option Float
  mean : Option Float
deriving Repr

namespace NumberSummary

/-- A result that is no number counts as none. -/
def known (x : Float) : Option Float := if x.isNaN then none else some x

def least? : List Float → Option Float
  | [] => none
  | x :: xs => some (xs.foldl (fun a b => if b < a then b else a) x)

def greatest? : List Float → Option Float
  | [] => none
  | x :: xs => some (xs.foldl (fun a b => if a < b then b else a) x)

/-- The summary of a list of numbers, in the order of summing. -/
def ofList (xs : List Float) : NumberSummary :=
  let total := (CompensatedSum.ofList xs).total
  if xs.isEmpty then ⟨0, none, none, none, none⟩
  else ⟨xs.length, known total, least? xs, greatest? xs, known (total / Float.ofNat xs.length)⟩

end NumberSummary

/-! ### Adding values -/

/-- Is the value a number that is none? -/
def SampleValue.isNaN : SampleValue → Bool
  | .number x => x.isNaN
  | _ => false

/-- The value as it is kept: zero has no sign. -/
def SampleValue.kept : SampleValue → SampleValue
  | .number x => .number (if x == 0.0 then 0.0 else x)
  | v => v

namespace Store

/-- Adds a value to a metric; the result is its id. What is no number cannot be kept: it takes an id
and leaves no row. -/
def insertValue (s : Store) (metricId : Int) (version : Nat) (timeMs : Int) (value : SampleValue) :
    Except Failure (Option Int × Store) := do
  s.need [.values] .saveValue
  s.permit .values .insert true .saveValue
  needId s.values .saveValue
  if value.isNaN then .ok (none, { s with values := s.values.skip })
  else
    let row (id : Int) : ValueRow := { id, metricId, version, timeMs, value := value.kept }
    .ok (some s.values.nextId, { s with values := s.values.append row })

/-! ### The order of values -/

/-- The time of a value, as it is stored. -/
def timeOf (s : Store) (v : ValueRow) : Cell :=
  match oddCells? s.damage.valueCells v.id with
  | none => .int v.timeMs
  | some c => c.timeMs

/-- By time, then by id. -/
def precedes (s : Store) (a b : ValueRow) : Bool :=
  match (s.timeOf a).order (s.timeOf b) with
  | .lt => true
  | .eq => decide (a.id ≤ b.id)
  | .gt => false

/-- By metric, then by time, then by id: the order in which numbers are summed. -/
def precedesInSum (s : Store) (a b : ValueRow) : Bool :=
  decide (a.metricId < b.metricId) || (decide (a.metricId = b.metricId) && s.precedes a b)

/-! ### Asking for values -/

/-- Does a value match a query, its report aside? -/
def admits (s : Store) (q : ValueQuery) : ValueRow → Bool := s.testValue q.admits q.admitsCells

/-- The report that a value belongs to. -/
def ownerOf? (s : Store) (v : ValueRow) : Option ReportRow :=
  (s.metrics.rows.find? fun m => s.isValueOf [m.id] v).bind fun m =>
    s.reports.rows.find? fun r => s.belongsTo r.id m

/-- Is a value not older than its report? -/
def isFromOwnTime (s : Store) (v : ValueRow) (r : ReportRow) : Bool :=
  match oddCells? s.damage.reportCells r.id with
  | none => (Cell.int r.startMs).atMost (s.timeOf v)
  | some c => c.startMs.atMost (s.timeOf v)

/-- Does a value match a query and belong to a report, from its own time on if that is asked for? -/
def admitsOwned (s : Store) (q : ValueQuery) (v : ValueRow) : Bool :=
  s.admits q v && (s.ownerOf? v).any fun r => !q.ownTime || s.isFromOwnTime v r

/-- The number cell of a value. -/
def numberCell (s : Store) (v : ValueRow) : Cell :=
  match oddCells? s.damage.valueCells v.id with
  | none => v.value.asNumber?.elim .null .real
  | some c => c.number

/-- What the numbers that match a query come to. -/
def summarizeNumbers (s : Store) (q : ValueQuery) : Except Failure NumberSummary :=
  if q.metricIds.isEmpty then .ok (NumberSummary.ofList [])
  else do
    s.need [.values, .metrics, .reports] .aggregateNumbers
    let rows := (s.values.rows.filter (s.admitsOwned q)).mergeSort s.precedesInSum
    let cells := (rows.map s.numberCell).filter fun c => !c.isNull
    match cells.mapM Cell.asNumber? with
    | some numbers => .ok (NumberSummary.ofList numbers)
    | none => .error StorageStep.aggregateNumbers.failure

/-- The later of two values. -/
def later (s : Store) (a b : ValueRow) : ValueRow := if s.precedes a b then b else a

/-- The latest value that matches a query, by time and then by id. -/
def latestValue? (s : Store) (q : ValueQuery) : Except Failure (Option ValueRow) :=
  if q.metricIds.isEmpty then .ok none
  else do
    s.need [.values] .findLatest
    match s.values.rows.filter (s.admits q) with
    | [] => .ok none
    | v :: vs => s.readValue .findLatest (vs.foldl s.later v)

/-- All values; rows that hold none are left out. -/
def allValues (s : Store) : Except Failure (List ValueRow) := do
  s.need [.values] .prepareQuery
  let rows ← s.values.rows.mapM (s.readValue .convertValue)
  .ok (rows.filterMap id)

/-! ### Deleting values -/

/-- Deletes the values of a report from before a time. -/
def deleteValuesBefore (s : Store) (reportId cutoff : Int) : Except Failure Store :=
  let isOld := s.testValue (fun v => decide (v.timeMs < cutoff))
    (fun c => c.timeMs.below (.int cutoff))
  let isOwn := s.isValueOf (s.metricIdsOf reportId)
  s.removeValues (fun v => isOld v && isOwn v) .deleteOldValues

end Store

/-! ### The whole of a store

All rows of the three tables, each in the order of its ids, and how they are written.
-/

/-- All rows of a store. -/
structure StoreDump where
  reports : List ReportRow
  metrics : List MetricRow
  values : List ValueRow

/-- All rows of a store, as they are read. -/
def Store.dump (s : Store) : Except Failure StoreDump := do
  let reports ← s.allReports
  let metrics ← s.allMetrics
  let values ← s.allValues
  .ok { reports, metrics, values }

namespace StoreDump

def isEmpty (d : StoreDump) : Bool := d.reports.isEmpty && d.metrics.isEmpty && d.values.isEmpty

def reportJson (r : ReportRow) : Json :=
  .obj [("id", .int r.id), ("kind", r.kind.toJson), ("name", .ofOption .str r.name),
    ("start_time_ms", .int r.startMs), ("end_time_ms", .ofOption .int r.endMs),
    ("software_version", .ofOption .str r.softwareVersion)]

def metricJson (m : MetricRow) : Json :=
  .obj [("id", .int m.id), ("report_id", .int m.reportId), ("event_name", .str m.spec.eventName),
    ("metric_kind", m.spec.metricKind.toJson), ("data_kind", m.spec.dataKind.toJson),
    ("carry_over", .bool m.spec.carryOver),
    ("aggregations", .arr (m.spec.aggregations.map (·.toJson))), ("internal", .bool m.spec.internal)]

def valueJson (v : ValueRow) : Json :=
  .obj [("id", .int v.id), ("metadata_id", .int v.metricId), ("version", .int v.version),
    ("timestamp_ms", .int v.timeMs), ("value", v.value.toJson)]

def toJson (d : StoreDump) : Json :=
  .obj [("reports", .arr (d.reports.map reportJson)), ("metadata", .arr (d.metrics.map metricJson)),
    ("values", .arr (d.values.map valueJson))]

end StoreDump

end Telemetry
