import Telemetry.Store.Basic

/-!
# Reports and their metrics

A report is opened by the first sample or session that needs it, ended once, and deleted with all
that belongs to it.  For a kind and a name there is at most one open report: `openOrStart` starts one
only where none is open.  Of a report's metrics there is at most one of a name.
-/

namespace Telemetry

/-! ### Selecting reports -/

/-- Is this the open report of a kind and a name? -/
def ReportRow.isOpenAs (kind : ReportKind) (name : Option String) (r : ReportRow) : Bool :=
  r.kind == kind && r.name == name && r.endMs.isNone

theorem ReportRow.isOpenAs_iff {kind : ReportKind} {name : Option String} {r : ReportRow} :
    r.isOpenAs kind name = true ↔ r.kind = kind ∧ r.name = name ∧ r.endMs = none := by
  rw [isOpenAs, Bool.and_eq_true, Bool.and_eq_true, beq_iff_eq, beq_iff_eq,
    Option.isNone_iff_eq_none, and_assoc]

def ReportCells.isOpenAs (kind : ReportKind) (name : Option String) (c : ReportCells) : Bool :=
  c.kind.same (.text kind.name) && c.name.same (.ofOption .text name) && c.endMs.isNull

def ReportRow.isOpenSession (r : ReportRow) : Bool := r.kind == .session && r.endMs.isNone

def ReportCells.isOpenSession (c : ReportCells) : Bool :=
  c.kind.same (.text ReportKind.session.name) && c.endMs.isNull

/-- Is this an ended report of a kind? -/
def ReportRow.isEnded (kind : ReportKind) (r : ReportRow) : Bool := r.kind == kind && r.endMs.isSome

theorem ReportRow.isEnded_iff {kind : ReportKind} {r : ReportRow} :
    r.isEnded kind = true ↔ r.kind = kind ∧ r.endMs ≠ none := by
  rw [isEnded, Bool.and_eq_true, beq_iff_eq, Option.isSome_iff_ne_none]

def ReportCells.isEnded (kind : ReportKind) (c : ReportCells) : Bool :=
  c.kind.same (.text kind.name) && !c.endMs.isNull

/-- Is this a session that covers a time? Both ends count. -/
def ReportRow.isSessionAt (t : Int) (r : ReportRow) : Bool :=
  r.kind == .session && decide (r.startMs ≤ t)
    && match r.endMs with
      | none => true
      | some e => decide (t ≤ e)

def ReportCells.isSessionAt (t : Int) (c : ReportCells) : Bool :=
  c.kind.same (.text ReportKind.session.name) && c.startMs.atMost (.int t)
    && (c.endMs.isNull || (Cell.int t).atMost c.endMs)

def ReportRow.startsBefore (t : Int) (r : ReportRow) : Bool := decide (r.startMs < t)

def ReportCells.startsBefore (t : Int) (c : ReportCells) : Bool := c.startMs.below (.int t)

/-- Is the report older than an age? -/
def ReportRow.isOlder (now maxAge : Int) (r : ReportRow) : Bool :=
  (Cell.int maxAge).below ((Cell.int now).minus (.int r.startMs))

def ReportCells.isOlder (now maxAge : Int) (c : ReportCells) : Bool :=
  (Cell.int maxAge).below ((Cell.int now).minus c.startMs)

/-- As long as 64 bits hold the age, it is the difference of the times. -/
theorem ReportRow.isOlder_eq {now maxAge : Int} {r : ReportRow}
    (h : fitsInt64 (now - r.startMs) = true) :
    r.isOlder now maxAge = decide (maxAge < now - r.startMs) := by
  simp [isOlder, Cell.minus, Cell.isNull, Cell.counted, h, Cell.below_int]

/-- By start, then by id. -/
def ReportRow.precedes (a b : ReportRow) : Bool :=
  decide (a.startMs < b.startMs) || (decide (a.startMs = b.startMs) && decide (a.id ≤ b.id))

namespace Store

/-! ### Finding reports -/

def openReport? (s : Store) (kind : ReportKind) (name : Option String) :
    Except Failure (Option ReportRow) := do
  s.need [.reports] .findOpenReport
  match s.reports.rows.find? (s.testReport (·.isOpenAs kind name) (·.isOpenAs kind name)) with
  | none => .ok none
  | some r => (s.readReport .findOpenReport r).map some

/-- The ended reports of a kind, by start. -/
def endedReports (s : Store) (kind : ReportKind) : Except Failure (List ReportRow) := do
  s.need [.reports] .prepareQuery
  let rows ← (s.reports.rows.filter (s.testReport (·.isEnded kind) (·.isEnded kind))).mapM
    (s.readReport .convertReport)
  .ok (rows.mergeSort ReportRow.precedes)

/-- The sessions that cover a time, by id. -/
def sessionsAt (s : Store) (t : Int) : List Int :=
  (s.reports.rows.filter (s.testReport (·.isSessionAt t) (·.isSessionAt t))).map (·.id)

/-- All reports. That they are gone is noticed only as they are read, if it was not noticed before. -/
def allReports (s : Store) : Except Failure (List ReportRow) := do
  s.need [.reports] (if s.damage.unseen then .convertReport else .prepareQuery)
  s.reports.rows.mapM (s.readReport .convertReport)

/-! ### Starting and ending reports -/

/-- Starts a report; the result is its id. -/
def startReport (s : Store) (kind : ReportKind) (name : Option String) (startMs : Int)
    (softwareVersion : Option String) : Except Failure (Int × Store) := do
  s.permit .reports .insert true .createReport
  needId s.reports .createReport
  let row (id : Int) : ReportRow := { id, kind, name, startMs, endMs := none, softwareVersion }
  .ok (s.reports.nextId, { s with reports := s.reports.append row })

/-- The open report of a kind and a name, started at a time if none is open. -/
def openOrStart (s : Store) (kind : ReportKind) (name : Option String) (startMs : Int)
    (softwareVersion : Option String) : Except Failure (Int × Store) := do
  match ← s.openReport? kind name with
  | some r => .ok (r.id, s)
  | none => s.startReport kind name startMs softwareVersion

def endSelected (s : Store) (selected : ReportRow → Bool) (endMs : Int) (step : StorageStep) :
    Except Failure Store := do
  s.need [.reports] step
  s.permit .reports .update (s.reports.rows.any selected) step
  let ends (id : Int) : Bool := s.reports.rows.any fun r => r.id == id && selected r
  let cells := s.damage.reportCells.map fun e =>
    if ends e.1 then (e.1, { e.2 with endMs := Cell.int endMs }) else e
  .ok { s with
    reports := s.reports.update selected fun r => { r with endMs := some endMs }
    damage := { s.damage with reportCells := cells } }

def endReport (s : Store) (id endMs : Int) : Except Failure Store :=
  s.endSelected (fun r => r.id == id) endMs .endReport

/-- Ends the open report of a kind and a name, if there is one. -/
def endOpen (s : Store) (kind : ReportKind) (name : Option String) (endMs : Int) :
    Except Failure Store := do
  match ← s.openReport? kind name with
  | none => .ok s
  | some r => s.endReport r.id endMs

/-- Ends the open sessions that are older than an age. -/
def expireSessions (s : Store) (now maxAge : Int) : Except Failure Store :=
  s.endSelected
    (s.testReport (fun r => r.isOpenSession && r.isOlder now maxAge)
      (fun c => c.isOpenSession && c.isOlder now maxAge))
    now .expireSessions

def endSessions (s : Store) (now : Int) : Except Failure Store :=
  s.endSelected (s.testReport (·.isOpenSession) (·.isOpenSession)) now .endAllSessions

/-! ### Deleting reports -/

def belongsTo (s : Store) (reportId : Int) : MetricRow → Bool :=
  s.testMetric (fun m => m.reportId == reportId) (fun c => c.reportId.same (.int reportId))

/-- Is a value one of these metrics'? -/
def isValueOf (s : Store) (metricIds : List Int) : ValueRow → Bool :=
  s.testValue (fun v => metricIds.contains v.metricId)
    (fun c => metricIds.any fun id => c.metricId.same (.int id))

def metricIdsOf (s : Store) (reportId : Int) : List Int :=
  (s.metrics.rows.filter (s.belongsTo reportId)).map (·.id)

def removeValues (s : Store) (selected : ValueRow → Bool) (step : StorageStep) :
    Except Failure Store := do
  s.need [.values, .metrics] step
  s.permit .values .delete (s.values.rows.any selected) step
  .ok { s with values := s.values.remove selected }

def removeMetrics (s : Store) (selected : MetricRow → Bool) (step : StorageStep) :
    Except Failure Store := do
  s.permit .metrics .delete (s.metrics.rows.any selected) step
  .ok { s with metrics := s.metrics.remove selected }

def removeReports (s : Store) (selected : ReportRow → Bool) (step : StorageStep) :
    Except Failure Store := do
  s.permit .reports .delete (s.reports.rows.any selected) step
  .ok { s with reports := s.reports.remove selected }

/-- Deletes a report with its metrics and their values. -/
def deleteReport (s : Store) (id : Int) : Except Failure Store := do
  let s ← s.removeValues (s.isValueOf (s.metricIdsOf id)) .deleteValues
  s.need [.metrics] .deleteMetrics
  let s ← s.removeMetrics (s.belongsTo id) .deleteMetrics
  s.need [.reports] .deleteReport
  s.removeReports (fun r => r.id == id) .deleteReport

/-- Deletes the reports without metrics that started before a time. -/
def deleteOrphanReports (s : Store) (cutoff : Int) : Except Failure Store := do
  s.need [.reports, .metrics] .deleteOrphanReports
  let orphaned (r : ReportRow) : Bool :=
    !s.metrics.rows.any (s.belongsTo r.id)
      && s.testReport (·.startsBefore cutoff) (·.startsBefore cutoff) r
  s.removeReports orphaned .deleteOrphanReports

end Store

/-! ### The metrics of a report

A report has at most one metric of a name.  `putMetric` is a keyed write: it changes the metric in
place, so that its values stay with it, and adds one only where there is none.
-/

/-- Is this a report's metric of a name? -/
def MetricRow.isNamed (reportId : Int) (eventName : String) (m : MetricRow) : Bool :=
  m.reportId == reportId && m.spec.eventName == eventName

/-- The same, by cells. -/
def MetricCells.isNamed (reportId : Int) (eventName : String) (c : MetricCells) : Bool :=
  c.reportId.same (.int reportId) && c.eventName.same (.text eventName)

namespace Store

def findMetric? (s : Store) (reportId : Int) (eventName : String) :
    Except Failure (Option MetricRow) := do
  s.need [.metrics] .findMetric
  let isNamed := s.testMetric (·.isNamed reportId eventName) (·.isNamed reportId eventName)
  match s.metrics.rows.find? isNamed with
  | none => .ok none
  | some m => (s.readMetric .findMetric m).map some

def metricsOf (s : Store) (reportId : Int) : Except Failure (List MetricRow) :=
  (s.metrics.rows.filter (s.belongsTo reportId)).mapM (s.readMetric .convertMetric)

/-- The metrics of a report whose latest value is carried over, by id. -/
def carriedMetricsOf (s : Store) (reportId : Int) : Except Failure (List MetricRow) :=
  let isCarried := s.testMetric (·.spec.carryOver) (·.carryOver.same (.ofBool true))
  (s.metrics.rows.filter fun m => s.belongsTo reportId m && isCarried m).mapM
    (s.readMetric .convertMetric)

def allMetrics (s : Store) : Except Failure (List MetricRow) := do
  s.need [.metrics] .prepareQuery
  s.metrics.rows.mapM (s.readMetric .convertMetric)

/-- Gives a report's metric these attributes; the result is its id. -/
def putMetric (s : Store) (reportId : Int) (spec : MetricSpec) : Except Failure (Int × Store) := do
  match ← s.findMetric? reportId spec.eventName with
  | none =>
    s.permit .metrics .insert true .saveMetric
    needId s.metrics .saveMetric
    .ok (s.metrics.nextId, { s with metrics := s.metrics.append fun id => { id, reportId, spec } })
  | some m =>
    if m.spec = spec then .ok (m.id, s)
    else
      s.permit .metrics .update true .updateMetric
      let cells := s.damage.metricCells.filter fun e => e.1 != m.id
      .ok (m.id, { s with
        metrics := s.metrics.update (fun r => r.id == m.id) fun _ => { m with spec }
        damage := { s.damage with metricCells := cells } })

def deleteOrphanMetrics (s : Store) : Except Failure Store := do
  s.need [.metrics, .values] .deleteOrphanMetrics
  s.removeMetrics (fun m => !s.values.rows.any (s.isValueOf [m.id])) .deleteOrphanMetrics

end Store

end Telemetry
