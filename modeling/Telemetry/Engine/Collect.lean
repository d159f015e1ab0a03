import Telemetry.Engine.Ingest
import Telemetry.Engine.Summary
import Telemetry.Export.Writer
import Telemetry.Path
import Telemetry.Report.Basic
import Telemetry.Settings.Basic
import Telemetry.Text.Quoted

/-!
# Collecting

A collection goes through four stages.

1. The hourly accumulator is ended, summarised and exported; metrics that are carried over continue
   in a new one, with their latest value.
2. Once the ended hourly reports span a day they are merged into a daily report and deleted.
3. Sessions that have ended or are too old are reported and deleted.
4. What is kept too long is deleted: old values of the daily accumulator, metrics without values,
   reports without metrics.

The stages share one `Progress`.  A failure in any of them ends the collection; what the store was
before and whether an export remains is for the caller to settle.

Ages, spans and cutoffs are exact differences of times.  A program that has 64 bits for them stops
where one of them does not fit, and its collection is undone; what is said of collections that
succeed is not said of that case.  Only the ages of reports that the store itself compares are those
of 64 bits: see `Cell.minus`.
-/

namespace Telemetry

/-! ### Requests to collect

What a collection is asked for: its time, whether daily reports are made, what derives further
entries, which daily metrics the sessions take in, and where the series are exported to.
-/

/-- What a collection is asked for. -/
structure CollectRequest where
  nowMs : Int
  dailyEnabled : Bool
  derivation : Option Derivation
  sessionDailyMetrics : List String
  exportFolder : Option Path
  endSessions : Bool

namespace CollectRequest

/-- A request for a time, with daily reports and nothing else. -/
def atTime (nowMs : Int) : CollectRequest := ⟨nowMs, true, none, [], none, false⟩

def daily (r : CollectRequest) (enabled : Bool) : CollectRequest := { r with dailyEnabled := enabled }

def derivingBy (r : CollectRequest) (derivation : Derivation) : CollectRequest :=
  { r with derivation := some derivation }

def withSessionDailyMetrics (r : CollectRequest) (names : List String) : CollectRequest :=
  { r with sessionDailyMetrics := names }

def exportTo (r : CollectRequest) (folder : Path) : CollectRequest :=
  { r with exportFolder := some folder }

def endingSessions (r : CollectRequest) : CollectRequest := { r with endSessions := true }

/-- One line about the request. -/
def summary (r : CollectRequest) : String :=
  let now := String.ofList (Decimal.intChars r.nowMs)
  let derived := r.derivation.isSome
  let names := Text.quotedList r.sessionDailyMetrics
  let folder := r.exportFolder.elim "None" fun path => "Some(" ++ Text.quotedPath path.text ++ ")"
  "CollectRequest \x7b " ++
    ", ".intercalate
      [s!"now_ms: {now}", s!"daily_enabled: {r.dailyEnabled}", s!"derived: {derived}",
       s!"session_daily_metrics: {names}", s!"export_dir: {folder}",
       s!"force_end_all_reports: {r.endSessions}"]
    ++ " \x7d"

end CollectRequest

/-! ### The parts of a collection -/

/-- How far a collection has come. -/
structure Progress where
  store : Store
  files : Files
  consulted : List DerivedInput

/-- A part of a collection. -/
abbrev Collecting := ExceptT Failure (StateM Progress)

namespace Collecting

/-- An operation on the store. -/
def run {α : Type} (t : Transaction α) : Collecting α := fun p =>
  let (result, store) := t p.store
  (result, { p with store })

def ask {α : Type} (f : Store → Except Failure α) : Collecting α := run (Transaction.query f)

/-- Something that depends on the files and changes them. -/
def withFiles {α : Type} (f : Files → Except Failure α × Files) : Collecting α := fun p =>
  let (result, files) := f p.files
  (result, { p with files })

def metricsOf (reportId : Int) : Collecting (List MetricRow) := run do
  Transaction.useKept .metricsOf [.metrics] .prepareQuery .convertMetric
  Transaction.query (·.metricsOf reportId)

/-- A report on a window, summarised from groups. -/
def summarize (settings : Settings) (kind : ReportKind) (name : Option String) (w : Window)
    (groups : List MetricGroup) (softwareVersion : Option String) : Collecting MetricReport :=
  run ((MetricReport.empty kind name w softwareVersion).summarize settings.paging w groups)

/-- Derives further entries for a report, and merges them in. -/
def derive (request : CollectRequest) (report : MetricReport) :
    Collecting (MetricReport × List DerivedMetric) := fun p =>
  match request.derivation with
  | none => (.ok (report, []), p)
  | some derivation =>
    let input := report.derivedInput
    let derived := derivation input
    (.ok (report.withDerived derived, derived), { p with consulted := p.consulted ++ [input] })

/-! ### Exporting -/

def rollupInfo (spec : MetricSpec) : RollupInfo :=
  ⟨spec.eventName, spec.metricKind.name, spec.dataKind.name, spec.internal⟩

def derivedInfo (d : DerivedMetric) : RollupInfo :=
  ⟨d.eventName, d.metricKind.name, d.dataKind.name, d.internal⟩

def exportHeader (settings : Settings) (report : MetricReport) : ExportHeader where
  schemaVersion := settings.exports.schemaVersion
  startMs := report.startMs
  durationMs := report.durationMs
  reportType := report.kind.name
  producer := ⟨settings.exports.producerVersion, settings.exports.producerId⟩

def points (paging : PagingSettings) (endMs : Int) (g : MetricGroup) :
    Transaction (List (Except Failure DataPoint)) := do
  let values ← Transaction.series (g.exportQuery endMs) paging
  pure (values.map fun r => r.map fun v => ⟨v.timeMs, v.value.toJson⟩)

/-- Writes the series of groups one after the other; the first failure ends the writing. -/
def writeSeries (paging : PagingSettings) (endMs : Int) :
    ExportWriter → List MetricGroup → Transaction ExportWriter
  | w, [] => pure w
  | w, g :: gs => do
    match w.writeRollup (rollupInfo g.spec) (← points paging endMs g) with
    | (w, .ok _) => writeSeries paging endMs w gs
    | (_, .error e) => throw e

def writeDerived (w : ExportWriter) (derived : List DerivedMetric) : ExportWriter :=
  derived.foldl (fun w d => (w.writeRollup (derivedInfo d) [.ok ⟨d.timeMs, d.value.toJson⟩]).1) w

/-- The text of a report's export: the series of its groups, then its derived entries. -/
def exportText (settings : Settings) (report : MetricReport) (groups : List MetricGroup)
    (derived : List DerivedMetric) : Transaction String := do
  let start := ExportWriter.start (exportHeader settings report)
  let w ← writeSeries settings.paging report.endMs start groups
  pure (writeDerived w derived).finish

/-- Exports a report into a folder; the result is the path of the file. -/
def writeExport (settings : Settings) (folder : Path) (name : String) (report : MetricReport)
    (groups : List MetricGroup) (derived : List DerivedMetric) : Collecting Path := do
  let file ← withFiles (ExportFile.createIn folder name)
  try
    let text ← run (exportText settings report groups derived)
    withFiles fun fs =>
      match file.complete text fs with
      | .ok fs => (.ok file.path, fs)
      | .error e => (.error e, fs)
  catch e => withFiles fun fs => (.error e, file.abandon fs)

/-! ### The hourly stage -/

/-- Carries the latest values of metrics over into the successor of their report, which is started
by the first of them. Values that are too old are not carried; their ages are exact differences. -/
def carry (settings : Settings) (softwareVersion : Option String) (now : Int) :
    Option Int → List MetricRow → Transaction Unit
  | _, [] => pure ()
  | successor, m :: ms => do
    match ← Transaction.latestUpTo m.id now with
    | none => carry settings softwareVersion now successor ms
    | some v =>
      if settings.retention.carryOverMaxAge < now - v.timeMs then
        carry settings softwareVersion now successor ms
      else
        let id ←
          match successor with
          | some id => pure id
          | none => Transaction.openOrStart .hourly none now softwareVersion
        let _ ← Transaction.record id m.spec v.version v.timeMs v.value
        carry settings softwareVersion now (some id) ms

/-- Carries over what a report says is to be carried. -/
def carryOver (settings : Settings) (softwareVersion : Option String) (reportId now : Int) :
    Transaction Unit := do
  Transaction.useKept .carriedMetricsOf [.metrics] .prepareQuery .convertMetric
  let rows ← Transaction.query (·.carriedMetricsOf reportId)
  carry settings softwareVersion now none rows

/-- Ends the hourly accumulator and reports on it; the second result is the path of its export. -/
def hourly (settings : Settings) (softwareVersion : Option String) (request : CollectRequest)
    (exportName : String) : Collecting (MetricReport × Option Path) := do
  let now := request.nowMs
  match ← ask (·.openReport? .hourly none) with
  | none => pure (.empty .hourly none ⟨now, now⟩ softwareVersion, none)
  | some current =>
    run (Transaction.change (·.endReport current.id now))
    let groups := (← metricsOf current.id).map MetricGroup.ofRow
    let report ←
      summarize settings .hourly none ⟨current.startMs, now⟩ groups current.softwareVersion
    let (report, derived) ← derive request report
    let path ←
      match request.exportFolder with
      | none => pure none
      | some folder => some <$> writeExport settings folder exportName report groups derived
    run (carryOver settings softwareVersion current.id now)
    pure (report, path)

/-! ### The daily stage -/

def metricsOfAll : List Int → Collecting (List (List MetricRow))
  | [] => pure []
  | id :: ids => do
    let rows ← metricsOf id
    let rest ← metricsOfAll ids
    pure (rows :: rest)

def deleteAll : List Int → Collecting Unit
  | [] => pure ()
  | id :: ids => do
    run (Transaction.change (·.deleteReport id))
    deleteAll ids

/-- The window that reports span. -/
def span (now : Int) (reports : List ReportRow) : Window :=
  let start := ((reports.map (·.startMs)).min?).getD now
  ⟨start, ((reports.filterMap (·.endMs)).max?).getD start⟩

/-- Merges the ended hourly reports once they span a day. Their span is an exact difference. -/
def daily (settings : Settings) (request : CollectRequest) : Collecting (Option MetricReport) := do
  let ended ← ask (·.endedReports .hourly)
  if ended.isEmpty then pure none
  else if !request.dailyEnabled then
    deleteAll (ended.map (·.id))
    pure none
  else
    let w := span request.nowMs ended
    if w.durationMs < settings.retention.dailySpan then pure none
    else
      let groups := mergeMetrics (← metricsOfAll (ended.map (·.id)))
      let softwareVersion := ended.getLast?.bind (·.softwareVersion)
      let report ← summarize settings .daily none w groups softwareVersion
      let (report, _) ← derive request report
      deleteAll (ended.map (·.id))
      pure (some report)

/-! ### The session stage -/

/-- Adds the groups of daily metrics that a session does not have itself. -/
def addDailyGroups (accumulatorId : Int) : List String → List MetricGroup →
    Collecting (List MetricGroup)
  | [], groups => pure groups
  | name :: names, groups => do
    if groups.any (fun g => g.spec.eventName == name) then addDailyGroups accumulatorId names groups
    else
      match ← ask (·.findMetric? accumulatorId name) with
      | none => addDailyGroups accumulatorId names groups
      | some m => addDailyGroups accumulatorId names (groups ++ [.ofRow m])

def sessionGroups (request : CollectRequest) (accumulator : Option ReportRow) (session : ReportRow) :
    Collecting (List MetricGroup) := do
  let own := (← metricsOf session.id).map MetricGroup.ofRow
  match accumulator with
  | none => pure own
  | some accumulator => addDailyGroups accumulator.id request.sessionDailyMetrics own

/-- Reports on an ended session and deletes it. -/
def session (settings : Settings) (request : CollectRequest) (accumulator : Option ReportRow)
    (session : ReportRow) : Collecting MetricReport := do
  let groups ← sessionGroups request accumulator session
  let w : Window := ⟨session.startMs, session.endMs.getD request.nowMs⟩
  let report ← summarize settings .session session.name w groups session.softwareVersion
  let (report, _) ← derive request report
  run (Transaction.change (·.deleteReport session.id))
  pure report

def sessionReports (settings : Settings) (request : CollectRequest)
    (accumulator : Option ReportRow) : List ReportRow → Collecting (List MetricReport)
  | [] => pure []
  | r :: rs => do
    let report ← session settings request accumulator r
    let rest ← sessionReports settings request accumulator rs
    pure (report :: rest)

/-- Ends sessions that are due and reports on all that have ended. -/
def sessions (settings : Settings) (request : CollectRequest) : Collecting (List MetricReport) := do
  let now := request.nowMs
  if request.endSessions then run (Transaction.change (·.endSessions now))
  run (Transaction.change (·.expireSessions now settings.retention.sessionExpiry))
  let accumulator ←
    if request.sessionDailyMetrics.isEmpty then pure none
    else ask (·.openReport? .daily none)
  let ended ← ask (·.endedReports .session)
  sessionReports settings request accumulator ended

/-! ### The last stage -/

/-- Deletes what is kept too long. Its cutoffs are exact differences. -/
def retain (settings : Settings) (now : Int) : Transaction Unit := do
  let ages := settings.retention
  if let some accumulator ← Transaction.query (·.openReport? .daily none) then
    Transaction.change (·.deleteValuesBefore accumulator.id (now - ages.accumulatorRetention))
  Transaction.change (·.deleteOrphanMetrics)
  Transaction.change (·.deleteOrphanReports (now - ages.orphanReportExpiry))

/-- The stages after the hourly one. -/
def others (settings : Settings) (request : CollectRequest) (report : MetricReport)
    (path : Option Path) : Collecting CustomReport := do
  let daily ← daily settings request
  let sessions ← sessions settings request
  run (retain settings request.nowMs)
  pure { hourly := report, daily, sessions, exportPath := path.map (·.text) }

end Collecting

end Telemetry
