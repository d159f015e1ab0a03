import Telemetry.Proofs.ExportTexts
import Telemetry.Proofs.Observers
import Telemetry.Proofs.Places
import Telemetry.Proofs.Rollback

/-!
# What an export holds

The export of a collection is one file more in its folder.  Its text is that of a tree: the header of
the hourly report, a rollup for each metric of the accumulator that has values up to now, with these
values by time and id, and a rollup of one point for each derived entry.
-/

namespace Telemetry

namespace Store

/-- The series of a metric up to a time, by time and id; no point is from before the start. -/
def rollupOf (s : Store) (startMs now : Int) (m : MetricRow) : Rollup where
  info := Collecting.rollupInfo m.spec
  points := (((s.valuesOf m.id).filter fun v => decide (v.timeMs ≤ now)).mergeSort
    ValueRow.precedes).map fun v => ⟨max v.timeMs startMs, v.value.toJson⟩

/-- The export of a report that ends now: the series of its metrics by id, without the empty ones,
then what is derived, each entry by itself. -/
def exportTree (s : Store) (exports : ExportSettings) (r : ReportRow) (now : Int)
    (derived : List DerivedMetric) : ExportTree where
  header :=
    { schemaVersion := exports.schemaVersion
      startMs := r.startMs
      durationMs := now - r.startMs
      reportType := r.kind.name
      producer := ⟨exports.producerVersion, exports.producerId⟩ }
  rollups :=
    ((((s.metricRowsOf r.id).mergeSort fun a b => decide (a.id ≤ b.id)).map
      (s.rollupOf r.startMs now)).filter fun c => !c.points.isEmpty) ++
    derived.map fun d =>
      ⟨Collecting.derivedInfo d, [⟨max d.timeMs r.startMs, d.value.toJson⟩]⟩

end Store

/-! ### Rollups -/

/-- A metric's rollup as it is given to the writer. -/
def Gathered.rollup (c : Gathered) (endMs : Int) : Rollup :=
  ⟨Collecting.rollupInfo c.spec, c.points endMs⟩

def DerivedMetric.rollup (d : DerivedMetric) : Rollup :=
  ⟨Collecting.derivedInfo d, [⟨d.timeMs, d.value.toJson⟩]⟩

theorem Rollup.written_append (startMs : Int) (rs rs' : List Rollup) :
    written startMs (rs ++ rs') = written startMs rs ++ written startMs rs' := by
  rw [written, List.filter_append, List.map_append, written, written]

/-- Whether a rollup has points does not depend on the start. -/
theorem Rollup.written_eq (startMs : Int) (rs : List Rollup) :
    written startMs rs = (rs.map (since startMs)).filter fun r => !r.points.isEmpty := by
  rw [written, List.filter_map]
  congr 1
  exact List.filter_congr fun r _ => by simp [since]

namespace Collecting

/-- An export is the text of the tree of its rollups. -/
theorem textOf_eq (settings : Settings) (report : MetricReport) (gathered : List Gathered)
    (derived : List DerivedMetric) :
    textOf settings report gathered derived =
      (ExportTree.mk (exportHeader settings report)
        (Rollup.written report.startMs (gathered.map (·.rollup report.endMs) ++
          derived.map (·.rollup)))).toJson.compact := by
  have hseries : ∀ w, writtenSeries report.endMs gathered w =
      w.writeRollups (gathered.map (·.rollup report.endMs)) := by
    intro w
    rw [ExportWriter.writeRollups, List.foldl_map]
    rfl
  have hderived : ∀ w, writeDerived w derived = w.writeRollups (derived.map (·.rollup)) := by
    intro w
    rw [ExportWriter.writeRollups, List.foldl_map]
    rfl
  have hboth : ∀ (w : ExportWriter) (rs rs' : List Rollup),
      (w.writeRollups rs).writeRollups rs' = w.writeRollups (rs ++ rs') :=
    fun w rs rs' => List.foldl_append.symm
  rw [textOf, hseries, hderived, hboth, ExportWriter.finish_writeRollups]
  rfl

end Collecting

/-! ### From the store -/

namespace Store

variable {s : Store} {r : ReportRow} {now : Int}

theorem Consistent.rollup_gather (hs : s.Consistent) (m : MetricRow) :
    (((s.sheetOf r).gather (s.trackOf m)).rollup now).since r.startMs =
      s.rollupOf r.startMs now m := by
  have hvalues : TimedValue.byTime ((TimedValue.byTime (s.timedOf m.id)).filter fun v =>
      decide (v.timeMs ≤ now)) = (((s.valuesOf m.id).filter fun v =>
        decide (v.timeMs ≤ now)).mergeSort ValueRow.precedes).map (·.timed) := by
    rw [timed_mergeSort ((valuesOf_increasing hs m.id).filter _), timedOf]
    have hfilter : ((s.valuesOf m.id).filter fun v => decide (v.timeMs ≤ now)).map (·.timed) =
        ((s.valuesOf m.id).map (·.timed)).filter fun v => decide (v.timeMs ≤ now) := by
      rw [List.filter_map]
      rfl
    rw [hfilter, TimedValue.byTime_eq, TimedValue.byTime_eq, TimedValue.byTime_eq]
    exact sortedBy_congr fun t => by rw [alike_filter, alike_sortedBy, alike_filter]
  rw [rollupOf, Rollup.since, Gathered.rollup, Gathered.points, Sheet.gather, trackOf]
  dsimp only
  rw [List.flatMap_singleton, hvalues, List.map_map, List.map_map]
  rfl

/-- What is exported of a report is the text of its tree. -/
theorem Consistent.textOf_sheet (hs : s.Consistent) {report : MetricReport}
    (hstart : report.startMs = r.startMs) (hend : report.endMs = now) (hkind : report.kind = r.kind)
    (settings : Settings) (derived : List DerivedMetric) :
    Collecting.textOf settings report (s.sheetOf r).gathered derived =
      (s.exportTree settings.exports r now derived).toJson.compact := by
  have hmetrics : (s.metricRowsOf r.id).mergeSort (fun a b => decide (a.id ≤ b.id)) =
      s.metricRowsOf r.id := by
    refine List.mergeSort_of_pairwise ?_
    exact (hs.metricsNumbered.increasing.filter _).imp fun hlt => decide_eq_true hlt.le
  have hgathered : Rollup.written r.startMs ((s.sheetOf r).gathered.map (·.rollup now)) =
      (((s.metricRowsOf r.id).map (s.rollupOf r.startMs now)).filter fun c =>
        !c.points.isEmpty) := by
    rw [Rollup.written_eq, Sheet.gathered, sheetOf, tracksOf, List.map_map, List.map_map,
      List.map_map]
    congr 1
    exact List.map_congr_left fun m _ => hs.rollup_gather m
  have hderived : Rollup.written r.startMs (derived.map (·.rollup)) = derived.map fun d =>
      ⟨Collecting.derivedInfo d, [⟨max d.timeMs r.startMs, d.value.toJson⟩]⟩ := by
    have hall : (derived.map (·.rollup)).filter (fun c => !c.points.isEmpty) =
        derived.map (·.rollup) := by
      refine List.filter_eq_self.2 fun c hc => ?_
      obtain ⟨d, -, rfl⟩ := List.mem_map.1 hc
      rfl
    rw [Rollup.written, hall, List.map_map]
    rfl
  rw [Collecting.textOf_eq, Collecting.exportHeader, MetricReport.durationMs, hstart, hend, hkind,
    Rollup.written_append, hgathered, hderived, exportTree, hmetrics]

end Store

/-! ### The file of an export -/

/-- An export that is saved is one file more, with its text. -/
theorem Collecting.saveIn_gains {files : Files} {folder path : Path} {name text : String}
    (hfresh : Fresh files folder name)
    (h : (ExportFile.saveIn folder name text files).1 = .ok path) :
    path = folder.join (.ofText name) ∧ ∃ place, (files.createFolders folder).2.Gains
      (ExportFile.saveIn folder name text files).2 (folder.join (.ofText name)) place
      (.text text) := by
  rcases createIn_cases hfresh with ⟨e, herror, -⟩ | ⟨hok, place, hgains⟩
  · unfold ExportFile.saveIn at h
    split at h
    · cases h
    · next hcreate =>
      rw [hcreate] at herror
      cases herror
  · unfold ExportFile.saveIn at h ⊢
    split at h
    · cases h
    · next file fs hcreate =>
      rw [hcreate] at hok hgains
      obtain rfl := Except.ok.inj hok
      dsimp only at h hgains ⊢
      split at h
      · next fs' hcomplete =>
        cases h
        exact ⟨rfl, complete_gains hgains hfresh.path hcomplete⟩
      · cases h

/-! ### Collections -/

namespace Sheet

/-- The report on the hourly accumulator up to now, without what is derived for it. -/
def plainReport (now : Int) (x : Sheet) : MetricReport :=
  let w : Window := ⟨x.header.startMs, now⟩
  (MetricReport.empty .hourly none w x.header.softwareVersion).withGathered w x.gathered

theorem plainReport_header (now : Int) (x : Sheet) :
    (x.plainReport now).startMs = x.header.startMs ∧ (x.plainReport now).endMs = now ∧
      (x.plainReport now).kind = .hourly := by
  have hheader := MetricReport.sameHeader_withGathered ⟨x.header.startMs, now⟩ x.gathered
    (.empty .hourly none ⟨x.header.startMs, now⟩ x.header.softwareVersion)
  exact ⟨hheader.startMs, hheader.endMs, hheader.kind⟩

theorem hourlyReport_header (request : CollectRequest) (x : Sheet) :
    (x.hourlyReport request).1.startMs = x.header.startMs ∧
      (x.hourlyReport request).1.endMs = request.nowMs ∧
      (x.hourlyReport request).1.kind = .hourly := by
  obtain ⟨hstart, hend, hkind⟩ := x.plainReport_header request.nowMs
  have hheader := request.sameHeader_derived (x.plainReport request.nowMs)
  exact ⟨hheader.startMs.trans hstart, hheader.endMs.trans hend, hheader.kind.trans hkind⟩

theorem hourlyReport_derived (request : CollectRequest) (x : Sheet) :
    (x.hourlyReport request).2 =
      request.derivation.elim [] fun derivation =>
        derivation (x.plainReport request.nowMs).derivedInput := by
  rw [hourlyReport, CollectRequest.derived, plainReport]
  cases request.derivation <;> rfl

end Sheet

namespace Engine

variable {e : Engine}

/-- A successful collection has its hourly report and its files from the hourly stage. -/
theorem collect_hourlyIn {xs : List Sheet} (hshows : e.store.Shows xs) {request : CollectRequest}
    {exportName : String} {files : Files} {report : CustomReport}
    (h : (e.collect request exportName files).result = .ok report) :
    ∃ path ys, Sheet.hourlyIn e.settings e.softwareVersion request exportName xs files =
        (.ok (report.hourly, path), ys, (e.collect request exportName files).files) ∧
      report.exportPath = path.map (·.text) := by
  rcases collect_shows hshows request exportName files with ⟨-, -, hcollected⟩ | ⟨⟨err, hresult, -⟩, -⟩
  · rw [collected, Sheet.collectedIn, h] at hcollected
    unfold Sheet.collectIn at hcollected
    rcases hhourly : Sheet.hourlyIn e.settings e.softwareVersion request exportName xs files with
      ⟨err | ⟨hourly, path⟩, ys, files'⟩
    · rw [hhourly] at hcollected
      cases hcollected
    · rw [hhourly] at hcollected
      dsimp only at hcollected
      obtain ⟨hreport, hfiles⟩ := Prod.mk.inj (List.singleton_inj.1 hcollected)
      obtain rfl := Except.ok.inj hreport
      exact ⟨path, ys, by rw [hfiles]; rfl, rfl⟩
  · rw [h] at hresult
    cases hresult

/-- The derivation is consulted first for the hourly report. -/
theorem consulted_hourly (he : e.Reachable) {current : ReportRow}
    (hopen : e.store.hourly? = some current) {request : CollectRequest} {exportName : String}
    {files : Files} {report : CustomReport}
    (h : (e.collect request exportName files).result = .ok report) {derivation : Derivation}
    (hderivation : request.derivation = some derivation) :
    (e.collect request exportName files).consulted.head? =
      some ((e.store.sheetOf current).plainReport request.nowMs).derivedInput := by
  obtain ⟨xs, hshows⟩ := he.shows
  have hunrefused : (e.collect request exportName files).Unrefused := by
    intro err hresult
    rw [h] at hresult
    cases hresult
  obtain ⟨-, ⟨_, hresult, -⟩ | ⟨report₁, report₀, hresult, hresult₀, -, hconsulted⟩⟩ :=
    collect_plainly he.consistent ⟨e.settings.paging, request.derivation, request.exportFolder⟩
      request exportName exportName files files hunrefused
  · cases h.symm.trans hresult
  · have hplain : report₀.hourly = (e.store.sheetOf current).plainReport request.nowMs := by
      obtain ⟨path, ys, hhourly, -⟩ := collect_hourlyIn hshows hresult₀
      rw [Sheet.hourlyIn, hshows.hourly?_eq, hopen] at hhourly
      obtain ⟨hreport, -⟩ := Prod.mk.inj hhourly
      obtain ⟨hreport, -⟩ := Prod.mk.inj (Except.ok.inj hreport)
      exact hreport.symm
    change (e.collect request exportName files).consulted = _ at hconsulted
    rw [hconsulted, hopen, CustomReport.made, Option.isSome_some, if_pos rfl,
      List.singleton_append, List.cons_append, List.flatMap_cons, hplain, Observers.consults,
      hderivation]
    rfl

/-- A collection with an export leaves one file more, in the folder of the export.  It holds the tree
of the series that the hourly accumulator had; what is derived comes of the input that the derivation
was given first. -/
theorem collect_exports (he : e.Reachable) {current : ReportRow}
    (hopen : e.store.hourly? = some current) {request : CollectRequest} {folder : Path}
    (hfolder : request.exportFolder = some folder) {name : String} (hname : IsFileName name)
    {files : Files} (hfresh : Collecting.Fresh files folder name) {report : CustomReport}
    (h : (e.collect request name files).result = .ok report) :
    let after := e.collect request name files
    ∃ dir input,
      (if folder.isEmpty then dir = after.files.current else after.files.locate folder = .ok dir) ∧
      report.exportPath = some (folder.join (.ofText name)).text ∧
      files.file? (dir ++ [name]) = none ∧
      (∀ place, after.files.file? place =
        if place = dir ++ [name] then
          some (.text (e.store.exportTree e.settings.exports current request.nowMs
            (request.derivation.elim [] (· input))).toJson.compact)
        else files.file? place) ∧
      input.kind = .hourly ∧ input.startMs = current.startMs ∧ input.endMs = request.nowMs ∧
      (request.derivation.isSome → after.consulted.head? = some input) := by
  intro after
  obtain ⟨xs, hshows⟩ := he.shows
  have hs := he.consistent
  have hsame := files.createFolders_sameFiles folder
  obtain ⟨path, ys, hhourly, hpath⟩ := collect_hourlyIn hshows h
  rw [Sheet.hourlyIn, hshows.hourly?_eq, hopen, Option.map_some] at hhourly
  dsimp only at hhourly
  obtain ⟨hstart, hend, hkind⟩ := (e.store.sheetOf current).hourlyReport_header request
  have htext := hs.textOf_sheet (r := current) hstart hend
    (hkind.trans (Store.of_hourly? hopen).2.1.symm) e.settings
    ((e.store.sheetOf current).hourlyReport request).2
  rw [Sheet.hourlyReport_derived] at htext
  rw [Sheet.exportIn, hfolder] at hhourly
  dsimp only at hhourly
  rw [Sheet.hourlyReport_derived, htext] at hhourly
  generalize hsaved : ExportFile.saveIn folder name _ files = saved at hhourly
  rcases saved with ⟨err | saved, fs⟩
  · cases hhourly
  -- the export is where its path leads among the folders that were created for it
  obtain ⟨hreport, hrest⟩ := Prod.mk.inj hhourly
  obtain ⟨-, rfl⟩ := Prod.mk.inj (Except.ok.inj hreport)
  obtain ⟨-, hfiles⟩ := Prod.mk.inj hrest
  have hgains := Collecting.saveIn_gains hfresh (congrArg Prod.fst hsaved)
  rw [hsaved] at hgains
  obtain ⟨rfl, place, hgains⟩ := hgains
  rw [show fs = after.files from hfiles] at hgains
  obtain ⟨dir, rfl, hdir⟩ := Files.of_ending_join hname (hgains.sameFolders.ending hgains.ending)
  obtain ⟨hstart, hend, hkind⟩ := (e.store.sheetOf current).plainReport_header request.nowMs
  refine ⟨dir, ((e.store.sheetOf current).plainReport request.nowMs).derivedInput, hdir, hpath, ?_,
    fun q => ?_, hkind, hstart, hend, fun hsome => ?_⟩
  · rw [← hsame, Files.file?, hgains.free]
  · rw [hgains.file?, hsame]
  · obtain ⟨derivation, hderivation⟩ := Option.isSome_iff_exists.1 hsome
    exact consulted_hourly he hopen h hderivation

/-- The kind of a report, as an entry of its own that is older than the report. -/
def earlyEntry : Derivation := fun input =>
  [⟨"kind", .property, .string, true, 0, .string input.kind.name⟩]

/-- A derived entry is exported as if it were from the start of the report. -/
theorem collect_exports_early :
    let e := (⟨default, none, .empty⟩ : Engine).run [.add (.of "power" 5 (.bool true))]
    let request := ((CollectRequest.atTime 9).exportTo (.ofText "out")).derivingBy earlyEntry
    let after := e.collect request "x.json" default
    ∃ current dir input,
      let tree := e.store.exportTree e.settings.exports current 9 (earlyEntry input)
      e.store.hourly? = some current ∧
      tree.rollups.map (fun c => (c.info.key, c.points.map (·.timeMs))) =
        [("power", [5]), ("kind", [5])] ∧
      after.consulted.head? = some input ∧
      after.files.file? (dir ++ ["x.json"]) = some (.text tree.toJson.compact) := by
  intro e request
  have he : e.Reachable :=
    ⟨default, none, ⟨default, none, .empty⟩, [.add (.of "power" 5 (.bool true))], rfl, rfl⟩
  have hname : IsFileName "x.json" := ⟨by decide, by decide, by decide, by decide⟩
  have hfresh : Collecting.Fresh default (.ofText "out") "x.json" := by
    constructor
    · exact Files.Free.of_ending ["out", "x.json.tmp"] rfl rfl
    · exact Files.Free.of_ending ["out", "x.json"] rfl rfl
  have hok : (e.collect request "x.json" default).result.isOk = true := by decide +kernel
  have hseries : e.store.hourly?.map (fun r => (r.startMs,
      (e.store.exportTree e.settings.exports r 9 []).rollups.map fun c =>
        (c.info.key, c.points.map (·.timeMs)))) = some (5, [("power", [5])]) := by decide +kernel
  obtain ⟨current, hopen, hcurrent⟩ := Option.map_eq_some_iff.1 hseries
  obtain ⟨hstart, hrollups⟩ := Prod.mk.inj hcurrent
  have hexports := @collect_exports e he current hopen request (.ofText "out") rfl "x.json" hname
    default hfresh
  generalize e.collect request "x.json" default = after at *
  dsimp only
  cases hresult : after.result with
  | error err =>
    rw [hresult] at hok
    cases hok
  | ok report =>
    obtain ⟨dir, input, -, -, -, hfiles, -, -, -, hinput⟩ := hexports hresult
    refine ⟨current, dir, input, hopen, ?_, hinput rfl, (hfiles _).trans (if_pos rfl)⟩
    rw [Store.exportTree, List.map_append] at hrollups ⊢
    rw [List.map_nil, List.map_nil, List.append_nil] at hrollups
    rw [hrollups, earlyEntry, hstart]
    rfl

end Engine

end Telemetry
