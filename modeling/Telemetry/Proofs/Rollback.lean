import Telemetry.Proofs.FileTree
import Telemetry.Proofs.Runs

/-!
# What a failed collection leaves

A collection that fails leaves the tables as they were, whatever was done to the store and wherever
it fails.  Its export is given up when it cannot be completed, and removed when a later stage fails.
Between the two lies one step: once the export is complete, the hourly stage still carries over.  If
that fails, the stage hands no path on, and the export stays.
-/

namespace Telemetry

namespace Collecting

variable {α β : Type}

/-! ### Parts that leave the files alone -/

/-- The part of a collection leaves the files as they are, whether or not it succeeds. -/
def KeepsFiles (c : Collecting α) : Prop := ∀ p, (outcome c p).2.files = p.files

theorem KeepsFiles.of_yields {c : Collecting α} (hc : KeepsFiles c) {p p' : Progress} {a : α}
    (h : Yields c p a p') : p'.files = p.files := by
  rw [← hc p, h]

theorem KeepsFiles.of_fails {c : Collecting α} (hc : KeepsFiles c) {p p' : Progress} {e : Failure}
    (h : Fails c p e p') : p'.files = p.files := by
  rw [← hc p, h]

theorem keepsFiles_pure (a : α) : KeepsFiles (pure a) := fun _ => rfl

theorem keepsFiles_bind {c : Collecting α} {f : α → Collecting β} (hc : KeepsFiles c)
    (hf : ∀ a, KeepsFiles (f a)) : KeepsFiles (c >>= f) := by
  intro p
  have hfirst := hc p
  rw [outcome_bind]
  rcases hc : outcome c p with ⟨e | a, p₁⟩
  · rwa [hc] at hfirst
  · rw [hc] at hfirst
    exact (hf a p₁).trans hfirst

theorem keepsFiles_run (t : Transaction α) : KeepsFiles (run t) := fun _ => rfl

theorem keepsFiles_derive (request : CollectRequest) (report : MetricReport) :
    KeepsFiles (derive request report) := by
  intro p
  unfold outcome derive
  split <;> rfl

theorem keepsFiles_metricsOfAll (ids : List Int) : KeepsFiles (metricsOfAll ids) := by
  induction ids with
  | nil => exact keepsFiles_pure _
  | cons id ids ih =>
    exact keepsFiles_bind (keepsFiles_run _) fun _ => keepsFiles_bind ih fun _ => keepsFiles_pure _

theorem keepsFiles_deleteAll (ids : List Int) : KeepsFiles (deleteAll ids) := by
  induction ids with
  | nil => exact keepsFiles_pure _
  | cons id ids ih => exact keepsFiles_bind (keepsFiles_run _) fun _ => ih

theorem keepsFiles_daily (settings : Settings) (request : CollectRequest) :
    KeepsFiles (daily settings request) := by
  unfold daily
  refine keepsFiles_bind (keepsFiles_run _) fun ended => ?_
  split
  · exact keepsFiles_pure _
  split
  · exact keepsFiles_bind (keepsFiles_deleteAll _) fun _ => keepsFiles_pure _
  simp only
  split
  · exact keepsFiles_pure _
  · refine keepsFiles_bind (keepsFiles_metricsOfAll _) fun _ => ?_
    refine keepsFiles_bind (keepsFiles_run _) fun _ => ?_
    refine keepsFiles_bind (keepsFiles_derive _ _) fun _ => ?_
    exact keepsFiles_bind (keepsFiles_deleteAll _) fun _ => keepsFiles_pure _

theorem keepsFiles_addDailyGroups (accumulatorId : Int) (names : List String) :
    ∀ groups, KeepsFiles (addDailyGroups accumulatorId names groups) := by
  induction names with
  | nil => exact fun groups => keepsFiles_pure groups
  | cons name names ih =>
    intro groups
    unfold addDailyGroups
    split
    · exact ih _
    · refine keepsFiles_bind (keepsFiles_run _) fun m? => ?_
      split
      · exact ih _
      · exact ih _

theorem keepsFiles_session (settings : Settings) (request : CollectRequest)
    (accumulator : Option ReportRow) (r : ReportRow) :
    KeepsFiles (session settings request accumulator r) := by
  have hgroups : KeepsFiles (sessionGroups request accumulator r) := by
    refine keepsFiles_bind (keepsFiles_run _) fun own => ?_
    split
    · exact keepsFiles_pure _
    · exact keepsFiles_addDailyGroups _ _ _
  refine keepsFiles_bind hgroups fun _ => keepsFiles_bind (keepsFiles_run _) fun _ => ?_
  refine keepsFiles_bind (keepsFiles_derive _ _) fun _ => ?_
  exact keepsFiles_bind (keepsFiles_run _) fun _ => keepsFiles_pure _

theorem keepsFiles_sessionReports (settings : Settings) (request : CollectRequest)
    (accumulator : Option ReportRow) (rs : List ReportRow) :
    KeepsFiles (sessionReports settings request accumulator rs) := by
  induction rs with
  | nil => exact keepsFiles_pure _
  | cons r rs ih =>
    exact keepsFiles_bind (keepsFiles_session _ _ _ _) fun _ =>
      keepsFiles_bind ih fun _ => keepsFiles_pure _

theorem keepsFiles_sessions (settings : Settings) (request : CollectRequest) :
    KeepsFiles (sessions settings request) := by
  -- what is left once the sessions have ended that are to end in any case
  have hrest : ∀ accumulator : Collecting (Option ReportRow), KeepsFiles accumulator →
      KeepsFiles (do
        let accumulator ← accumulator
        let ended ← ask (·.endedReports .session)
        sessionReports settings request accumulator ended) := fun _ haccumulator =>
    keepsFiles_bind haccumulator fun _ => keepsFiles_bind (keepsFiles_run _) fun _ =>
      keepsFiles_sessionReports _ _ _ _
  unfold sessions
  simp only
  split
  · refine keepsFiles_bind (keepsFiles_run _) fun _ => keepsFiles_bind (keepsFiles_run _) fun _ => ?_
    split
    · exact hrest _ (keepsFiles_pure _)
    · exact hrest _ (keepsFiles_run _)
  · refine keepsFiles_bind (keepsFiles_run _) fun _ => ?_
    split
    · exact hrest _ (keepsFiles_pure _)
    · exact hrest _ (keepsFiles_run _)

theorem keepsFiles_others (settings : Settings) (request : CollectRequest) (report : MetricReport)
    (path : Option Path) : KeepsFiles (others settings request report path) := by
  unfold others
  refine keepsFiles_bind (keepsFiles_daily _ _) fun _ => ?_
  refine keepsFiles_bind (keepsFiles_sessions _ _) fun _ => ?_
  exact keepsFiles_bind (keepsFiles_run _) fun _ => keepsFiles_pure _

/-! ### The export -/

/-- Nothing is where an export is written, neither at first nor at last, once its folder is there. -/
structure Fresh (files : Files) (folder : Path) (exportName : String) : Prop where
  draft : (files.createFolders folder).2.Free (ExportFile.mk (folder.join (.ofText exportName))).draft
  path : (files.createFolders folder).2.Free (folder.join (.ofText exportName))

/-- The second tree has the files of the first one and one more, at the path of an export. -/
def Exports (files files' : Files) (folder : Path) (exportName : String) : Prop :=
  ∃ place text, (files.createFolders folder).2.Gains files' (folder.join (.ofText exportName)) place
    (.text text)

variable {settings : Settings} {request : CollectRequest} {folder : Path} {exportName : String}
  {report : MetricReport} {p p' : Progress} {e : Failure}

/-- An export that cannot be begun leaves no file, and one that is begun has an empty one. -/
theorem createIn_cases {files : Files} (hfresh : Fresh files folder exportName) :
    (∃ e, (ExportFile.createIn folder exportName files).1 = .error e ∧
      files.SameFiles (ExportFile.createIn folder exportName files).2) ∨
    (ExportFile.createIn folder exportName files).1 = .ok ⟨folder.join (.ofText exportName)⟩ ∧
      ∃ place, (files.createFolders folder).2.Gains
        (ExportFile.createIn folder exportName files).2
        (ExportFile.mk (folder.join (.ofText exportName))).draft place (.text "") := by
  have hsame := files.createFolders_sameFiles folder
  have hfree := hfresh.draft
  unfold ExportFile.createIn
  rcases hfolders : files.createFolders folder with ⟨fault | ⟨⟨⟩⟩, tree⟩ <;>
    rw [hfolders] at hsame hfree
  · exact .inl ⟨_, rfl, hsame⟩
  · simp only
    unfold ExportFile.create
    cases hwrite : tree.write (ExportFile.mk (folder.join (.ofText exportName))).draft (.text "") with
    | error fault => exact .inl ⟨_, rfl, hsame⟩
    | ok fs => exact .inr ⟨rfl, hfree.write hwrite⟩

/-- A file that is completed is there under its last name, and nothing is under its first one. -/
theorem complete_gains {files files' fs : Files} {file : ExportFile} {place : Place}
    {content : FileContent} {text : String} (hgains : files.Gains files' file.draft place content)
    (hfree : files.Free file.path) (h : file.complete text files' = .ok fs) :
    ∃ place', files.Gains fs file.path place' (.text text) := by
  unfold ExportFile.complete ExportFile.plainly at h
  obtain ⟨fs₁, hwrite, hrename⟩ := bind_eq_ok.1 h
  cases hwritten : files'.write file.draft (.text text) with
  | error fault =>
    rw [hwritten] at hwrite
    cases hwrite
  | ok fs₂ =>
    rw [hwritten] at hwrite
    cases hwrite
    cases hmoved : fs₁.rename file.draft file.path with
    | error fault =>
      rw [hmoved] at hrename
      cases hrename
    | ok fs₃ =>
      rw [hmoved] at hrename
      cases hrename
      exact (hgains.write hwritten).rename hfree hmoved

/-- An export is written as a whole or not at all. -/
theorem writeExport_cases (settings : Settings) (report : MetricReport) (groups : List MetricGroup)
    (derived : List DerivedMetric) (hfresh : Fresh p.files folder exportName) :
    (∃ e p', Fails (writeExport settings folder exportName report groups derived) p e p' ∧
      p.files.SameFiles p'.files) ∨
    ∃ p', Yields (writeExport settings folder exportName report groups derived) p
        (folder.join (.ofText exportName)) p' ∧ Exports p.files p'.files folder exportName := by
  have hsame := p.files.createFolders_sameFiles folder
  unfold Fails Yields writeExport
  rw [outcome_bind, outcome_withFiles]
  rcases createIn_cases hfresh with ⟨e, herror, hfiles⟩ | ⟨hok, place, hgains⟩
  · rw [herror]
    exact .inl ⟨e, _, rfl, hfiles⟩
  · rw [hok]
    simp only
    rw [outcome_tryCatch, outcome_bind, outcome_run]
    -- what is begun is given up if the text cannot be written, and if the file cannot be completed
    rcases outcome (exportText settings report groups derived) p.store with ⟨e | text, s⟩
    · refine .inl ⟨e, _, rfl, hsame.trans ?_⟩
      exact hgains.discard
    · simp only [outcome_withFiles]
      cases hcomplete : (ExportFile.mk (folder.join (.ofText exportName))).complete text
          (ExportFile.createIn folder exportName p.files).2 with
      | error e =>
        refine .inl ⟨e, _, rfl, hsame.trans ?_⟩
        exact hgains.discard
      | ok fs =>
        obtain ⟨place', hgains'⟩ := complete_gains hgains hfresh.path hcomplete
        exact .inr ⟨_, rfl, place', text, hgains'⟩

/-! ### The hourly stage -/

/-- What a part of a collection makes of the files: one thing if it fails, another with its
result. -/
structure Leaves (c : Collecting α) (files : Files) (failed : Files → Prop)
    (done : α → Files → Prop) : Prop where
  failed : ∀ {p e p'}, p.files = files → Fails c p e p' → failed p'.files
  done : ∀ {p a p'}, p.files = files → Yields c p a p' → done a p'.files

/-- A part that leaves the files alone can go before. -/
theorem leaves_bind {c : Collecting α} {f : α → Collecting β} {files : Files}
    {failed : Files → Prop} {done : β → Files → Prop} (hc : KeepsFiles c) (hfailed : failed files)
    (hf : ∀ a, Leaves (f a) files failed done) : Leaves (c >>= f) files failed done where
  failed := by
    intro p e p' hfiles h
    rcases fails_bind.1 h with h | ⟨a, p₁, h₁, h⟩
    · rwa [hc.of_fails h, hfiles]
    · exact (hf a).failed ((hc.of_yields h₁).trans hfiles) h
  done := by
    intro p b p' hfiles h
    obtain ⟨a, p₁, h₁, h⟩ := yields_bind.1 h
    exact (hf a).done ((hc.of_yields h₁).trans hfiles) h

theorem leaves_exportHourly (settings : Settings) (report : MetricReport)
    (groups : List MetricGroup) (derived : List DerivedMetric) {files : Files}
    (hfolder : request.exportFolder = some folder) (hfresh : Fresh files folder exportName) :
    Leaves (exportHourly settings request exportName report groups derived) files files.SameFiles
      fun path fs => path = some (folder.join (.ofText exportName)) ∧
        Exports files fs folder exportName := by
  unfold exportHourly
  rw [hfolder]
  constructor
  · intro p e p' hfiles h
    subst hfiles
    have hwrite := fails_map.1 h
    rcases writeExport_cases settings report groups derived hfresh with
      ⟨e₀, p₀, hfails, hsame⟩ | ⟨p₀, hyields, -⟩
    · cases hfails.symm.trans hwrite
      exact hsame
    · cases hyields.symm.trans hwrite
  · intro p path p' hfiles h
    subst hfiles
    obtain ⟨written, hwrite, rfl⟩ := yields_map.1 h
    rcases writeExport_cases settings report groups derived hfresh with
      ⟨e₀, p₀, hfails, -⟩ | ⟨p₀, hyields, hexports⟩
    · cases hfails.symm.trans hwrite
    · cases hyields.symm.trans hwrite
      exact ⟨rfl, hexports⟩

/-- Before the hourly stage carries over, a failure leaves no file, and success leaves the export. -/
theorem leaves_reportHourly {files : Files} (hfolder : request.exportFolder = some folder)
    (hfresh : Fresh files folder exportName) (current : ReportRow) :
    Leaves (reportHourly settings request exportName current) files files.SameFiles
      fun result fs => result.2 = some (folder.join (.ofText exportName)) ∧
        Exports files fs folder exportName := by
  have hrefl := Files.SameFiles.refl files
  unfold reportHourly
  refine leaves_bind (keepsFiles_run _) hrefl fun _ => ?_
  refine leaves_bind (keepsFiles_run _) hrefl fun _ => ?_
  refine leaves_bind (keepsFiles_run _) hrefl fun _ => ?_
  refine leaves_bind (keepsFiles_derive _ _) hrefl fun _ => ?_
  have hexport := fun report groups derived =>
    leaves_exportHourly settings report groups derived hfolder hfresh
  constructor
  · intro p e p' hfiles h
    rcases fails_bind.1 h with h | ⟨path, p₁, -, h⟩
    · exact (hexport _ _ _).failed hfiles h
    · exact (fails_pure.1 h).elim
  · intro p result p' hfiles h
    obtain ⟨path, p₁, hpath, h⟩ := yields_bind.1 h
    obtain ⟨rfl, rfl⟩ := yields_pure.1 h
    exact (hexport _ _ _).done hfiles hpath

/-- The hourly stage has written its export and fails to carry over. -/
def FailsCarrying (settings : Settings) (version : Option String) (request : CollectRequest)
    (exportName : String) (p : Progress) : Prop :=
  ∃ current result p₁ e p₂, p.store.openReport? .hourly none = .ok (some current) ∧
    Yields (reportHourly settings request exportName current) p result p₁ ∧
    Fails (run (carryOver settings version current.id request.nowMs)) p₁ e p₂

variable {version : Option String}

/-- Where it fails to carry over, the hourly stage fails and leaves its export. -/
theorem FailsCarrying.hourly (h : FailsCarrying settings version request exportName p)
    (hfolder : request.exportFolder = some folder) (hfresh : Fresh p.files folder exportName) :
    ∃ e p', Fails (hourly settings version request exportName) p e p' ∧
      Exports p.files p'.files folder exportName := by
  obtain ⟨current, result, p₁, e, p₂, hopen, hreport, hcarry⟩ := h
  refine ⟨e, p₂, ?_, ?_⟩
  · rw [hourly_eq]
    refine fails_bind.2 (.inr ⟨some current, p, yields_ask.2 ⟨hopen, rfl⟩, ?_⟩)
    exact fails_bind.2 (.inr ⟨result, p₁, hreport, fails_bind.2 (.inl hcarry)⟩)
  · have hfiles : p₂.files = p₁.files := (keepsFiles_run _).of_fails hcarry
    rw [hfiles]
    exact ((leaves_reportHourly hfolder hfresh current).done rfl hreport).2

/-- Otherwise the hourly stage leaves no file when it fails. -/
theorem fails_hourly (hfolder : request.exportFolder = some folder)
    (hfresh : Fresh p.files folder exportName)
    (h : Fails (hourly settings version request exportName) p e p') :
    p.files.SameFiles p'.files ∨ FailsCarrying settings version request exportName p := by
  rw [hourly_eq] at h
  rcases fails_bind.1 h with h | ⟨current?, p₁, hask, h⟩
  · have hfiles : p'.files = p.files := (keepsFiles_run _).of_fails h
    exact .inl (hfiles ▸ .refl _)
  obtain ⟨hopen, rfl⟩ := yields_ask.1 hask
  cases current? with
  | none => exact (fails_pure.1 h).elim
  | some current =>
    rcases fails_bind.1 h with h | ⟨result, p₂, hreport, h⟩
    · exact .inl ((leaves_reportHourly hfolder hfresh current).failed rfl h)
    · rcases fails_bind.1 h with h | ⟨u, p₃, -, h⟩
      · exact .inr ⟨current, result, p₂, e, p', hopen, hreport, h⟩
      · exact (fails_pure.1 h).elim

/-- When the hourly stage succeeds, it hands on the path of its export, if there is one. -/
theorem yields_hourly (hfolder : request.exportFolder = some folder)
    (hfresh : Fresh p.files folder exportName) {path : Option Path}
    (h : Yields (hourly settings version request exportName) p (report, path) p') :
    path = none ∧ p'.files = p.files ∨ path = some (folder.join (.ofText exportName)) ∧
      Exports p.files p'.files folder exportName := by
  rw [hourly_eq] at h
  obtain ⟨current?, p₁, hask, h⟩ := yields_bind.1 h
  obtain ⟨hopen, rfl⟩ := yields_ask.1 hask
  cases current? with
  | none =>
    obtain ⟨hresult, rfl⟩ := yields_pure.1 h
    exact .inl ⟨(Prod.mk.inj hresult).2.symm, rfl⟩
  | some current =>
    obtain ⟨result, p₂, hreport, h⟩ := yields_bind.1 h
    obtain ⟨u, p₃, hcarry, h⟩ := yields_bind.1 h
    obtain ⟨rfl, rfl⟩ := yields_pure.1 h
    have hfiles : p₃.files = p₂.files := (keepsFiles_run _).of_yields hcarry
    rw [hfiles]
    exact .inr ((leaves_reportHourly hfolder hfresh current).done rfl hreport)

end Collecting

/-! ### Whole collections -/

/-- A collection that fails changes no table, and fails in the hourly stage or after it. -/
theorem Engine.collect_error_cases {e : Engine} {request : CollectRequest} {exportName : String}
    {files : Files} {err : Failure} (h : (e.collect request exportName files).result = .error err) :
    ((e.collect request exportName files).engine.store.reports = e.store.reports ∧
      (e.collect request exportName files).engine.store.metrics = e.store.metrics ∧
      (e.collect request exportName files).engine.store.values = e.store.values) ∧
    ((∃ p, Fails (Collecting.hourly e.settings e.softwareVersion request exportName)
        ⟨e.store, files, []⟩ err p ∧
        (e.collect request exportName files).files = p.files) ∨
      ∃ report path p₁ p₂, Yields (Collecting.hourly e.settings e.softwareVersion request exportName)
        ⟨e.store, files, []⟩ (report, path) p₁ ∧
        Fails (Collecting.others e.settings request report path) p₁ err p₂ ∧
        (e.collect request exportName files).files = path.elim p₂.files p₂.files.discard) := by
  unfold collect at h ⊢
  rcases hhourly : Collecting.hourly e.settings e.softwareVersion request exportName
    ⟨e.store, files, []⟩ with ⟨err' | ⟨report, path⟩, p₁⟩
  · rw [hhourly] at h
    cases h
    exact ⟨⟨rfl, rfl, rfl⟩, .inl ⟨p₁, hhourly, rfl⟩⟩
  · rw [hhourly] at h
    simp only at h ⊢
    rcases hothers : Collecting.others e.settings request report path p₁ with ⟨err' | all, p₂⟩
    · rw [hothers] at h
      cases h
      exact ⟨⟨rfl, rfl, rfl⟩, .inr ⟨report, path, p₁, p₂, hhourly, hothers, rfl⟩⟩
    · rw [hothers] at h
      cases h

/-- A collection that fails changes no table.  It leaves no file either, unless it is the hourly
stage that fails to carry over; then the export stays, and nothing else. -/
theorem Engine.collect_undone {e : Engine} {request : CollectRequest} {folder : Path}
    (hfolder : request.exportFolder = some folder) {exportName : String} {files : Files}
    (hfresh : Collecting.Fresh files folder exportName) {err : Failure}
    (h : (e.collect request exportName files).result = .error err) :
    let after := e.collect request exportName files
    let carrying := Collecting.FailsCarrying e.settings e.softwareVersion request exportName
      ⟨e.store, files, []⟩
    after.engine.store.reports = e.store.reports ∧ after.engine.store.metrics = e.store.metrics ∧
      after.engine.store.values = e.store.values ∧
      (¬carrying → ∀ place, after.files.file? place = files.file? place) ∧
      (carrying → ∃ place text,
        (files.createFolders folder).2.ending (folder.join (.ofText exportName)) =
          .ok (.name place false) ∧
        files.file? place = none ∧ after.files.file? place = some (.text text) ∧
        ∀ q, q ≠ place → after.files.file? q = files.file? q) := by
  intro after carrying
  have hsame := files.createFolders_sameFiles folder
  obtain ⟨⟨hreports, hmetrics, hvalues⟩, hfailed⟩ := collect_error_cases h
  refine ⟨hreports, hmetrics, hvalues, fun hnot => ?_, fun hcarrying => ?_⟩
  · rcases hfailed with ⟨p, hhourly, hfiles⟩ | ⟨report, path, p₁, p₂, hhourly, hothers, hfiles⟩
    · rcases Collecting.fails_hourly hfolder hfresh hhourly with hsame | hcarrying
      · exact fun place => hfiles ▸ hsame place
      · exact absurd hcarrying hnot
    · -- a later stage fails, and the export is removed
      have hkept := (Collecting.keepsFiles_others _ _ _ _).of_fails hothers
      rcases Collecting.yields_hourly hfolder hfresh hhourly with
        ⟨rfl, hnone⟩ | ⟨rfl, exported, text, hgains⟩
      · intro place
        change (e.collect request exportName files).files.file? place = _
        rw [hfiles, Option.elim_none, hkept, hnone]
      · intro place
        change (e.collect request exportName files).files.file? place = _
        rw [hfiles, Option.elim_some, hkept]
        exact hsame.trans hgains.discard place
  · obtain ⟨err', p', hfails, place, text, hgains⟩ := hcarrying.hourly hfolder hfresh
    rcases hfailed with ⟨p, hhourly, hfiles⟩ | ⟨report, path, p₁, p₂, hhourly, -, -⟩
    · cases hfails.symm.trans hhourly
      have hafter : ∀ q, after.files.file? q = if q = place then some (.text text) else
          files.file? q := by
        intro q
        change (e.collect request exportName files).files.file? q = _
        rw [hfiles, hgains.file?, hsame q]
      have hfree : files.file? place = none := by
        rw [← hsame place, Files.file?, hgains.free]
      exact ⟨place, text, hgains.ending, hfree, by rw [hafter, if_pos rfl],
        fun q hq => by rw [hafter, if_neg hq]⟩
    · cases hfails.symm.trans hhourly

/-- An engine with a metric to carry over, and no way to start a report. -/
def Engine.stuck : Engine :=
  ((⟨default, none, .empty⟩ : Engine).run
    [.add { MetricSample.of "power" 100 (.bool true) with carryOver := true }]).setBlocked
      .reports .insert true

/-- Where no report can be started, the export of a failed collection stays. -/
theorem Engine.collect_undone_stuck :
    let request := (CollectRequest.atTime 200).exportTo (.ofText "out")
    let after := stuck.collect request "x.json" default
    after.result.isOk = false ∧ after.engine.store.reports = stuck.store.reports ∧
      ∃ place text, (default : Files).file? place = none ∧
        after.files.file? place = some (.text text) := by
  intro request
  have hfresh : Collecting.Fresh default (.ofText "out") "x.json" := by
    constructor
    · exact Files.Free.of_ending ["out", "x.json.tmp"] rfl rfl
    · exact Files.Free.of_ending ["out", "x.json"] rfl rfl
  have hfails : (stuck.collect request "x.json" default).result.isOk = false := by decide +kernel
  have hthere : ((stuck.collect request "x.json" default).files.file?
      ["out", "x.json"]).isSome = true := by decide +kernel
  have hbefore : (default : Files).file? ["out", "x.json"] = none := by decide +kernel
  have hundone := @collect_undone stuck request (.ofText "out") rfl "x.json" default hfresh
  generalize stuck.collect request "x.json" default = after at *
  intro after
  cases hresult : after.result with
  | ok report =>
    rw [hresult] at hfails
    cases hfails
  | error err =>
    obtain ⟨hreports, -, -, hnot, hcarrying⟩ := hundone hresult
    refine ⟨rfl, hreports, ?_⟩
    by_cases hcarries : Collecting.FailsCarrying stuck.settings stuck.softwareVersion request
        "x.json" ⟨stuck.store, default, []⟩
    · obtain ⟨place, text, -, hfree, hfile, -⟩ := hcarrying hcarries
      exact ⟨place, text, hfree, hfile⟩
    · rw [hnot hcarries, hbefore] at hthere
      cases hthere

end Telemetry
