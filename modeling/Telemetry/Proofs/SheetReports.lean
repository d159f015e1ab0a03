import Telemetry.Proofs.SheetCalls

/-!
# The hourly stage on sheets

The hourly stage ends the accumulator, reports on it, exports its series, and carries its latest
values over.  All this is a function of the sheets and, for the export, of the files.  Unless the
store fails, the stage fails only where the files refuse the export.
-/

namespace Telemetry

/-- A report with what is derived for it, and the derived entries by themselves. -/
def CollectRequest.derived (request : CollectRequest) (report : MetricReport) :
    MetricReport × List DerivedMetric :=
  match request.derivation with
  | none => (report, [])
  | some derivation =>
    (report.withDerived (derivation report.derivedInput), derivation report.derivedInput)

namespace Sheet

/-- A metric with its values, and the start of its report. -/
def gather (x : Sheet) (t : Track) : Gathered := ⟨t.spec, [⟨x.header.startMs, t.values⟩]⟩

def gathered (x : Sheet) : List Gathered := x.tracks.map x.gather

/-- The report on the hourly accumulator up to now, and what is derived for it. -/
def hourlyReport (request : CollectRequest) (x : Sheet) : MetricReport × List DerivedMetric :=
  let w : Window := ⟨x.header.startMs, request.nowMs⟩
  request.derived
    ((MetricReport.empty .hourly none w x.header.softwareVersion).withGathered w x.gathered)

/-- The export of the hourly accumulator. -/
def exportIn (settings : Settings) (request : CollectRequest) (exportName : String) (x : Sheet)
    (files : Files) : Except Failure (Option Path) × Files :=
  match request.exportFolder with
  | none => (.ok none, files)
  | some folder =>
    let (report, derived) := x.hourlyReport request
    let (path, files) := ExportFile.saveIn folder exportName
      (Collecting.textOf settings report x.gathered derived) files
    (path.map some, files)

/-- Carries a metric over into the open accumulator, which is started if none is open. -/
def carryOne (settings : Settings) (version : Option String) (now : Int) (xs : List Sheet)
    (t : Track) : List Sheet :=
  match (TimedValue.newestAt t.values now).filter fun v =>
      decide (now - v.timeMs ≤ settings.retention.carryOverMaxAge) with
  | none => xs
  | some v =>
    recordWhere (·.isOpenAs .hourly none) t.spec v.timeMs v.value
      (startIn .hourly none now version xs)

/-- Ends the accumulator and carries its metrics over. -/
def succeedIn (settings : Settings) (version : Option String) (now : Int) (x : Sheet)
    (xs : List Sheet) : List Sheet :=
  (x.tracks.filter (·.spec.carryOver)).foldl (carryOne settings version now)
    (endWhere (·.isOpenAs .hourly none) now xs)

/-- The hourly stage: its report and the path of the export, the sheets and the files after it. -/
def hourlyIn (settings : Settings) (version : Option String) (request : CollectRequest)
    (exportName : String) (xs : List Sheet) (files : Files) :
    Except Failure (MetricReport × Option Path) × List Sheet × Files :=
  match hourly? xs with
  | none => (.ok (.empty .hourly none ⟨request.nowMs, request.nowMs⟩ version, none), xs, files)
  | some x =>
    let (path, files) := x.exportIn settings request exportName files
    (path.map fun path => ((x.hourlyReport request).1, path),
      x.succeedIn settings version request.nowMs xs, files)

end Sheet

namespace Store

variable {s : Store} {xs : List Sheet}

/-- Each metric of a report is gathered with its own values. -/
theorem gathers_metricRowsOf {r : ReportRow} (hr : r ∈ s.reports.rows) :
    List.Forall₂ s.Gathers ((s.metricRowsOf r.id).map .ofRow) (s.sheetOf r).gathered := by
  rw [Sheet.gathered, sheetOf, tracksOf, List.map_map, List.forall₂_map_left_iff,
    List.forall₂_map_right_iff, List.forall₂_same]
  intro m hm
  obtain ⟨hm, hreport⟩ := mem_metricRowsOf.1 hm
  have hgathers := gathers_single hm hr hreport
  exact hgathers

end Store

/-- A part of a collection has only looked at the store, and left the files alone. -/
structure Progress.SeenAs (p p' : Progress) : Prop where
  store : p.store.SeenAs p'.store
  files : p'.files = p.files

theorem Progress.SeenAs.trans {p p' p'' : Progress} (h : p.SeenAs p') (h' : p'.SeenAs p'') :
    p.SeenAs p'' :=
  ⟨h.store.trans h'.store, h'.files.trans h.files⟩

namespace Collecting

variable {settings : Settings} {request : CollectRequest} {p : Progress}

/-! ### Parts of a stage -/

theorem metricsOf_attains (hs : p.store.Undamaged) (id : Int) :
    Attains (metricsOf id) p fun rows p' => rows = p.store.metricRowsOf id ∧ p.SeenAs p' := by
  refine attains_run (attains_bind ⟨(), _, Transaction.useKept_yields hs _ _ _ _, ?_⟩)
  exact ⟨p.store.metricRowsOf id, _,
    Transaction.yields_query.2 ⟨Store.metricsOf_eq (by exact hs) id, rfl⟩, rfl, ⟨_, rfl⟩, rfl⟩

theorem summarize_attains {groups : List MetricGroup} {gathered : List Gathered}
    (h : List.Forall₂ p.store.Gathers groups gathered) (hs : p.store.Consistent)
    (settings : Settings) (kind : ReportKind) (name : Option String) (w : Window)
    (version : Option String) :
    Attains (summarize settings kind name w groups version) p fun report p' =>
      report = (MetricReport.empty kind name w version).withGathered w gathered ∧ p.SeenAs p' := by
  obtain ⟨s, hsummary⟩ :=
    summarize_yields settings.paging w h hs (MetricReport.empty kind name w version)
  exact attains_run ⟨_, s, hsummary, rfl, looks_summarize _ _ _ _ _ _ _ hsummary, rfl⟩

theorem derive_attains (request : CollectRequest) (report : MetricReport) (p : Progress) :
    Attains (derive request report) p fun result p' =>
      result = request.derived report ∧ p.SeenAs p' := by
  unfold CollectRequest.derived
  cases hderivation : request.derivation with
  | none =>
    have hderive : Yields (derive request report) p (report, []) p := by
      unfold Yields outcome derive
      rw [hderivation]
    exact ⟨_, p, hderive, rfl, .refl _, rfl⟩
  | some derivation =>
    have hderive : Yields (derive request report) p
        (report.withDerived (derivation report.derivedInput), derivation report.derivedInput)
        { p with consulted := p.consulted ++ [report.derivedInput] } := by
      unfold Yields outcome derive
      rw [hderivation]
    exact ⟨_, _, hderive, rfl, .refl _, rfl⟩

/-! ### Carrying over -/

section Carry

variable {s : Store} {xs : List Sheet}

/-- The successor is the open accumulator, or is started. -/
theorem successor_settles (h : s.Shows xs) (version : Option String) (now : Int) :
    Settles (match s.hourly?.map (·.id) with
        | some id => pure id
        | none => Transaction.openOrStart .hourly none now version : Transaction Int) s fun id s' =>
      s'.Shows (Sheet.startIn .hourly none now version xs) ∧
        (∃ r ∈ s'.reports.rows, r.id = id ∧ r.isOpenAs .hourly none = true) ∧
        ∀ r ∈ s.reports.rows, r ∈ s'.reports.rows ∧ Store.SameReport r.id s s' := by
  cases hopen : s.hourly? with
  | none =>
    have hadmits : ReportKind.hourly.Admits none := rfl
    exact Transaction.openOrStart_settles h hadmits now version
  | some r =>
    have hr := List.mem_of_find?_eq_some hopen
    have hthis : r.isOpenAs .hourly none = true := by simpa using List.find?_some hopen
    have hany : xs.any (·.header.isOpenAs .hourly none) = true :=
      (h.any_eq (p := (·.isOpenAs .hourly none)) fun _ => rfl).trans
        (List.any_eq_true.2 ⟨r, hr, hthis⟩)
    refine settles_pure ⟨?_, ⟨r, hr, rfl, hthis⟩, fun x hx => ⟨hx, .refl x.id s⟩⟩
    rwa [Sheet.startIn, hany, if_pos rfl]

/-- What is recorded in the successor leaves the report that it continues. -/
theorem recordInSuccessor_settles {s₁ : Store} {source : ReportRow} {m : MetricRow} {id : Int}
    (hs : s.Consistent) (hm : m ∈ s.metrics.rows) (hsource : source ∈ s.reports.rows)
    (hended : source.isOpenAs .hourly none = false) (h₁ : s₁.Shows xs)
    (hsuccessor : ∃ r ∈ s₁.reports.rows, r.id = id ∧ r.isOpenAs .hourly none = true)
    (hsame₁ : ∀ r ∈ s.reports.rows, r ∈ s₁.reports.rows ∧ Store.SameReport r.id s s₁)
    (version : Nat) (t : Int) (value : SampleValue) :
    Settles (Transaction.record id m.spec version t value) s₁ fun _ s₂ =>
      s₂.Shows (Sheet.recordWhere (·.isOpenAs .hourly none) m.spec t value xs) ∧
        s₂.hourly?.map (·.id) = some id ∧ source ∈ s₂.reports.rows ∧
          Store.SameReport source.id s s₂ := by
  obtain ⟨r, hr, rfl, hopen⟩ := hsuccessor
  refine (Transaction.record_open h₁ hr hopen (hs.metricNamed m hm) version t value).imp
    fun _ s₂ h₂ => ?_
  obtain ⟨h₂, hrecords⟩ := h₂
  -- the report that is continued is another one
  obtain ⟨hsource₁, hsame₁⟩ := hsame₁ source hsource
  have hne : source.id ≠ r.id := by
    intro hid
    rw [h₁.consistent.report_eq hsource₁ hr hid, hopen] at hended
    cases hended
  have hopen₂ : s₂.hourly? = some r := by
    have hfound : r ∈ s₂.reports.rows := hrecords.reports ▸ hr
    obtain ⟨hkind, -, hend⟩ := ReportRow.isOpenAs_iff.1 hopen
    exact h₂.consistent.hourly?_eq hfound hkind hend
  refine ⟨h₂, ?_, hrecords.reports ▸ hsource₁,
    hsame₁.trans (hrecords.others source hsource₁ hne)⟩
  rw [hopen₂, Option.map_some]

theorem carry_settles (settings : Settings) (version : Option String) (now : Int)
    (ms : List MetricRow) :
    ∀ {s : Store} {xs : List Sheet} {source : ReportRow}, s.Shows xs → source ∈ s.reports.rows →
      source.isOpenAs .hourly none = false → (∀ m ∈ ms, m ∈ s.metricRowsOf source.id) →
      Settles (carry settings version now (s.hourly?.map (·.id)) ms) s fun _ s' =>
        s'.Shows ((ms.map s.trackOf).foldl (Sheet.carryOne settings version now) xs) := by
  induction ms with
  | nil => exact fun h _ _ _ => settles_pure h
  | cons m ms ih =>
    intro s xs source h hsource hended hms
    have hs := h.consistent
    rw [List.forall_mem_cons] at hms
    have hm := (Store.mem_metricRowsOf.1 hms.1).1
    unfold carry
    refine settles_bind ((Transaction.latestUpTo_settles hs m.id now).imp fun v? s₁ h₁ => ?_)
    obtain ⟨rfl, hnewest⟩ := h₁
    rw [List.map_cons, List.foldl_cons, Sheet.carryOne, Store.trackOf, TimedValue.newestAt_byTime,
      ← hnewest]
    cases v? with
    | none => exact ih h hsource hended hms.2
    | some v =>
      dsimp only
      rw [Option.map_some]
      split
      · next hold =>
        have hnot : ¬decide (now - v.timed.timeMs ≤ settings.retention.carryOverMaxAge) = true := by
          rw [decide_eq_true_eq]
          exact not_le.2 hold
        rw [Option.filter_some, if_neg hnot]
        exact ih h hsource hended hms.2
      next hfresh =>
      have hrecent : decide (now - v.timed.timeMs ≤ settings.retention.carryOverMaxAge) = true :=
        decide_eq_true (not_lt.1 hfresh)
      rw [Option.filter_some, if_pos hrecent]
      -- what follows once there is a successor
      have hrest : ∀ id s₁, s₁.Shows (Sheet.startIn .hourly none now version xs) ∧
          (∃ r ∈ s₁.reports.rows, r.id = id ∧ r.isOpenAs .hourly none = true) ∧
          (∀ r ∈ s.reports.rows, r ∈ s₁.reports.rows ∧ Store.SameReport r.id s s₁) →
          Settles (do
            let _ ← Transaction.record id m.spec v.version v.timeMs v.value
            carry settings version now (some id) ms) s₁ fun _ s' =>
            s'.Shows ((ms.map s.trackOf).foldl (Sheet.carryOne settings version now)
              (Sheet.recordWhere (·.isOpenAs .hourly none) m.spec v.timeMs v.value
                (Sheet.startIn .hourly none now version xs))) := by
        rintro id s₁ ⟨h₁, hsuccessor, hsame₁⟩
        refine settles_bind ((recordInSuccessor_settles hs hm hsource hended h₁ hsuccessor hsame₁
          v.version v.timeMs v.value).imp fun _ s₂ h₂ => ?_)
        obtain ⟨h₂, hopen₂, hsource₂, hsame⟩ := h₂
        have htracks : ms.map s₂.trackOf = ms.map s.trackOf := by
          refine List.map_congr_left fun x hx => ?_
          rw [Store.trackOf, Store.timedOf, hsame.values x (hms.2 x hx), Store.trackOf,
            Store.timedOf]
        have hcarry := ih h₂ hsource₂ hended fun x hx => hsame.metrics ▸ hms.2 x hx
        rw [hopen₂, htracks] at hcarry
        exact hcarry
      have hsuccessor := successor_settles h version now
      cases hhourly : s.hourly? with
      | none =>
        rw [hhourly] at hsuccessor
        exact settles_bind (hsuccessor.imp hrest)
      | some r =>
        rw [hhourly] at hsuccessor
        exact settles_bind (hsuccessor.imp hrest)

theorem carryOver_settles (settings : Settings) (version : Option String) (now : Int)
    (h : s.Shows xs) {source : ReportRow} (hsource : source ∈ s.reports.rows)
    (hnone : s.hourly? = none) :
    Settles (carryOver settings version source.id now) s fun _ s' =>
      s'.Shows (((s.sheetOf source).tracks.filter (·.spec.carryOver)).foldl
        (Sheet.carryOne settings version now) xs) := by
  refine settles_bind (Transaction.settles_useKept h.consistent.undamaged fun s₁ hseen => ?_)
  have h₁ := h.seenAs hseen
  obtain ⟨kept, rfl⟩ := hseen
  refine settles_bind (Transaction.settles_query
    (Store.carriedMetricsOf_eq h₁.consistent.undamaged source.id) ?_)
  have hended : source.isOpenAs .hourly none = false := by
    simpa using List.find?_eq_none.1 hnone source hsource
  have hnone₁ : Store.hourly? { s with kept } = none := hnone
  have hrows := s.filter_metrics source.id (·.spec.carryOver)
  have hcarry := carry_settles settings version now
    ((s.metricRowsOf source.id).filter (·.spec.carryOver)) h₁ hsource hended
    fun m hm => List.mem_of_mem_filter hm
  rw [hnone₁] at hcarry
  have htracks : ((s.metricRowsOf source.id).filter (·.spec.carryOver)).map s.trackOf =
      (s.sheetOf source).tracks.filter (·.spec.carryOver) := by
    rw [Store.sheetOf, Store.tracksOf, List.filter_map]
    rfl
  rw [← htracks]
  refine Settles.imp ?_ fun _ _ h' => h'
  dsimp only
  rw [hrows]
  exact hcarry

end Carry

/-! ### The hourly stage -/

theorem exportHourly_ends (settings : Settings) (request : CollectRequest) (exportName : String)
    {xs : List Sheet} {groups : List MetricGroup} {x : Sheet} (h : p.store.Shows xs)
    (hgroups : List.Forall₂ p.store.Gathers groups x.gathered) :
    Ends (exportHourly settings request exportName (x.hourlyReport request).1 groups
        (x.hourlyReport request).2) p fun result p' =>
      result = (x.exportIn settings request exportName p.files).1 ∧ p.store.SeenAs p'.store ∧
        p'.files = (x.exportIn settings request exportName p.files).2 := by
  unfold exportHourly Sheet.exportIn
  cases request.exportFolder with
  | none =>
    exact ends_pure ⟨rfl, .refl _, rfl⟩
  | some folder =>
    obtain ⟨s, hseen, hwrite⟩ := outcome_writeExport settings folder exportName
      (x.hourlyReport request).1 (x.hourlyReport request).2 hgroups h.consistent
    generalize hsaved : ExportFile.saveIn folder exportName (textOf settings
      (x.hourlyReport request).1 x.gathered (x.hourlyReport request).2) p.files = saved at hwrite
    have hmap : outcome (some <$> writeExport settings folder exportName
        (x.hourlyReport request).1 groups (x.hourlyReport request).2) p =
        (saved.1.map some, { p with store := s, files := saved.2 }) := by
      rw [map_eq_pure_bind, outcome_bind, hwrite]
      cases saved.1 with
      | error e => rfl
      | ok path => rfl
    refine ends_of_outcome hmap ?_
    dsimp only
    rw [hsaved]
    exact ⟨rfl, hseen, rfl⟩

/-- The hourly stage once the accumulator has ended, up to its export. -/
def describeHourly (settings : Settings) (request : CollectRequest) (exportName : String)
    (current : ReportRow) : Collecting (MetricReport × Option Path) := do
  let groups := (← metricsOf current.id).map MetricGroup.ofRow
  let report ← summarize settings .hourly none ⟨current.startMs, request.nowMs⟩ groups
    current.softwareVersion
  let (report, derived) ← derive request report
  let path ← exportHourly settings request exportName report groups derived
  pure (report, path)

theorem reportHourly_eq (settings : Settings) (request : CollectRequest) (exportName : String)
    (current : ReportRow) : reportHourly settings request exportName current = (do
      run (Transaction.change (·.endReport current.id request.nowMs))
      describeHourly settings request exportName current) := rfl

theorem describeHourly_ends {exportName : String} {xs : List Sheet} {x : Sheet} {r : ReportRow}
    (h : p.store.Shows xs) (hstart : x.header.startMs = r.startMs)
    (hversion : x.header.softwareVersion = r.softwareVersion)
    (hgroups : ∀ s, p.store.SeenAs s →
      List.Forall₂ s.Gathers ((p.store.metricRowsOf r.id).map .ofRow) x.gathered) :
    Ends (describeHourly settings request exportName r) p fun result p' =>
      result = (x.exportIn settings request exportName p.files).1.map
          (fun path => ((x.hourlyReport request).1, path)) ∧
        p.store.SeenAs p'.store ∧
        p'.files = (x.exportIn settings request exportName p.files).2 := by
  refine ends_of_attains_bind ((metricsOf_attains h.consistent.undamaged _).imp fun _ p₁ h₁ => ?_)
  obtain ⟨rfl, hseen₁⟩ := h₁
  refine ends_of_attains_bind ((summarize_attains (hgroups _ hseen₁.store)
    (hseen₁.store.consistent h.consistent) settings .hourly none _ _).imp fun _ p₂ h₂ => ?_)
  obtain ⟨rfl, hseen₂⟩ := h₂
  refine ends_of_attains_bind ((derive_attains request _ p₂).imp fun _ p₃ h₃ => ?_)
  obtain ⟨rfl, hseen₃⟩ := h₃
  have hseen := (hseen₁.trans hseen₂).trans hseen₃
  have hreport : request.derived ((MetricReport.empty .hourly none ⟨r.startMs, request.nowMs⟩
      r.softwareVersion).withGathered ⟨r.startMs, request.nowMs⟩ x.gathered) =
      x.hourlyReport request := by
    rw [Sheet.hourlyReport, hstart, hversion]
  rw [hreport]
  have hexport := exportHourly_ends settings request exportName (h.seenAs hseen.store)
    (hgroups _ hseen.store)
  rw [hseen.files] at hexport
  refine ends_bind hexport ?_ ?_
  · rintro e p₄ ⟨hresult, hseen₄, hfiles₄⟩
    exact ⟨by rw [← hresult]; rfl, hseen.store.trans hseen₄, hfiles₄⟩
  · rintro path p₄ ⟨hresult, hseen₄, hfiles₄⟩
    refine ends_pure ⟨?_, hseen.store.trans hseen₄, hfiles₄⟩
    rw [← hresult]
    rfl

theorem reportHourly_ends {exportName : String} {xs : List Sheet} (h : p.store.Shows xs)
    {r : ReportRow} (hopen : p.store.hourly? = some r) :
    Ends (reportHourly settings request exportName r) p fun result p' =>
      result = ((p.store.sheetOf r).exportIn settings request exportName p.files).1.map
          (fun path => (((p.store.sheetOf r).hourlyReport request).1, path)) ∧
        p'.store.Shows (Sheet.endWhere (·.isOpenAs .hourly none) request.nowMs xs) ∧
        (p.store.ended r.id request.nowMs).SeenAs p'.store ∧
        p'.files = ((p.store.sheetOf r).exportIn settings request exportName p.files).2 := by
  have hs := h.consistent
  obtain ⟨hr, hkind, hname, hend⟩ := Store.of_hourly? hopen
  have hthis : r.isOpenAs .hourly none = true := by simpa using List.find?_some hopen
  have hclosed : (p.store.ended r.id request.nowMs).Shows
      (Sheet.endWhere (·.isOpenAs .hourly none) request.nowMs xs) := by
    refine h.endWhere request.nowMs (fun x hx => ?_) (fun _ => rfl) ?_
    · rw [Bool.eq_iff_iff, beq_iff_eq]
      constructor
      · intro hid
        rwa [hs.report_eq hx hr hid]
      · intro hx'
        rw [hs.open_eq hx hr hx' hthis]
    · exact (Store.ended_steps .everything hs hr trivial (by simp [hkind]) hend
        request.nowMs).consistent hs
  rw [reportHourly_eq]
  refine ends_of_attains_bind (attains_run (Transaction.attains_change
    (Store.endSelected_ok hs.undamaged h.writable _ _ _) fun s hs₁ => ?_))
  obtain rfl := Store.endReport_eq_ok hs.undamaged hs₁
  have hended : ({ r with endMs := some request.nowMs } : ReportRow) ∈
      (p.store.ended r.id request.nowMs).reports.rows := List.mem_map.2 ⟨r, hr, by simp⟩
  refine (describeHourly_ends (p := { p with store := p.store.ended r.id request.nowMs })
    (x := p.store.sheetOf r) (r := r) hclosed rfl rfl ?_).imp ?_
  · rintro _ ⟨kept, rfl⟩
    have hgathers := Store.gathers_metricRowsOf
      (s := { p.store.ended r.id request.nowMs with kept }) hended
    exact hgathers
  · rintro result p' ⟨hresult, hseen, hfiles⟩
    exact ⟨hresult, hclosed.seenAs hseen, hseen, hfiles⟩

/-- The hourly stage comes to what it comes to on sheets. -/
theorem hourly_ends (settings : Settings) (version : Option String) (request : CollectRequest)
    (exportName : String) {xs : List Sheet} (h : p.store.Shows xs) :
    Ends (hourly settings version request exportName) p fun result p' =>
      result = (Sheet.hourlyIn settings version request exportName xs p.files).1 ∧
        p'.files = (Sheet.hourlyIn settings version request exportName xs p.files).2.2 ∧
        ∀ a, result = .ok a →
          p'.store.Shows (Sheet.hourlyIn settings version request exportName xs p.files).2.1 := by
  rw [hourly_eq]
  refine ends_of_attains_bind (attains_ask (Store.openReport?_eq h.consistent.undamaged _ _) ?_)
  rw [Sheet.hourlyIn, h.hourly?_eq, Store.hourly?]
  cases hopen : p.store.reports.rows.find? (·.isOpenAs .hourly none) with
  | none =>
    exact ends_pure ⟨rfl, rfl, fun _ _ => h⟩
  | some r =>
    refine ends_bind (reportHourly_ends h hopen) ?_ ?_
    · rintro e p₁ ⟨hresult, -, -, hfiles⟩
      exact ⟨hresult, hfiles, fun a ha => by cases ha⟩
    · rintro result p₁ ⟨hresult, hshows, ⟨kept, hstore⟩, hfiles⟩
      have hr := List.mem_of_find?_eq_some hopen
      have hended : ({ r with endMs := some request.nowMs } : ReportRow) ∈ p₁.store.reports.rows := by
        rw [hstore]
        exact List.mem_map.2 ⟨r, hr, by simp⟩
      have hnone : p₁.store.hourly? = none := by
        rw [hstore]
        exact (h.consistent.ended_noneOpen hopen request.nowMs).hourly?_eq
      have htracks : p₁.store.tracksOf r.id = p.store.tracksOf r.id := by
        rw [hstore]
        rfl
      have hcarry := carryOver_settles settings version request.nowMs hshows hended hnone
      rw [Store.sheetOf] at hcarry
      dsimp only at hcarry
      rw [htracks] at hcarry
      refine ends_of_settles_bind (settles_run (hcarry.imp fun _ s hs => ?_))
      exact ends_pure ⟨hresult, hfiles, fun _ _ => hs⟩

theorem hourly_shows {version : Option String} {exportName : String} {p' : Progress}
    {xs : List Sheet} {result : MetricReport × Option Path} (h : p.store.Shows xs)
    (hyields : Yields (hourly settings version request exportName) p result p') :
    p'.store.Shows (Sheet.hourlyIn settings version request exportName xs p.files).2.1 := by
  have houtcome : outcome (hourly settings version request exportName) p = (.ok result, p') :=
    hyields
  rcases hourly_ends settings version request exportName h with
    ⟨err, p₁, hfails, -⟩ | ⟨-, -, hshows⟩
  · cases (Prod.mk.inj (hyields.symm.trans hfails)).1
  · rw [houtcome] at hshows
    exact hshows result rfl

end Collecting

end Telemetry
