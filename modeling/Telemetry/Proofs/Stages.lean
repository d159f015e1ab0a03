import Telemetry.Proofs.Ingest

/-!
# Stages by steps

Each stage of a collection is a chain of steps.  The hourly stage ends the accumulator and starts its
successor.  The daily stage touches ended hourly reports alone, the session stage touches sessions,
and the last stage the daily accumulator and what has lost its values or its metrics.
-/

namespace Telemetry

namespace Store

variable (scope : Scope) {s s' : Store}

/-! ### Deleting -/

theorem deleteReport_steps (hs : s.Undamaged) {id : Int} (hscope : scope.touches id)
    (h : s.deleteReport id = .ok s') : Steps scope s s' := by
  obtain rfl := deleteReport_eq_ok hs h
  refine (Step.removeValues fun v _ hsel => ?_).steps.trans
    ((Step.removeMetrics fun m hm hsel => ?_).steps.trans
      (Step.removeReports fun r _ hsel => ?_).steps)
  · obtain ⟨m, hm, hid⟩ := List.mem_map.1 (List.contains_iff_mem.1 hsel)
    obtain ⟨hm, hreport⟩ := List.mem_filter.1 hm
    refine ⟨m, hm, hid, ?_⟩
    rwa [beq_iff_eq.1 hreport]
  · have hreport := beq_iff_eq.1 hsel
    refine ⟨hreport ▸ hscope, fun v hv hvm => ?_⟩
    obtain ⟨-, hkept⟩ := List.mem_filter.1 hv
    simp only [Bool.not_eq_true', ← Bool.not_eq_true, List.contains_iff_mem] at hkept
    exact hkept (List.mem_map.2 ⟨m, List.mem_filter.2 ⟨hm, hsel⟩, hvm.symm⟩)
  · have hreport := beq_iff_eq.1 hsel
    refine ⟨hreport ▸ hscope, fun m hm hmr => ?_⟩
    obtain ⟨-, hkept⟩ := List.mem_filter.1 hm
    simp [hmr, hreport] at hkept

/-- All metrics without values and all reports without metrics are in the scope. -/
structure CoversEmpty (s : Store) : Prop where
  metrics : ∀ m ∈ s.metrics.rows, (∀ v ∈ s.values.rows, v.metricId ≠ m.id) →
    scope.touches m.reportId
  reports : ∀ r ∈ s.reports.rows, (∀ m ∈ s.metrics.rows, m.reportId ≠ r.id) → scope.touches r.id

theorem deleteValuesBefore_steps (hs : s.Consistent) {reportId cutoff : Int}
    (hscope : scope.touches reportId) (hempty : s.CoversEmpty scope)
    (h : s.deleteValuesBefore reportId cutoff = .ok s') :
    Steps scope s s' ∧ s'.CoversEmpty scope := by
  obtain rfl := deleteValuesBefore_eq_ok hs.undamaged h
  -- only values of the report's own metrics go
  have hown : ∀ v : ValueRow, (decide (v.timeMs < cutoff)
      && ((s.metrics.rows.filter (·.reportId == reportId)).map (·.id)).contains v.metricId) = true →
      ∃ m ∈ s.metrics.rows, m.id = v.metricId ∧ m.reportId = reportId := by
    intro v hsel
    rw [Bool.and_eq_true] at hsel
    obtain ⟨m, hm, hid⟩ := List.mem_map.1 (List.contains_iff_mem.1 hsel.2)
    obtain ⟨hm, hreport⟩ := List.mem_filter.1 hm
    exact ⟨m, hm, hid, beq_iff_eq.1 hreport⟩
  constructor
  · refine (Step.removeValues fun v _ hsel => ?_).steps
    obtain ⟨m, hm, hid, rfl⟩ := hown v hsel
    exact ⟨m, hm, hid, hscope⟩
  · refine ⟨fun m hm hnone => ?_, hempty.reports⟩
    by_cases hreport : m.reportId = reportId
    · exact hreport ▸ hscope
    · refine hempty.metrics m hm fun v hv hvm => hnone v (List.mem_filter.2 ⟨hv, ?_⟩) hvm
      rw [Bool.not_eq_true']
      by_contra hsel
      rw [Bool.not_eq_false] at hsel
      obtain ⟨m', hm', hid, hreport'⟩ := hown v hsel
      rw [hs.metric_eq hm' hm (hid.trans hvm)] at hreport'
      exact hreport hreport'

theorem deleteOrphanMetrics_steps (hs : s.Undamaged) (hempty : s.CoversEmpty scope)
    (h : s.deleteOrphanMetrics = .ok s') :
    Steps scope s s' ∧ ∀ r ∈ s'.reports.rows, (∀ m ∈ s'.metrics.rows, m.reportId ≠ r.id) →
      scope.touches r.id := by
  obtain rfl := deleteOrphanMetrics_eq_ok hs h
  constructor
  · refine (Step.removeMetrics fun m hm hsel => ?_).steps
    have hnone : ∀ v ∈ s.values.rows, v.metricId ≠ m.id := by simpa using hsel
    exact ⟨hempty.metrics m hm hnone, hnone⟩
  · intro r hr hnone
    by_cases hbefore : ∃ m ∈ s.metrics.rows, m.reportId = r.id
    · -- its metrics were there and had no values
      obtain ⟨m, hm, hmr⟩ := hbefore
      rw [← hmr]
      refine hempty.metrics m hm fun v hv hvm => hnone m (List.mem_filter.2 ⟨hm, ?_⟩) hmr
      have hany : s.values.rows.any (·.metricId == m.id) = true :=
        List.any_eq_true.2 ⟨v, hv, by simp [hvm]⟩
      simp [hany]
    · exact hempty.reports r hr fun m hm hmr => hbefore ⟨m, hm, hmr⟩

theorem deleteOrphanReports_steps (hs : s.Undamaged) {cutoff : Int}
    (hscope : ∀ r ∈ s.reports.rows, (∀ m ∈ s.metrics.rows, m.reportId ≠ r.id) →
      scope.touches r.id)
    (h : s.deleteOrphanReports cutoff = .ok s') : Steps scope s s' := by
  obtain rfl := deleteOrphanReports_eq_ok hs h
  refine (Step.removeReports fun r hr hsel => ?_).steps
  rw [Bool.and_eq_true] at hsel
  have hnone : ∀ m ∈ s.metrics.rows, m.reportId ≠ r.id := by simpa using hsel.1
  exact ⟨hscope r hr hnone, hnone⟩

/-! ### Ending reports -/

def ended (s : Store) (id now : Int) : Store :=
  { s with reports := s.reports.update (fun r => r.id == id) fun r => { r with endMs := some now } }

theorem endReport_eq_ok (hs : s.Undamaged) {id now : Int} (h : s.endReport id now = .ok s') :
    s' = s.ended id now := endSelected_eq_ok hs h

theorem ended_steps (hs : s.Consistent) {r : ReportRow} (hr : r ∈ s.reports.rows)
    (hscope : scope.touches r.id) (hkind : r.kind ≠ .daily) (hopen : r.endMs = none) (now : Int) :
    Steps scope s (s.ended r.id now) := by
  refine (Step.finish now fun x hx hid => ?_).steps
  obtain rfl := hs.report_eq hx hr (beq_iff_eq.1 hid)
  exact ⟨hscope, hkind, hopen⟩

/-- All sessions of a store are in the scope. -/
def CoversSessions (s : Store) : Prop :=
  ∀ r ∈ s.reports.rows, r.kind = .session → scope.touches r.id

/-- Ending open sessions is a step within the scope, and leaves all sessions in it. -/
theorem endSelected_steps (hs : s.Undamaged) {selected : ReportRow → Bool} {now : Int}
    {step : StorageStep} (hscope : s.CoversSessions scope)
    (hselected : ∀ r, selected r = true → r.isOpenSession = true)
    (h : s.endSelected selected now step = .ok s') :
    Steps scope s s' ∧ s'.CoversSessions scope := by
  obtain rfl := endSelected_eq_ok hs h
  constructor
  · refine (Step.finish now fun r hr hsel => ?_).steps
    have hopen := hselected r hsel
    rw [ReportRow.isOpenSession, Bool.and_eq_true, beq_iff_eq, Option.isNone_iff_eq_none] at hopen
    exact ⟨hscope r hr hopen.1, by simp [hopen.1], hopen.2⟩
  · intro r hr hkind
    obtain ⟨a, ha, rfl⟩ := List.mem_map.1 hr
    split at hkind
    · next hsel =>
      rw [if_pos hsel]
      exact hscope a ha hkind
    · next hsel =>
      rw [if_neg hsel]
      exact hscope a ha hkind

theorem endSessions_steps (hs : s.Undamaged) {now : Int} (hscope : s.CoversSessions scope)
    (h : s.endSessions now = .ok s') : Steps scope s s' ∧ s'.CoversSessions scope := by
  refine endSelected_steps scope hs hscope (fun r hsel => ?_) h
  rwa [testReport_eq hs] at hsel

theorem expireSessions_steps (hs : s.Undamaged) {now maxAge : Int}
    (hscope : s.CoversSessions scope) (h : s.expireSessions now maxAge = .ok s') :
    Steps scope s s' ∧ s'.CoversSessions scope := by
  refine endSelected_steps scope hs hscope (fun r hsel => ?_) h
  rw [testReport_eq hs, Bool.and_eq_true] at hsel
  exact hsel.1

end Store

namespace Collecting

variable (scope : Scope)

theorem deleteAll_steps (ids : List Int) :
    ∀ {p p' : Progress} {u : Unit}, p.store.Consistent → (∀ id ∈ ids, scope.touches id) →
      Yields (deleteAll ids) p u p' → Store.Steps scope p.store p'.store := by
  induction ids with
  | nil =>
    intro p p' u _ _ h
    obtain ⟨-, rfl⟩ := yields_pure.1 h
    exact .refl
  | cons id ids ih =>
    intro p p' u hs hscope h
    obtain ⟨v, p₁, hrun, h⟩ := yields_bind.1 h
    obtain ⟨s, hdelete, rfl⟩ := yields_run.1 hrun
    have hsteps := Store.deleteReport_steps scope hs.undamaged (hscope id (by simp))
      (Transaction.yields_change.1 hdelete)
    exact hsteps.trans (ih (hsteps.consistent hs) (fun id' hid' => hscope id' (by simp [hid'])) h)

/-! ### The hourly stage -/

/-- Of the first metric nothing is carried over, or its latest value is, into a successor that is
there or is started for it. -/
theorem carry_cases {settings : Settings} {version : Option String} {now : Int}
    {successor : Option Int} {m : MetricRow} {ms : List MetricRow} {s s' : Store} {u : Unit}
    (h : Yields (carry settings version now successor (m :: ms)) s u s') :
    ∃ v?, Yields (Transaction.latestUpTo m.id now) s v? s ∧
      ((∀ v, v? = some v → settings.retention.carryOverMaxAge < now - v.timeMs) ∧
        Yields (carry settings version now successor ms) s u s' ∨
      ∃ v id s₁ s₂ result, v? = some v ∧
        ¬settings.retention.carryOverMaxAge < now - v.timeMs ∧
        (successor = some id ∧ s₁ = s ∨
          successor = none ∧ Yields (Transaction.openOrStart .hourly none now version) s id s₁) ∧
        Yields (Transaction.record id m.spec v.version v.timeMs v.value) s₁ result s₂ ∧
        Yields (carry settings version now (some id) ms) s₂ u s') := by
  unfold carry at h
  obtain ⟨v?, s₁, hlatest, h⟩ := yields_bind.1 h
  obtain ⟨-, rfl⟩ := Transaction.yields_query.1 hlatest
  refine ⟨v?, hlatest, ?_⟩
  cases v? with
  | none => exact .inl ⟨by simp, h⟩
  | some v =>
    simp only at h
    split at h
    · next hold => exact .inl ⟨by rintro _ ⟨⟩; exact hold, h⟩
    next hfresh =>
    cases successor with
    | some id =>
      obtain ⟨_, _, hid, h⟩ := yields_bind.1 h
      obtain ⟨rfl, rfl⟩ := yields_pure.1 hid
      obtain ⟨result, s₂, hrecord, h⟩ := yields_bind.1 h
      exact .inr ⟨v, id, s, s₂, result, rfl, hfresh, .inl ⟨rfl, rfl⟩, hrecord, h⟩
    | none =>
      obtain ⟨id, s₁, hstart, h⟩ := yields_bind.1 h
      obtain ⟨result, s₂, hrecord, h⟩ := yields_bind.1 h
      exact .inr ⟨v, id, s₁, s₂, result, rfl, hfresh, .inr ⟨rfl, hstart⟩, hrecord, h⟩

theorem carry_steps {settings : Settings} {version : Option String} {now : Int}
    (ms : List MetricRow) :
    ∀ {s s' : Store} {successor : Option Int} {u : Unit}, s.Consistent →
      (∀ m ∈ ms, m.spec.eventName ≠ "") →
      (∀ id, successor = some id → ∃ r ∈ s.reports.rows, r.id = id) →
      Yields (carry settings version now successor ms) s u s' →
      Store.Steps .everything s s' := by
  induction ms with
  | nil =>
    intro s s' successor u _ _ _ h
    obtain ⟨-, rfl⟩ := yields_pure.1 h
    exact .refl
  | cons m ms ih =>
    intro s s' successor u hs hnames howner h
    have hnames' : ∀ m ∈ ms, m.spec.eventName ≠ "" := fun m' hm' => hnames m' (by simp [hm'])
    obtain ⟨v?, -, ⟨-, h⟩ | ⟨v, id, s₁, s₂, result, -, -, hsuccessor, hrecord, h⟩⟩ :=
      carry_cases h
    · exact ih hs hnames' howner h
    · -- the successor is a report, whoever started it
      have hstarted : Store.Steps .everything s s₁ ∧ ∃ r ∈ s₁.reports.rows, r.id = id := by
        rcases hsuccessor with ⟨rfl, rfl⟩ | ⟨-, hstart⟩
        · exact ⟨.refl, howner id rfl⟩
        · have hadmits : ReportKind.hourly.Admits none := rfl
          obtain ⟨hsteps, r, hr, -, hid⟩ :=
            Transaction.openOrStart_steps .everything hs hadmits trivial hstart
          exact ⟨hsteps, r, hr, hid⟩
      have hs₁ := hstarted.1.consistent hs
      obtain ⟨hsteps, hreports⟩ := Transaction.record_steps .everything hs₁ hstarted.2 trivial
        (hnames m (by simp)) hrecord
      refine (hstarted.1.trans hsteps).trans (ih (hsteps.consistent hs₁) hnames' ?_ h)
      rintro _ ⟨⟩
      exact hreports ▸ hstarted.2

theorem carryOver_steps {settings : Settings} {version : Option String} {reportId now : Int}
    {s s' : Store} {u : Unit} (hs : s.Consistent)
    (h : Yields (carryOver settings version reportId now) s u s') :
    Store.Steps .everything s s' := by
  obtain ⟨v, s₁, hused, h⟩ := yields_bind.1 h
  have hseen := Transaction.looks_useKept _ _ _ _ s v s₁ hused
  have hs₁ := hseen.consistent hs
  obtain ⟨rows, s₂, hlook, h⟩ := yields_bind.1 h
  obtain ⟨hrows, rfl⟩ := Transaction.yields_query.1 hlook
  rw [Store.carriedMetricsOf_eq hs₁.undamaged, Except.ok.injEq] at hrows
  refine (hseen.steps _).trans (carry_steps rows hs₁ (fun m hm => ?_) (by simp) h)
  rw [← hrows] at hm
  exact hs₁.metricNamed m (List.mem_filter.1 hm).1

/-- The export of the hourly stage, if one is asked for. -/
def exportHourly (settings : Settings) (request : CollectRequest) (exportName : String)
    (report : MetricReport) (groups : List MetricGroup) (derived : List DerivedMetric) :
    Collecting (Option Path) :=
  match request.exportFolder with
  | none => pure none
  | some folder => some <$> writeExport settings folder exportName report groups derived

/-- The hourly stage up to its export. -/
def reportHourly (settings : Settings) (request : CollectRequest) (exportName : String)
    (current : ReportRow) : Collecting (MetricReport × Option Path) := do
  run (Transaction.change (·.endReport current.id request.nowMs))
  let groups := (← metricsOf current.id).map MetricGroup.ofRow
  let report ← summarize settings .hourly none ⟨current.startMs, request.nowMs⟩ groups
    current.softwareVersion
  let (report, derived) ← derive request report
  let path ← exportHourly settings request exportName report groups derived
  pure (report, path)

/-- The hourly stage carries over once it has reported. -/
theorem hourly_eq (settings : Settings) (version : Option String) (request : CollectRequest)
    (exportName : String) :
    hourly settings version request exportName = (do
      match ← ask (·.openReport? .hourly none) with
      | none => pure (.empty .hourly none ⟨request.nowMs, request.nowMs⟩ version, none)
      | some current =>
        let result ← reportHourly settings request exportName current
        run (carryOver settings version current.id request.nowMs)
        pure result) := by
  unfold hourly reportHourly exportHourly
  simp only [bind_assoc]
  congr 1
  funext current?
  cases current? with
  | none => rfl
  | some current =>
    simp only [pure_bind]
    cases request.exportFolder with
    | none => rfl
    | some folder => rfl

theorem looksOn_exportHourly (settings : Settings) (request : CollectRequest)
    (exportName : String) (report : MetricReport) (groups : List MetricGroup)
    (derived : List DerivedMetric) :
    LooksOn (exportHourly settings request exportName report groups derived) := by
  unfold exportHourly
  split
  · exact looksOn_pure _
  · intro p a p' h
    obtain ⟨path, h, -⟩ := yields_map.1 h
    exact looksOn_writeExport _ _ _ _ _ _ p path p' h

theorem of_metricsOf {p p' : Progress} {reportId : Int} {rows : List MetricRow}
    (hs : p.store.Undamaged) (h : Yields (metricsOf reportId) p rows p') :
    rows = p.store.metrics.rows.filter (·.reportId == reportId) := by
  obtain ⟨s, hrows, rfl⟩ := yields_run.1 h
  obtain ⟨u, s₁, hused, hlook⟩ := yields_bind.1 hrows
  obtain ⟨kept, rfl⟩ := Transaction.looks_useKept _ _ _ _ _ _ _ hused
  have hquery := (Transaction.yields_query.1 hlook).1
  rw [Store.metricsOf_eq (by exact hs), Except.ok.injEq] at hquery
  exact hquery.symm

/-- The report is made by looking at the store once its accumulator is ended. -/
theorem reportHourly_cases {settings : Settings} {request : CollectRequest} {exportName : String}
    {current : ReportRow} {p p' : Progress} {report : MetricReport} {path : Option Path}
    (hs : p.store.Undamaged)
    (h : Yields (reportHourly settings request exportName current) p (report, path) p') :
    ∃ summary s₁ s₂, (p.store.ended current.id request.nowMs).SeenAs s₁ ∧
      Yields ((MetricReport.empty .hourly none ⟨current.startMs, request.nowMs⟩
          current.softwareVersion).summarize settings.paging ⟨current.startMs, request.nowMs⟩
          ((p.store.metrics.rows.filter (·.reportId == current.id)).map .ofRow)) s₁ summary s₂ ∧
      (request.derivation = none → report = summary) ∧ s₂.SeenAs p'.store := by
  obtain ⟨u, p₁, hrun, h⟩ := yields_bind.1 h
  obtain ⟨s₀, hend, rfl⟩ := yields_run.1 hrun
  obtain rfl := Store.endReport_eq_ok hs (Transaction.yields_change.1 hend)
  obtain ⟨rows, p₂, hmetrics, h⟩ := yields_bind.1 h
  obtain ⟨summary, p₃, hsummary, h⟩ := yields_bind.1 h
  obtain ⟨⟨report', derived⟩, p₄, hderive, h⟩ := yields_bind.1 h
  obtain ⟨path', p₅, hexport, h⟩ := yields_bind.1 h
  obtain ⟨hresult, rfl⟩ := yields_pure.1 h
  obtain ⟨rfl, rfl⟩ : report' = report ∧ path' = path := by simpa using hresult
  have hseen := looksOn_metricsOf _ _ _ _ hmetrics
  have hrows := of_metricsOf (by exact hs) hmetrics
  obtain rfl : rows = p.store.metrics.rows.filter (·.reportId == current.id) := hrows
  obtain ⟨s₃, hsummarize, rfl⟩ := yields_run.1 hsummary
  refine ⟨summary, p₂.store, s₃, hseen, hsummarize, fun hnone => ?_,
    (looksOn_derive _ _ _ _ _ hderive).trans (looksOn_exportHourly _ _ _ _ _ _ _ _ _ hexport)⟩
  · unfold Yields outcome derive at hderive
    rw [hnone] at hderive
    cases hderive
    rfl

/-- What the hourly stage comes to: nothing is open, or the open accumulator is ended and reported
on, and its metrics are carried over. -/
theorem hourly_cases {settings : Settings} {version : Option String} {request : CollectRequest}
    {exportName : String} {p p' : Progress} {report : MetricReport} {path : Option Path}
    (hs : p.store.Consistent)
    (h : Yields (hourly settings version request exportName) p (report, path) p') :
    (p.store.reports.rows.find? (·.isOpenAs .hourly none) = none ∧ p' = p ∧
      report = .empty .hourly none ⟨request.nowMs, request.nowMs⟩ version) ∨
    ∃ current p₁, p.store.reports.rows.find? (·.isOpenAs .hourly none) = some current ∧
      Yields (reportHourly settings request exportName current) p (report, path) p₁ ∧
      Yields (carryOver settings version current.id request.nowMs) p₁.store () p'.store := by
  rw [hourly_eq] at h
  obtain ⟨current?, p₁, hask, h⟩ := yields_bind.1 h
  obtain ⟨hopen, rfl⟩ := yields_ask.1 hask
  rw [Store.openReport?_eq hs.undamaged, Except.ok.injEq] at hopen
  cases current? with
  | none =>
    obtain ⟨hresult, rfl⟩ := yields_pure.1 h
    simp only [Prod.mk.injEq] at hresult
    exact .inl ⟨hopen, rfl, hresult.1.symm⟩
  | some current =>
    obtain ⟨result, p₂, hreport, h⟩ := yields_bind.1 h
    obtain ⟨u, p₃, hrun, h⟩ := yields_bind.1 h
    obtain ⟨rfl, rfl⟩ := yields_pure.1 h
    obtain ⟨s, hcarry, rfl⟩ := yields_run.1 hrun
    exact .inr ⟨current, p₂, hopen, hreport, hcarry⟩

theorem of_find_open {s : Store} {kind : ReportKind} {name : Option String} {r : ReportRow}
    (h : s.reports.rows.find? (·.isOpenAs kind name) = some r) :
    r ∈ s.reports.rows ∧ r.kind = kind ∧ r.name = name ∧ r.endMs = none := by
  have hopen : r.isOpenAs kind name = true := List.find?_some h
  exact ⟨List.mem_of_find?_eq_some h, ReportRow.isOpenAs_iff.1 hopen⟩

theorem hourly_steps {settings : Settings} {version : Option String} {request : CollectRequest}
    {exportName : String} {p p' : Progress} {result : MetricReport × Option Path}
    (hs : p.store.Consistent)
    (h : Yields (hourly settings version request exportName) p result p') :
    Store.Steps .everything p.store p'.store := by
  rcases hourly_cases hs h with ⟨-, rfl, -⟩ | ⟨current, p₁, hopen, hreport, hcarry⟩
  · exact .refl
  · obtain ⟨hr, hkind, -, hend⟩ := of_find_open hopen
    obtain ⟨summary, s₁, s₂, hseen₁, hsummary, -, hseen₂⟩ :=
      reportHourly_cases hs.undamaged hreport
    have hended := Store.ended_steps .everything hs hr trivial (by simp [hkind]) hend request.nowMs
    have hsteps := hended.trans ((hseen₁.trans
      ((looks_summarize _ _ _ _ _ _ _ hsummary).trans hseen₂)).steps _)
    exact hsteps.trans (carryOver_steps (hsteps.consistent hs) hcarry)

/-! ### The daily stage -/

theorem daily_steps {settings : Settings} {request : CollectRequest} {p p' : Progress}
    {report : Option MetricReport} (hs : p.store.Consistent)
    (hscope : ∀ r ∈ p.store.reports.rows, r.isEnded .hourly = true → scope.touches r.id)
    (h : Yields (daily settings request) p report p') :
    Store.Steps scope p.store p'.store := by
  obtain ⟨ended, p₁, hask, h⟩ := yields_bind.1 h
  obtain ⟨hended, rfl⟩ := yields_ask.1 hask
  rw [Store.endedReports_eq hs.undamaged, Except.ok.injEq] at hended
  have htouches : ∀ id ∈ ended.map (·.id), scope.touches id := by
    intro id hid
    obtain ⟨r, hr, rfl⟩ := List.mem_map.1 hid
    rw [← hended, List.mem_mergeSort, List.mem_filter] at hr
    exact hscope r hr.1 hr.2
  split at h
  · obtain ⟨-, rfl⟩ := yields_pure.1 h
    exact .refl
  split at h
  · obtain ⟨u, p₂, hdelete, h⟩ := yields_bind.1 h
    obtain ⟨-, rfl⟩ := yields_pure.1 h
    exact deleteAll_steps scope _ hs htouches hdelete
  simp only at h
  split at h
  · obtain ⟨-, rfl⟩ := yields_pure.1 h
    exact .refl
  · obtain ⟨rows, p₂, hmetrics, h⟩ := yields_bind.1 h
    obtain ⟨summary, p₃, hsummary, h⟩ := yields_bind.1 h
    obtain ⟨derived, p₄, hderive, h⟩ := yields_bind.1 h
    obtain ⟨u, p₅, hdelete, h⟩ := yields_bind.1 h
    obtain ⟨-, rfl⟩ := yields_pure.1 h
    have hseen := ((looksOn_metricsOfAll _ _ _ _ hmetrics).trans
      (looksOn_summarize _ _ _ _ _ _ _ _ _ hsummary)).trans (looksOn_derive _ _ _ _ _ hderive)
    exact (hseen.steps scope).trans
      (deleteAll_steps scope _ (hseen.consistent hs) htouches hdelete)

/-! ### The session stage -/

theorem session_steps {settings : Settings} {request : CollectRequest}
    {accumulator : Option ReportRow} {r : ReportRow} {p p' : Progress} {report : MetricReport}
    (hs : p.store.Consistent) (hscope : scope.touches r.id)
    (h : Yields (session settings request accumulator r) p report p') :
    Store.Steps scope p.store p'.store := by
  obtain ⟨groups, p₁, hgroups, h⟩ := yields_bind.1 h
  obtain ⟨summary, p₂, hsummary, h⟩ := yields_bind.1 h
  obtain ⟨derived, p₃, hderive, h⟩ := yields_bind.1 h
  obtain ⟨u, p₄, hrun, h⟩ := yields_bind.1 h
  obtain ⟨-, rfl⟩ := yields_pure.1 h
  obtain ⟨s, hdelete, rfl⟩ := yields_run.1 hrun
  have hseen := ((looksOn_sessionGroups _ _ _ _ _ _ hgroups).trans
    (looksOn_summarize _ _ _ _ _ _ _ _ _ hsummary)).trans (looksOn_derive _ _ _ _ _ hderive)
  exact (hseen.steps scope).trans (Store.deleteReport_steps scope (hseen.undamaged hs.undamaged)
    hscope (Transaction.yields_change.1 hdelete))

theorem sessionReports_steps {settings : Settings} {request : CollectRequest}
    {accumulator : Option ReportRow} (rs : List ReportRow) :
    ∀ {p p' : Progress} {reports : List MetricReport}, p.store.Consistent →
      (∀ r ∈ rs, scope.touches r.id) →
      Yields (sessionReports settings request accumulator rs) p reports p' →
      Store.Steps scope p.store p'.store := by
  induction rs with
  | nil =>
    intro p p' reports _ _ h
    obtain ⟨-, rfl⟩ := yields_pure.1 h
    exact .refl
  | cons r rs ih =>
    intro p p' reports hs hscope h
    obtain ⟨report, p₁, hsession, h⟩ := yields_bind.1 h
    obtain ⟨rest, p₂, hrest, h⟩ := yields_bind.1 h
    obtain ⟨-, rfl⟩ := yields_pure.1 h
    have hsteps := session_steps scope hs (hscope r (by simp)) hsession
    exact hsteps.trans (ih (hsteps.consistent hs) (fun r' hr' => hscope r' (by simp [hr'])) hrest)

theorem endedSessions_steps {settings : Settings} {request : CollectRequest}
    {accumulator : Option ReportRow} {p p' : Progress} {reports : List MetricReport}
    (hs : p.store.Consistent) (hscope : p.store.CoversSessions scope)
    (h : Yields (do
      let ended ← ask (·.endedReports .session)
      sessionReports settings request accumulator ended) p reports p') :
    Store.Steps scope p.store p'.store := by
  obtain ⟨ended, p₁, hask, h⟩ := yields_bind.1 h
  obtain ⟨hended, rfl⟩ := yields_ask.1 hask
  rw [Store.endedReports_eq hs.undamaged, Except.ok.injEq] at hended
  refine sessionReports_steps scope ended hs (fun r hr => ?_) h
  rw [← hended, List.mem_mergeSort, List.mem_filter, ReportRow.isEnded_iff] at hr
  exact hscope r hr.1 hr.2.1

theorem sessions_steps {settings : Settings} {request : CollectRequest} {p p' : Progress}
    {reports : List MetricReport} (hs : p.store.Consistent)
    (hscope : p.store.CoversSessions scope)
    (h : Yields (sessions settings request) p reports p') :
    Store.Steps scope p.store p'.store := by
  -- what is left once the sessions have ended that are to end in any case
  have hrest : ∀ {p : Progress}, p.store.Consistent → p.store.CoversSessions scope →
      Yields (do
        run (Transaction.change (·.expireSessions request.nowMs settings.retention.sessionExpiry))
        if request.sessionDailyMetrics.isEmpty = true then do
          let accumulator ← pure none
          let ended ← ask (·.endedReports .session)
          sessionReports settings request accumulator ended
        else do
          let accumulator ← ask (·.openReport? .daily none)
          let ended ← ask (·.endedReports .session)
          sessionReports settings request accumulator ended) p reports p' →
      Store.Steps scope p.store p'.store := by
    intro p hs hscope h
    obtain ⟨u, p₁, hrun, h⟩ := yields_bind.1 h
    obtain ⟨s₁, hexpire, rfl⟩ := yields_run.1 hrun
    obtain ⟨hsteps, hscope₁⟩ := Store.expireSessions_steps scope hs.undamaged hscope
      (Transaction.yields_change.1 hexpire)
    refine hsteps.trans ?_
    have hs₁ := hsteps.consistent hs
    split at h
    · exact endedSessions_steps scope (p := { p with store := s₁ }) hs₁ hscope₁ h
    · obtain ⟨accumulator, p₂, hask, h⟩ := yields_bind.1 h
      obtain ⟨-, rfl⟩ := yields_ask.1 hask
      exact endedSessions_steps scope (p := { p with store := s₁ }) hs₁ hscope₁ h
  unfold sessions at h
  simp only at h
  split at h
  · obtain ⟨u, p₁, hrun, h⟩ := yields_bind.1 h
    obtain ⟨s₁, hend, rfl⟩ := yields_run.1 hrun
    obtain ⟨hsteps, hscope₁⟩ := Store.endSessions_steps scope hs.undamaged hscope
      (Transaction.yields_change.1 hend)
    exact hsteps.trans (hrest (p := { p with store := s₁ }) (hsteps.consistent hs) hscope₁ h)
  · exact hrest hs hscope h

/-! ### The last stage -/

theorem retain_steps {settings : Settings} {now : Int} {s s' : Store} {u : Unit}
    (hs : s.Consistent) (hdaily : ∀ r ∈ s.reports.rows, r.kind = .daily → scope.touches r.id)
    (hempty : s.CoversEmpty scope) (h : Yields (retain settings now) s u s') :
    Store.Steps scope s s' := by
  -- what is left once the old values are deleted
  have hrest : ∀ {s : Store}, s.Consistent → s.CoversEmpty scope →
      Yields (do
        Transaction.change (·.deleteOrphanMetrics)
        Transaction.change
          (·.deleteOrphanReports (now - settings.retention.orphanReportExpiry))) s u s' →
      Store.Steps scope s s' := by
    intro s hs hempty h
    obtain ⟨v, s₁, hmetrics, hreports⟩ := yields_bind.1 h
    obtain ⟨hsteps, hscope⟩ := Store.deleteOrphanMetrics_steps scope hs.undamaged hempty
      (Transaction.yields_change.1 hmetrics)
    exact hsteps.trans (Store.deleteOrphanReports_steps scope (hsteps.consistent hs).undamaged hscope
      (Transaction.yields_change.1 hreports))
  unfold retain at h
  obtain ⟨accumulator, s₁, hlook, h⟩ := yields_bind.1 h
  obtain ⟨hopen, rfl⟩ := Transaction.yields_query.1 hlook
  rw [Store.openReport?_eq hs.undamaged, Except.ok.injEq] at hopen
  split at h
  · next r =>
    obtain ⟨v, s₂, hvalues, h⟩ := yields_bind.1 h
    obtain ⟨hr, hkind, -⟩ := of_find_open hopen
    obtain ⟨hsteps, hempty₂⟩ := Store.deleteValuesBefore_steps scope hs (hdaily r hr hkind) hempty
      (Transaction.yields_change.1 hvalues)
    exact hsteps.trans (hrest (hsteps.consistent hs) hempty₂ h)
  · exact hrest hs hempty h

/-- The stages after the hourly one start nothing. -/
theorem others_steps {settings : Settings} {request : CollectRequest} {hourly : MetricReport}
    {path : Option Path} {p p' : Progress} {report : CustomReport} (hs : p.store.Consistent)
    (hscope : ∀ id, scope.touches id)
    (h : Yields (others settings request hourly path) p report p') :
    Store.Steps scope p.store p'.store := by
  obtain ⟨daily, p₁, hdaily, h⟩ := yields_bind.1 h
  obtain ⟨sessions, p₂, hsessions, h⟩ := yields_bind.1 h
  obtain ⟨u, p₃, hrun, h⟩ := yields_bind.1 h
  obtain ⟨-, rfl⟩ := yields_pure.1 h
  obtain ⟨s, hretain, rfl⟩ := yields_run.1 hrun
  have hsteps₁ := daily_steps scope hs (fun r _ _ => hscope r.id) hdaily
  have hs₁ := hsteps₁.consistent hs
  have hsteps₂ := sessions_steps scope hs₁ (fun r _ _ => hscope r.id) hsessions
  exact (hsteps₁.trans hsteps₂).trans (retain_steps scope (hsteps₂.consistent hs₁)
    (fun r _ _ => hscope r.id) ⟨fun m _ _ => hscope m.reportId, fun r _ _ => hscope r.id⟩ hretain)

end Collecting

end Telemetry
