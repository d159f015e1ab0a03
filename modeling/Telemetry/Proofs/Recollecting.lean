import Telemetry.Proofs.Closings

/-!
# Collecting twice

A collection leaves nothing to do for another one at the same time.  Nothing is kept too long and no
session is due; what has been carried over is carried over as it is; and the accumulator that is
closed once more was started just now, so that the ended hourly reports span no longer time than
before.
-/

namespace Telemetry

namespace Store

variable {s s₁ s' : Store} {ages : RetentionSettings} {now : Int}

/-! ### Tidy stores -/

/-- Nothing is kept too long. -/
structure Tidy (ages : RetentionSettings) (now : Int) (s : Store) : Prop where
  values : ∀ v ∈ s.values.rows, s.isOutdated (now - ages.accumulatorRetention) v = false
  metrics : ∀ m ∈ s.metrics.rows, s.valuesOf m.id ≠ []
  reports : ∀ r ∈ s.reports.rows, s.metricRowsOf r.id = [] →
    now - ages.orphanReportExpiry ≤ r.startMs

theorem TidiedInto.tidy (h : s.TidiedInto ages now s') (hs : s.Consistent) (hs' : s'.Consistent) :
    s'.Tidy ages now where
  values := by
    intro v hv
    obtain ⟨m, hm, hvm⟩ := hs'.valueOwned v hv
    obtain ⟨r, hr, hmr⟩ := hs'.metricOwned m hm
    have hyoung := (h.mem_values.1 hv).2
    rw [← Bool.not_eq_true, hs.isOutdated_iff (h.mem_metrics.1 hm).1 hvm (h.mem_reports.1 hr).1
      hmr.symm] at hyoung
    rwa [← Bool.not_eq_true, hs'.isOutdated_iff hm hvm hr hmr.symm]
  metrics := fun m hm => (h.mem_metrics.1 hm).2
  reports := fun r hr hempty => not_lt.1 fun hold => (h.mem_reports.1 hr).2 ⟨hempty, hold⟩

/-- Of what a tidy store held nothing is removed. -/
theorem Tidy.same (htidy : s.Tidy ages now) (hs : s.Consistent) (hs₁ : s₁.Consistent)
    (h : s₁.TidiedInto ages now s') {r : ReportRow} (hr : r ∈ s.reports.rows)
    (hsame : SameReport r.id s s₁) : r ∈ s'.reports.rows ∧ SameReport r.id s₁ s' := by
  have hr₁ : r ∈ s₁.reports.rows := (hsame.mem_reports rfl).2 hr
  have hvalues : ∀ m ∈ s₁.metricRowsOf r.id, s'.valuesOf m.id = s₁.valuesOf m.id := by
    intro m hm
    have hm₀ : m ∈ s.metricRowsOf r.id := hsame.metrics ▸ hm
    rw [valuesOf, h.values]
    refine filter_filter_of_imp fun v hv hvm => ?_
    have hvm : m.id = v.metricId := (beq_iff_eq.1 hvm).symm
    have hv₀ : v ∈ s.valuesOf m.id := hsame.values m hm₀ ▸ mem_valuesOf.2 ⟨hv, hvm.symm⟩
    obtain ⟨hm, hmr⟩ := mem_metricRowsOf.1 hm
    have hyoung := htidy.values v (mem_valuesOf.1 hv₀).1
    rw [← Bool.not_eq_true, hs.isOutdated_iff (mem_metricRowsOf.1 hm₀).1 hvm hr hmr] at hyoung
    rwa [Bool.not_eq_true', ← Bool.not_eq_true, hs₁.isOutdated_iff hm hvm hr₁ hmr]
  have hmetrics : s'.metricRowsOf r.id = s₁.metricRowsOf r.id := by
    rw [metricRowsOf, h.metrics]
    refine filter_filter_of_imp fun m hm hmr => ?_
    have hm₁ := mem_metricRowsOf.2 ⟨hm, beq_iff_eq.1 hmr⟩
    have hm₀ : m ∈ s.metricRowsOf r.id := hsame.metrics ▸ hm₁
    rw [Bool.not_eq_true', List.isEmpty_eq_false_iff, hvalues m hm₁, hsame.values m hm₀]
    exact htidy.metrics m (mem_metricRowsOf.1 hm₀).1
  have hstays : r ∈ s'.reports.rows := by
    refine h.mem_reports.2 ⟨hr₁, ?_⟩
    rintro ⟨hempty, hold⟩
    rw [hmetrics, hsame.metrics] at hempty
    exact absurd hold (not_lt.2 (htidy.reports r hr hempty))
  refine ⟨hstays, ?_, hmetrics, hvalues⟩
  rw [h.reports]
  refine filter_filter_of_imp fun x hx hid => ?_
  obtain rfl := hs₁.report_eq hx hr₁ (beq_iff_eq.1 hid)
  rw [h.reports] at hstays
  exact (List.mem_filter.1 hstays).2

theorem Tidy.keepsUnhourly (htidy : s.Tidy ages now) (hs : s.Consistent) (hs₁ : s₁.Consistent)
    (hkeeps : KeepsUnhourly s s₁) (h : s₁.TidiedInto ages now s') : KeepsUnhourly s₁ s' := by
  have hsame : ∀ r ∈ s₁.reports.rows, r.kind ≠ .hourly →
      r ∈ s'.reports.rows ∧ SameReport r.id s₁ s' := by
    intro r hr hkind
    have hr₀ := (hkeeps.mem_reports hkind).1 hr
    exact htidy.same hs hs₁ h hr₀ (hkeeps.same r hr₀ hkind)
  refine ⟨fun q hq => ?_, fun r hr hkind => (hsame r hr hkind).2⟩
  rw [h.reports]
  refine filter_filter_of_imp fun r hr hqr => ?_
  have hkind : r.kind ≠ .hourly := fun hhourly => by simp [hq r hhourly] at hqr
  have hstays := (hsame r hr hkind).1
  rw [h.reports] at hstays
  exact (List.mem_filter.1 hstays).2

/-! ### Open reports -/

theorem KeepsUnhourly.openReports_eq (h : KeepsUnhourly s s') {kind : ReportKind}
    (hkind : kind ≠ .hourly) : s'.openReports kind = s.openReports kind := by
  rw [openReports, h.rows _ fun r hr => by simp [hr, hkind.symm], openReports]
  refine List.map_congr_left fun r hr => ?_
  obtain ⟨hr, hopen⟩ := List.mem_filter.1 hr
  simp only [Bool.and_eq_true, beq_iff_eq] at hopen
  rw [(h.same r hr (hopen.1 ▸ hkind)).holdings_eq]

theorem Consistent.openReports_hourly (hs : s.Consistent) :
    s.openReports .hourly = s.hourly?.toList.map fun r =>
      ⟨r.name, r.startMs, r.softwareVersion, s.holdings r.id⟩ := by
  have hrows : s.reports.rows.filter (fun r => r.kind == .hourly && r.endMs.isNone) =
      s.reports.rows.filter (·.isOpenAs .hourly none) := by
    refine List.filter_congr fun r hr => ?_
    cases hkind : r.kind == .hourly with
    | false => simp [ReportRow.isOpenAs, hkind]
    | true =>
      have hname : r.name = none := hs.unnamed hr (by simp [beq_iff_eq.1 hkind])
      simp [ReportRow.isOpenAs, hkind, hname]
  rw [openReports, hrows, filter_of_countP_le_one (hs.oneOpen .hourly none), hourly?]

/-- The successor is there if it holds something. -/
theorem Consistent.openReports_succeeded (hs : s.Consistent) {version : Option String}
    (hsucc : s.SucceededAt now) (hversion : s.HourlyOf version) :
    s.openReports .hourly = if s.hourlyHoldings = [] then [] else
      [⟨none, now, version, s.hourlyHoldings⟩] := by
  rw [hs.openReports_hourly, hourlyHoldings]
  cases hopen : s.hourly? with
  | none => rfl
  | some r =>
    obtain ⟨-, -, hname, -⟩ := of_hourly? hopen
    obtain ⟨hstart, hsettled⟩ := hsucc r hopen
    have hholds : s.holdings r.id ≠ [] := mt List.map_eq_nil_iff.1 hsettled.metric
    rw [Option.elim_some, if_neg hholds, ← hversion r hopen, ← hname, ← hstart]
    rfl

end Store

/-! ### The window of the hourly report -/

theorem Collecting.reportHourly_header {settings : Settings} {request : CollectRequest}
    {exportName : String} {current : ReportRow} {p p' : Progress} {report : MetricReport}
    {path : Option Path}
    (h : Yields (reportHourly settings request exportName current) p (report, path) p') :
    (MetricReport.empty .hourly none ⟨current.startMs, request.nowMs⟩
      current.softwareVersion).SameHeader report := by
  obtain ⟨u, p₁, -, h⟩ := yields_bind.1 h
  obtain ⟨rows, p₂, -, h⟩ := yields_bind.1 h
  obtain ⟨summary, p₃, hsummary, h⟩ := yields_bind.1 h
  obtain ⟨⟨report', derived⟩, p₄, hderive, h⟩ := yields_bind.1 h
  obtain ⟨path', p₅, -, h⟩ := yields_bind.1 h
  obtain ⟨hresult, -⟩ := yields_pure.1 h
  obtain ⟨rfl, -⟩ : report' = report ∧ path' = path := by simpa using hresult
  obtain ⟨s, hsummarize, -⟩ := yields_run.1 hsummary
  exact (MetricReport.summarize_sameHeader _ hsummarize).trans (derive_sameHeader hderive)

/-- The hourly report is on the time from the start of the open accumulator until now. -/
theorem Collecting.hourly_window {settings : Settings} {version : Option String}
    {request : CollectRequest} {exportName : String} {p p' : Progress} {report : MetricReport}
    {path : Option Path} (hs : p.store.Consistent)
    (h : Yields (hourly settings version request exportName) p (report, path) p') :
    report.startMs = p.store.hourly?.elim request.nowMs (·.startMs) ∧
      report.endMs = request.nowMs := by
  rcases hourly_cases hs h with ⟨hnone, -, rfl⟩ | ⟨r, p₁, hopen, hreport, -⟩
  · rw [Store.hourly?, hnone]
    exact ⟨rfl, rfl⟩
  · have hheader := reportHourly_header hreport
    rw [Store.hourly?, hopen]
    exact ⟨hheader.startMs, hheader.endMs⟩

/-! ### After one collection -/

theorem Engine.Reachable.dailySpan_pos {e : Engine} (he : e.Reachable) :
    0 < e.settings.retention.dailySpan := by
  have hvalid := he.validated
  unfold Settings.validate at hvalid
  split at hvalid
  · cases hvalid
  split at hvalid
  · cases hvalid
  split at hvalid
  · cases hvalid
  · next hspan => exact not_le.1 hspan

namespace Engine

variable {e : Engine} {request : CollectRequest} {exportName exportName' : String}
  {files files' : Files} {report report' : CustomReport}

/-- After a collection the open accumulator, if there is one, holds what was to be carried over, row
by row. -/
theorem collect_holdings (hs : e.store.Consistent)
    (h : (e.collect request exportName files).result = .ok report) :
    let carried := e.store.carriedHoldings e.settings.retention.carryOverMaxAge request.nowMs
    (e.collect request exportName files).engine.store.hourlyHoldings = carried ∧
      (e.collect request exportName files).engine.store.openReports .hourly =
        if carried = [] then [] else [⟨none, request.nowMs, e.softwareVersion, carried⟩] := by
  intro carried
  obtain ⟨hourly, path, p, hhourly, hs', hopen, hsame⟩ := collect_hourly hs h
  have hsucc := (Collecting.hourly_series hs hhourly).1
  obtain ⟨hholds, hversion⟩ := Collecting.hourly_holds hs hhourly
  have hcarried : (e.collect request exportName files).engine.store.hourlyHoldings = carried := by
    refine Eq.trans ?_ hholds
    rw [Store.hourlyHoldings, Store.hourlyHoldings, hopen]
    cases hr : p.store.hourly? with
    | none => rfl
    | some r => exact (hsame r hr).holdings_eq
  refine ⟨hcarried, ?_⟩
  rw [← hcarried]
  refine hs'.openReports_succeeded (fun r hr => ?_) fun r hr => hversion r (hopen ▸ hr)
  rw [hopen] at hr
  exact ⟨(hsucc r hr).1, (hsucc r hr).2.of_same (hsame r hr)⟩

/-- After a collection no session is due. -/
theorem collect_noneDue (hs : e.store.Consistent)
    (h : (e.collect request exportName files).result = .ok report) :
    (e.collect request exportName files).engine.store.dueSessions e.settings request = [] := by
  have hsettled := collect_settled hs h
  refine List.eq_nil_iff_forall_not_mem.2 fun r hr => ?_
  obtain ⟨hr, hdue⟩ := Store.mem_dueSessions.1 hr
  have hbefore := hsettled.known r hr (Store.of_isDue hdue)
  exact (hsettled.gone r (Store.mem_dueSessions.2 ⟨hbefore, hdue⟩)).report r hr rfl

/-- What has ended after a collection, if anything, is to become a day and was too short for one. -/
theorem collect_short (hs : e.store.Consistent)
    (h : (e.collect request exportName files).result = .ok report) :
    (e.collect request exportName files).engine.store.endedHourlies = [] ∨
      request.dailyEnabled = true ∧ (Collecting.span request.nowMs
        (e.store.closed request.nowMs).endedHourlies).durationMs < e.settings.retention.dailySpan := by
  obtain ⟨path, p₁, p₂, p₃, hhourly, hs₁, hdaily, hs₂, hsessions, hs₃, htidied, hsteps, -⟩ :=
    collect_stages hs h
  have hkeeps := (Collecting.sessions_keepsEnded hs₂ hsessions).trans
    (htidied.keepsEnded hs₃ (hsteps.consistent hs₁))
  have hnone : p₂.store.endedHourlies = [] →
      (e.collect request exportName files).engine.store.endedHourlies = [] := by
    intro hnone
    exact List.eq_nil_iff_forall_not_mem.2 fun r hr => by simpa [hnone] using hkeeps.mem r hr
  rw [← (Collecting.hourly_keepsEnded hs hhourly).1]
  rcases Collecting.daily_cases hs₁.undamaged hdaily with
    ⟨-, rfl, hempty | hshort⟩ | ⟨⟨kept, hp₂⟩, -, -⟩
  · exact .inl (hnone hempty)
  · exact .inr hshort
  · refine .inl (hnone ?_)
    rw [hp₂]
    exact p₁.store.endedHourlies_without

/-- Closing the accumulator once more makes no day. -/
theorem collect_closed_short (he : e.Reachable)
    (hstart : ∀ x, e.store.hourly? = some x → x.startMs ≤ request.nowMs)
    (h : (e.collect request exportName files).result = .ok report) :
    let ended := ((e.collect request exportName files).engine.store.closed
      request.nowMs).endedHourlies
    ∀ r ∈ ended,
      (Collecting.span request.nowMs ended).durationMs < e.settings.retention.dailySpan := by
  intro ended r hr
  have hs := he.consistent
  obtain ⟨hourly, path, p, hhourly, hs', hopen, -⟩ := collect_hourly hs h
  have hnow := (collect_series hs h).2.1
  rcases collect_short hs h with hnone | ⟨-, hshort⟩
  · -- the accumulator alone, which was started just now
    have hpos := he.dailySpan_pos
    refine lt_of_le_of_lt (@Collecting.span_durationMs_le _ _ _ hr request.nowMs request.nowMs
      fun x hx => ?_) (by omega)
    rcases hs'.of_mem_closed hx with hx | ⟨y, hy, rfl⟩
    · rw [hnone] at hx
      cases hx
    · exact ⟨(hnow y hy).ge, _, rfl, le_rfl⟩
  · refine lt_of_le_of_lt (Collecting.span_durationMs_le hr fun x hx => ?_) hshort
    rcases hs'.of_mem_closed hx with hx | ⟨y, hy, rfl⟩
    · have hx := (collect_keepsEnded hs h).1.mem x hx
      obtain ⟨t, hend⟩ := Option.ne_none_iff_exists'.1 (Store.of_mem_endedHourlies hx).2.2
      exact ⟨Collecting.span_start_le hx, t, hend, Collecting.le_span_end hx hend⟩
    · -- the accumulator before it ended just then
      obtain ⟨a, ha⟩ : ∃ a, e.store.hourly? = some a := by
        refine Option.ne_none_iff_exists'.1 fun hnone => ?_
        obtain ⟨source, -, hsame, -⟩ := Collecting.hourly_adds hs hhourly
        rw [hopen, hsame hnone, hnone] at hy
        cases hy
      have hclosed := Store.mem_closed_of_hourly? ha request.nowMs
      have hle := @Collecting.span_start_le request.nowMs _ _ hclosed
      refine ⟨?_, _, rfl, Collecting.le_span_end hclosed rfl⟩
      rw [hnow y hy]
      exact hle.trans (hstart a ha)

/-- Nothing is kept too long after a collection. -/
theorem collect_tidy (hs : e.store.Consistent)
    (h : (e.collect request exportName files).result = .ok report) :
    (e.collect request exportName files).engine.store.Tidy e.settings.retention request.nowMs := by
  obtain ⟨-, p₁, -, p₃, -, hs₁, -, -, -, hs₃, htidied, hsteps, -⟩ := collect_stages hs h
  exact htidied.tidy hs₃ (hsteps.consistent hs₁)

/-! ### A collection with nothing to do -/

/-- The hourly report is on the time from the start of the open accumulator until now. -/
theorem collect_window (hs : e.store.Consistent)
    (h : (e.collect request exportName files).result = .ok report) :
    report.hourly.startMs = e.store.hourly?.elim request.nowMs (·.startMs) ∧
      report.hourly.endMs = request.nowMs := by
  obtain ⟨path, p₁, p₂, p₃, hhourly, -⟩ := collect_stages hs h
  exact Collecting.hourly_window hs hhourly

/-- Where what has ended is too short for a day, there is no daily report. -/
theorem collect_noDay (hs : e.store.Consistent)
    (hshort : ∀ r ∈ (e.store.closed request.nowMs).endedHourlies,
      (Collecting.span request.nowMs
        (e.store.closed request.nowMs).endedHourlies).durationMs < e.settings.retention.dailySpan)
    (h : (e.collect request exportName files).result = .ok report) : report.daily = none := by
  obtain ⟨path, p₁, p₂, p₃, hhourly, hs₁, hdaily, -⟩ := collect_stages hs h
  rw [← (Collecting.hourly_keepsEnded hs hhourly).1] at hshort
  rcases Collecting.daily_cases hs₁.undamaged hdaily with
    ⟨hnone, -⟩ | ⟨-, hsome, ⟨hnone, -⟩ | ⟨-, -, -, ⟨-, hlong⟩, -⟩⟩
  · exact hnone
  · exact hnone
  · obtain ⟨r, hr⟩ := List.exists_mem_of_ne_nil _ hsome
    exact absurd hlong (not_le_of_gt (hshort r hr))

/-- Where nothing is kept too long and no session is due, all but the hourly reports is left alone. -/
theorem collect_keepsUnhourly (hs : e.store.Consistent)
    (htidy : e.store.Tidy e.settings.retention request.nowMs)
    (hdue : e.store.dueSessions e.settings request = [])
    (h : (e.collect request exportName files).result = .ok report) :
    report.sessions = [] ∧
      e.store.KeepsUnhourly (e.collect request exportName files).engine.store := by
  obtain ⟨path, p₁, p₂, p₃, hhourly, hs₁, hdaily, hs₂, hsessions, hs₃, htidied, -⟩ :=
    collect_stages hs h
  have hkeeps := (Collecting.hourly_keepsUnhourly hs hhourly).trans
    (Collecting.daily_keepsUnhourly hs₁ hdaily)
  obtain ⟨hon, hseen⟩ := Collecting.sessions_cases hs₂.undamaged hsessions
  rw [hkeeps.keepsSessions.dueSessions_eq, hdue] at hon hseen
  rw [List.map_nil, Store.without_nil] at hseen
  have hkeeps' := hkeeps.trans (.of_seenAs hseen)
  exact ⟨List.forall₂_nil_left_iff.1 hon,
    hkeeps'.trans (htidy.keepsUnhourly hs hs₃ hkeeps' htidied)⟩

/-! ### Collecting twice -/

/-- A second collection at the same time finds nothing to report and leaves what is open as it was:
the accumulators and the sessions, with their metrics and values. -/
theorem collect_again (he : e.Reachable)
    (hstarts : ∀ r ∈ e.store.reports.rows, r.kind = .hourly → r.startMs ≤ request.nowMs)
    (h : (e.collect request exportName files).result = .ok report)
    (h' : ((e.collect request exportName files).engine.collect request exportName' files').result =
      .ok report') :
    let once := (e.collect request exportName files).engine
    let twice := (once.collect request exportName' files').engine
    report'.sessions = [] ∧ report'.daily = none ∧
      report'.hourly.startMs = request.nowMs ∧ report'.hourly.endMs = request.nowMs ∧
      ∀ kind, twice.store.openReports kind = once.store.openReports kind := by
  intro once twice
  have hs := he.consistent
  obtain ⟨hsettings, hversion⟩ : once.settings = e.settings ∧
      once.softwareVersion = e.softwareVersion :=
    Terms.mk.inj (collect_terms request exportName files)
  obtain ⟨hs₁, hnow, -⟩ := collect_series hs h
  have hstart : ∀ x, e.store.hourly? = some x → x.startMs ≤ request.nowMs := by
    intro x hx
    obtain ⟨hx, hkind, -⟩ := Store.of_hourly? hx
    exact hstarts x hx hkind
  have htidy := collect_tidy hs h
  have hdue := collect_noneDue hs h
  have hshort := collect_closed_short he hstart h
  rw [← hsettings] at htidy hdue hshort
  obtain ⟨hsessions, hkeeps⟩ := collect_keepsUnhourly hs₁ htidy hdue h'
  obtain ⟨hfrom, hto⟩ := collect_window hs₁ h'
  refine ⟨hsessions, collect_noDay hs₁ hshort h', ?_, hto, fun kind => ?_⟩
  · rw [hfrom]
    cases hr : once.store.hourly? with
    | none => rfl
    | some r => exact hnow r hr
  · by_cases hkind : kind = .hourly
    · subst hkind
      -- what has been carried over is carried over as it is
      obtain ⟨hholds, hopen⟩ := collect_holdings hs h
      have hopen' := (collect_holdings hs₁ h').2
      rw [hsettings, hversion, Store.carriedHoldings_again hholds, hholds] at hopen'
      exact hopen'.trans hopen.symm
    · exact hkeeps.openReports_eq hkind

/-- The first collection makes a day and carries a value over, the second one does neither: it leaves
the accumulators and the session with what they hold. -/
theorem collect_again_power :
    let settings : Settings :=
      { (default : Settings) with retention := { (default : RetentionSettings) with dailySpan := 2 } }
    let e := (⟨settings, none, .empty⟩ : Engine).run
      [.startSession "evening" 4,
        .add { MetricSample.of "power" 5 (.bool true) with carryOver := true },
        .add { MetricSample.of "heat" 6 (.bool true) with reportKind := .daily }]
    let once := e.collect (.atTime 9) "x" default
    let twice := once.engine.collect (.atTime 9) "y" default
    once.result.toOption.any (·.daily.isSome) = true ∧
      (once.engine.store.openReports .hourly).map (·.holdings.length) = [1] ∧
      (∃ report, twice.result = .ok report ∧ report.sessions = [] ∧ report.daily = none) ∧
      ∀ kind, twice.engine.store.openReports kind = once.engine.store.openReports kind := by
  intro settings e once twice
  have he : e.Reachable := ⟨settings, none, ⟨settings, none, .empty⟩, _, rfl, rfl⟩
  have hday : once.result.toOption.any (·.daily.isSome) = true := by decide +kernel
  have hcarried : (once.engine.store.openReports .hourly).map (·.holdings.length) = [1] := by
    decide +kernel
  have hstarts : ∀ r ∈ e.store.reports.rows, r.kind = .hourly → r.startMs ≤ 9 := by decide +kernel
  have hok : twice.result.isOk = true := by decide +kernel
  refine ⟨hday, hcarried, ?_⟩
  -- nothing more is to be computed
  clear_value e
  cases hfirst : once.result with
  | error err =>
    rw [hfirst] at hday
    cases hday
  | ok report =>
    cases hsecond : twice.result with
    | error err =>
      rw [hsecond] at hok
      cases hok
    | ok report' =>
      obtain ⟨hsessions, hdaily, -, -, hopen⟩ := collect_again he hstarts hfirst hsecond
      exact ⟨⟨report', rfl, hsessions, hdaily⟩, hopen⟩

end Engine

end Telemetry
