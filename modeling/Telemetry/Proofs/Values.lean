import Telemetry.Proofs.Sessions

/-!
# What a collection does to the values

A collection changes no value.  It removes values only with a report that it has reported on, with
hourly reports for which no daily report is asked, and from the daily accumulator where they are too
old; what is empty holds no values, so removing it costs none.  The values that it adds repeat the
latest ones of metrics that are carried over.
-/

namespace Telemetry

/-- Why a collection may let go of a value of a report. -/
inductive Store.Releases (s : Store) (settings : Settings) (request : CollectRequest)
    (report : CustomReport) (v : ValueRow) (r : ReportRow) : Prop
  | session {m : MetricReport} (hdue : r ∈ s.dueSessions settings request)
      (hreported : m ∈ report.sessions) (hon : m.IsOn request.nowMs r)
  | hourly (hkind : r.kind = .hourly)
      (hdaily : request.dailyEnabled = false ∨ report.daily.isSome = true)
  | outdated (hkind : r.kind = .daily) (hopen : r.endMs = none)
      (hold : v.timeMs < request.nowMs - settings.retention.accumulatorRetention)

/-- The daily stage takes out hourly reports only, once they are reported on or if no daily report is
asked for. -/
theorem Collecting.daily_releases {settings : Settings} {request : CollectRequest}
    {p p' : Progress} {daily : Option MetricReport} (hs : p.store.Consistent)
    (h : Yields (Collecting.daily settings request) p daily p') {r : ReportRow}
    (hr : r ∈ p.store.reports.rows) :
    r.kind = .hourly ∧ (request.dailyEnabled = false ∨ daily.isSome = true) ∨
      Store.SameReport r.id p.store p'.store := by
  rcases daily_cases hs.undamaged h with ⟨-, rfl, -⟩ | ⟨hseen, -, hwhy⟩
  · exact .inr (.refl r.id p'.store)
  by_cases hgone : r.id ∈ p.store.endedHourlies.map (·.id)
  · obtain ⟨x, hx, hid⟩ := List.mem_map.1 hgone
    obtain ⟨hx, hended⟩ := Store.mem_endedHourlies.1 hx
    rw [hs.report_eq hx hr hid] at hended
    refine .inl ⟨(ReportRow.isEnded_iff.1 hended).1, ?_⟩
    rcases hwhy with ⟨-, hoff⟩ | ⟨m, -, hsome, -⟩
    · exact .inl hoff
    · exact .inr (by rw [hsome]; rfl)
  · exact .inr ((hs.sameReport_without hgone).trans (hseen.sameReport r.id))

namespace Engine

variable {e : Engine} {request : CollectRequest} {exportName : String} {files : Files}
  {report : CustomReport}

/-- A value stays as it is, or its report gives the reason why it goes. -/
theorem collect_value (hs : e.store.Consistent)
    (h : (e.collect request exportName files).result = .ok report) {v : ValueRow}
    (hv : v ∈ e.store.values.rows) {m : MetricRow} (hm : m ∈ e.store.metrics.rows)
    (hvm : m.id = v.metricId) {r : ReportRow} (hr : r ∈ e.store.reports.rows)
    (hmr : m.reportId = r.id) :
    v ∈ (e.collect request exportName files).engine.store.values.rows ∨
      e.store.Releases e.settings request report v r := by
  obtain ⟨path, p₁, p₂, p₃, hhourly, hs₁, hdaily, hs₂, hsessions, hs₃, htidied, -⟩ :=
    collect_stages hs h
  have hkeeps : Store.KeepsSessions e.store p₂.store :=
    ((Collecting.hourly_keepsUnhourly hs hhourly).trans
      (Collecting.daily_keepsUnhourly hs₁ hdaily)).keepsSessions
  -- the hourly stage leaves the report with what it holds, even if it closes it
  obtain ⟨source, hadds, -⟩ := Collecting.hourly_adds hs hhourly
  have hclosed : r.closedAt request.nowMs ∈ (e.store.closed request.nowMs).reports.rows :=
    Store.mem_closed.2 ⟨r, hr, rfl⟩
  have hid := r.closedAt_id request.nowMs
  have hsame₁ := hadds.sameReport hs₁ hclosed (hs.closed_ended hclosed)
  rw [hid] at hsame₁
  have hm₀ : m ∈ (e.store.closed request.nowMs).metricRowsOf r.id :=
    Store.mem_metricRowsOf.2 ⟨hm, hmr⟩
  have hr₁ : r.closedAt request.nowMs ∈ p₁.store.reports.rows := (hsame₁.mem_reports hid).2 hclosed
  -- the daily stage removes it or leaves it alone
  rcases Collecting.daily_releases hs₁ hdaily hr₁ with ⟨hkind, hwhy⟩ | hsame₂
  · rw [ReportRow.closedAt_kind] at hkind
    exact .inr (.hourly hkind hwhy)
  rw [hid] at hsame₂
  have hsame := hsame₁.trans hsame₂
  -- the session stage removes it once it has reported on it
  obtain ⟨hon, hseen⟩ := Collecting.sessions_cases hs₂.undamaged hsessions
  rw [hkeeps.dueSessions_eq] at hon hseen
  by_cases hgone : r.id ∈ (e.store.dueSessions e.settings request).map (·.id)
  · obtain ⟨x, hx, hxr⟩ := List.mem_map.1 hgone
    obtain rfl := hs.report_eq (Store.mem_dueSessions.1 hx).1 hr hxr
    obtain ⟨sr, hsr, hisOn⟩ := exists_of_forall₂ hon hx
    exact .inr (.session hx hsr hisOn)
  have hsame₃ := hsame.trans ((hs₂.sameReport_without hgone).trans (hseen.sameReport r.id))
  have hv₃ : v ∈ p₃.store.valuesOf m.id := by
    rw [hsame₃.values m hm₀]
    exact Store.mem_valuesOf.2 ⟨hv, hvm.symm⟩
  -- the last stage removes it from the accumulator if it is too old
  by_cases hold : p₃.store.isOutdated
      (request.nowMs - e.settings.retention.accumulatorRetention) v = true
  · have hm₃ : m ∈ p₃.store.metricRowsOf r.id := hsame₃.metrics ▸ hm₀
    have hr₃ : r.closedAt request.nowMs ∈ p₃.store.reports.rows :=
      (hsame₃.mem_reports hid).2 hclosed
    obtain ⟨hkind, hold⟩ := (hs₃.isOutdated_iff (Store.mem_metricRowsOf.1 hm₃).1 hvm hr₃
      (hmr.trans hid.symm)).1 hold
    rw [ReportRow.closedAt_kind] at hkind
    exact .inr (.outdated hkind (hs.dailyOpen r hr hkind) hold)
  · exact .inl (htidied.mem_values.2 ⟨(Store.mem_valuesOf.1 hv₃).1, by simpa using hold⟩)

/-- A value that was not there before repeats a value that is carried over. -/
theorem collect_newValue (hs : e.store.Consistent)
    (h : (e.collect request exportName files).result = .ok report) {v : ValueRow}
    (hv : v ∈ (e.collect request exportName files).engine.store.values.rows)
    (hnew : v ∉ e.store.values.rows) :
    (∃ r m, (e.collect request exportName files).engine.store.hourly? = some r ∧
      m ∈ (e.collect request exportName files).engine.store.metricRowsOf r.id ∧
      v.metricId = m.id) ∧
    ∃ r m w, e.store.hourly? = some r ∧ m ∈ e.store.metricRowsOf r.id ∧
      m.spec.carryOver = true ∧ w ∈ e.store.valuesOf m.id ∧ v.Repeats w := by
  obtain ⟨path, p₁, p₂, p₃, hhourly, hs₁, hdaily, hs₂, hsessions, hs₃, htidied, hsteps, hsettled⟩ :=
    collect_stages hs h
  -- later stages add no values
  have hv₁ : v ∈ p₁.store.values.rows := by
    have hv₃ := (htidied.mem_values.1 hv).1
    obtain ⟨-, kept, hp₃⟩ := Collecting.sessions_cases hs₂.undamaged hsessions
    rw [hp₃] at hv₃
    have hv₂ := (Store.mem_values_without.1 hv₃).1
    rcases Collecting.daily_cases hs₁.undamaged hdaily with ⟨-, rfl, -⟩ | ⟨⟨kept, hp₂⟩, -⟩
    · exact hv₂
    · rw [hp₂] at hv₂
      exact (Store.mem_values_without.1 hv₂).1
  obtain ⟨source, hadds, hnone, hsource⟩ := Collecting.hourly_adds hs hhourly
  obtain ⟨vs, hvs, hvalues⟩ := hadds.values
  obtain ⟨⟨r, hr, m, hm, hvm⟩, m', hm', hcarried, w, hw, -, hrepeats⟩ :=
    hvalues v ((List.mem_append.1 (hvs ▸ hv₁)).resolve_left hnew)
  constructor
  · have hsame := hsettled r.id ((Collecting.hourly_series hs hhourly).1 r hr).2
    exact ⟨r, m, hsame.hourly?_eq (hsteps.consistent hs₁) hr, hsame.metrics ▸ hm, hvm⟩
  · cases hopen : e.store.hourly? with
    | none =>
      rw [hnone hopen] at hv₁
      exact absurd hv₁ hnew
    | some current =>
      obtain rfl := hsource current hopen
      exact ⟨current, m', w, rfl, hm', hcarried, hw, hrepeats⟩

/-- A collection that succeeds loses and changes no value without a reason, and adds none but those
that it carries over. -/
theorem collect_keeps_values (he : e.Reachable)
    (h : (e.collect request exportName files).result = .ok report) :
    let after := (e.collect request exportName files).engine.store
    (∀ v ∈ e.store.values.rows, ∃ m ∈ e.store.metrics.rows, ∃ r ∈ e.store.reports.rows,
      m.id = v.metricId ∧ m.reportId = r.id ∧
        (v ∈ after.values.rows ∨ e.store.Releases e.settings request report v r)) ∧
    ∀ v ∈ after.values.rows, v ∉ e.store.values.rows →
      (∃ r m, after.hourly? = some r ∧ m ∈ after.metricRowsOf r.id ∧ v.metricId = m.id) ∧
      ∃ r m w, e.store.hourly? = some r ∧ m ∈ e.store.metricRowsOf r.id ∧
        m.spec.carryOver = true ∧ w ∈ e.store.valuesOf m.id ∧ v.Repeats w := by
  have hs := he.consistent
  refine ⟨fun v hv => ?_, fun v hv hnew => collect_newValue hs h hv hnew⟩
  obtain ⟨m, hm, hvm⟩ := hs.valueOwned v hv
  obtain ⟨r, hr, hmr⟩ := hs.metricOwned m hm
  exact ⟨m, hm, r, hr, hvm, hmr.symm, collect_value hs h hv hm hvm hr hmr.symm⟩

/-- A value that is carried over stays where it was, and is there once more. -/
theorem collect_keeps_values_carried :
    let e := (⟨default, none, .empty⟩ : Engine).run
      [.add { MetricSample.of "power" 5 (.bool true) with carryOver := true }]
    let after := (e.collect (.atTime 9) "x" default).engine.store
    e.store.values.rows.map (·.id) = [1] ∧ after.values.rows.map (·.id) = [1, 2] ∧
      ∃ v ∈ after.values.rows, ∃ r m w, e.store.hourly? = some r ∧
        m ∈ e.store.metricRowsOf r.id ∧ w ∈ e.store.valuesOf m.id ∧ v.id = 2 ∧ v.Repeats w := by
  intro e after
  have he : e.Reachable := ⟨default, none, ⟨default, none, .empty⟩, _, rfl, rfl⟩
  have hok : (e.collect (.atTime 9) "x" default).result.isOk = true := by decide +kernel
  have hbefore : e.store.values.rows.map (·.id) = [1] := by decide +kernel
  have hafter : after.values.rows.map (·.id) = [1, 2] := by decide +kernel
  refine ⟨hbefore, hafter, ?_⟩
  -- nothing more is to be computed
  clear_value e
  obtain ⟨v, hv, hid⟩ := List.mem_map.1 (show 2 ∈ after.values.rows.map (·.id) by simp [hafter])
  have hnew : v ∉ e.store.values.rows := by
    intro hmem
    have hone := List.mem_map_of_mem (f := ValueRow.id) hmem
    rw [hbefore, hid] at hone
    simp at hone
  cases hresult : (e.collect (.atTime 9) "x" default).result with
  | error err =>
    rw [hresult] at hok
    cases hok
  | ok report =>
    obtain ⟨-, r, m, w, hr, hm, -, hw, hrepeats⟩ :=
      (collect_keeps_values he hresult).2 v hv hnew
    exact ⟨v, hv, r, m, w, hr, hm, hw, hid, hrepeats⟩

end Engine

end Telemetry
