import Telemetry.Proofs.Recollecting
import Telemetry.Proofs.Seeding

/-!
# What a collection keeps

After a collection hourly reports that have ended are there only where they wait to become a day, and
they span less than one; every metric has a value; reports without metrics are young, and so are the
values of the daily accumulator.  The last stage has nothing to remove then, and leaves a store with
nothing to remove exactly as it was.
-/

namespace Telemetry

namespace Store

/-- What is left after a collection is no more than is to be kept. -/
structure Retained (settings : Settings) (request : CollectRequest) (s : Store) : Prop where
  /-- Hourly reports that have ended wait for the others of their day. -/
  waiting : ∀ r ∈ s.reports.rows, r.kind = .hourly → r.endMs ≠ none → request.dailyEnabled = true
  short : ∀ a ∈ s.reports.rows, ∀ b ∈ s.reports.rows, a.kind = .hourly → b.kind = .hourly →
    b.endMs ≠ none → ∀ t, a.endMs = some t → t - b.startMs < settings.retention.dailySpan
  valued : ∀ m ∈ s.metrics.rows, ∃ v ∈ s.values.rows, v.metricId = m.id
  young : ∀ r ∈ s.reports.rows, (∀ m ∈ s.metrics.rows, m.reportId ≠ r.id) →
    request.nowMs - settings.retention.orphanReportExpiry ≤ r.startMs
  recent : ∀ r ∈ s.reports.rows, r.kind = .daily → r.endMs = none → ∀ m ∈ s.metricRowsOf r.id,
    ∀ v ∈ s.valuesOf m.id, request.nowMs - settings.retention.accumulatorRetention ≤ v.timeMs
  /-- Cleaning up once more changes nothing. -/
  again : Yields (Collecting.retain settings request.nowMs) s () s

variable {s : Store} {ages : RetentionSettings} {now : Int}

/-! ### Removing nothing -/

theorem removeValues_none (hs : s.Undamaged) (hwritable : s.readOnly = false)
    {selected : ValueRow → Bool} (h : ∀ v ∈ s.values.rows, selected v = false)
    (step : StorageStep) : s.removeValues selected step = .ok s := by
  rw [removeValues, need_eq_ok hs, permit_eq_ok hs hwritable, Table.remove_none h]
  rfl

theorem removeMetrics_none (hs : s.Undamaged) (hwritable : s.readOnly = false)
    {selected : MetricRow → Bool} (h : ∀ m ∈ s.metrics.rows, selected m = false)
    (step : StorageStep) : s.removeMetrics selected step = .ok s := by
  rw [removeMetrics, permit_eq_ok hs hwritable, Table.remove_none h]
  rfl

theorem removeReports_none (hs : s.Undamaged) (hwritable : s.readOnly = false)
    {selected : ReportRow → Bool} (h : ∀ r ∈ s.reports.rows, selected r = false)
    (step : StorageStep) : s.removeReports selected step = .ok s := by
  rw [removeReports, permit_eq_ok hs hwritable, Table.remove_none h]
  rfl

namespace Tidy

theorem deleteValuesBefore_eq (htidy : s.Tidy ages now) (hs : s.Undamaged)
    (hwritable : s.readOnly = false) {r : ReportRow} (hr : s.daily? = some r) :
    s.deleteValuesBefore r.id (now - ages.accumulatorRetention) = .ok s := by
  apply removeValues_none hs hwritable
  intro v hv
  have hyoung := htidy.values v hv
  rw [isOutdated, hr, Option.any_some, ownedBy_singleton] at hyoung
  rw [testValue_eq hs, isValueOf_eq hs, metricIdsOf_eq hs]
  exact hyoung

theorem deleteOrphanMetrics_eq (htidy : s.Tidy ages now) (hs : s.Undamaged)
    (hwritable : s.readOnly = false) : s.deleteOrphanMetrics = .ok s := by
  rw [deleteOrphanMetrics, need_eq_ok hs]
  apply removeMetrics_none hs hwritable
  intro m hm
  have hvalues := htidy.metrics m hm
  rw [isValueOf_eq hs, Bool.not_eq_false', any_eq_filter, Bool.not_eq_true',
    List.isEmpty_eq_false_iff]
  simpa [valuesOf] using hvalues

theorem deleteOrphanReports_eq (htidy : s.Tidy ages now) (hs : s.Undamaged)
    (hwritable : s.readOnly = false) :
    s.deleteOrphanReports (now - ages.orphanReportExpiry) = .ok s := by
  rw [deleteOrphanReports, need_eq_ok hs]
  apply removeReports_none hs hwritable
  intro r hr
  rw [belongsTo_eq hs, testReport_eq hs, any_eq_filter, Bool.not_not, ← Bool.not_eq_true,
    Bool.and_eq_true, List.isEmpty_iff]
  rintro ⟨hempty, hold⟩
  exact absurd (of_decide_eq_true hold) (not_lt.2 (htidy.reports r hr hempty))

/-- The last stage leaves a tidy store as it is. -/
theorem retain_yields {settings : Settings} (htidy : s.Tidy settings.retention now)
    (hs : s.Undamaged) (hwritable : s.readOnly = false) :
    Yields (Collecting.retain settings now) s () s := by
  unfold Collecting.retain
  have hrest : Yields (do
      Transaction.change (·.deleteOrphanMetrics)
      Transaction.change (·.deleteOrphanReports (now - settings.retention.orphanReportExpiry)))
      s () s :=
    yields_bind.2 ⟨(), s, Transaction.yields_change.2 (htidy.deleteOrphanMetrics_eq hs hwritable),
      Transaction.yields_change.2 (htidy.deleteOrphanReports_eq hs hwritable)⟩
  refine yields_bind.2 ⟨s.daily?, s, Transaction.yields_query.2 ⟨openReport?_eq hs _ _, rfl⟩, ?_⟩
  cases hdaily : s.daily? with
  | none => exact hrest
  | some r =>
    exact yields_bind.2 ⟨(), s,
      Transaction.yields_change.2 (htidy.deleteValuesBefore_eq hs hwritable hdaily), hrest⟩

end Tidy

end Store

namespace Engine

variable {e : Engine} {request : CollectRequest} {exportName : String} {files : Files}
  {report : CustomReport}

/-- Hourly reports that have ended are there after a collection only where days are made, and no two
of them are a day apart. -/
theorem collect_ended (hs : e.store.Consistent)
    (h : (e.collect request exportName files).result = .ok report) :
    let ended := (e.collect request exportName files).engine.store.endedHourlies
    (ended ≠ [] → request.dailyEnabled = true) ∧
      ∀ a ∈ ended, ∀ b ∈ ended, ∀ t, a.endMs = some t →
        t - b.startMs < e.settings.retention.dailySpan := by
  intro ended
  have hkeeps := (collect_keepsEnded hs h).1
  rcases collect_short hs h with hnone | ⟨hon, hshort⟩
  · constructor
    · exact fun hsome => absurd hnone hsome
    · intro a ha
      change ended = [] at hnone
      rw [hnone] at ha
      cases ha
  · refine ⟨fun _ => hon, fun a ha b hb t ht => ?_⟩
    have hend := @Collecting.le_span_end request.nowMs _ _ (hkeeps.mem a ha) t ht
    have hstart := @Collecting.span_start_le request.nowMs _ _ (hkeeps.mem b hb)
    rw [Window.durationMs] at hshort
    omega

/-- After a collection nothing is kept for longer than it should be. -/
theorem collect_retains (he : e.Reachable)
    (h : (e.collect request exportName files).result = .ok report) :
    (e.collect request exportName files).engine.store.Retained e.settings request := by
  have hs := he.consistent
  have hs' := (collect_series hs h).1
  have htidy := collect_tidy hs h
  obtain ⟨hwaiting, hshort⟩ := collect_ended hs h
  have hended : ∀ r ∈ (e.collect request exportName files).engine.store.reports.rows,
      r.kind = .hourly → r.endMs ≠ none →
        r ∈ (e.collect request exportName files).engine.store.endedHourlies :=
    fun r hr hkind hend =>
      Store.mem_endedHourlies.2 ⟨hr, ReportRow.isEnded_iff.2 ⟨hkind, hend⟩⟩
  constructor
  · intro r hr hkind hend
    exact hwaiting (List.ne_nil_of_mem (hended r hr hkind hend))
  · intro a ha b hb hakind hbkind hbend t ht
    exact hshort a (hended a ha hakind (by simp [ht])) b (hended b hb hbkind hbend) t ht
  · intro m hm
    obtain ⟨v, hv⟩ := List.exists_mem_of_ne_nil _ (htidy.metrics m hm)
    exact ⟨v, Store.mem_valuesOf.1 hv⟩
  · intro r hr hnone
    apply htidy.reports r hr
    rw [Store.metricRowsOf, List.filter_eq_nil_iff]
    exact fun m hm hid => hnone m hm (beq_iff_eq.1 hid)
  · intro r hr hkind _ m hm v hv
    obtain ⟨hm, hmr⟩ := Store.mem_metricRowsOf.1 hm
    obtain ⟨hv, hvm⟩ := Store.mem_valuesOf.1 hv
    have hyoung := htidy.values v hv
    rw [← Bool.not_eq_true, hs'.isOutdated_iff hm hvm.symm hr hmr, not_and] at hyoung
    exact not_lt.1 (hyoung hkind)
  · have hwritable : (e.collect request exportName files).engine.store.readOnly = false :=
      (call_steps hs (.collect request exportName files)).readOnly_eq.trans he.readOnly_eq
    exact htidy.retain_yields hs'.undamaged hwritable

/-- Of two values of the daily accumulator the older one goes, and of two sessions without metrics the
older one; the hourly report that has ended waits for its day. -/
theorem collect_retains_heat :
    let settings : Settings :=
      { (default : Settings) with
        retention := { (default : RetentionSettings) with
          dailySpan := 10, accumulatorRetention := 3, orphanReportExpiry := 4 } }
    let e := (⟨settings, none, .empty⟩ : Engine).run
      [.add (MetricSample.of "power" 4 (.bool true)),
        .add { MetricSample.of "heat" 5 (.bool true) with reportKind := .daily },
        .add { MetricSample.of "heat" 7 (.bool false) with reportKind := .daily },
        .startSession "old" 2, .startSession "young" 8]
    let after := (e.collect (.atTime 9) "x" default).engine.store
    e.store.reports.rows.map (·.name) = [none, none, some "old", some "young"] ∧
      after.reports.rows.map (fun r => (r.kind, r.endMs, r.name)) =
        [(.hourly, some 9, none), (.daily, none, none), (.session, none, some "young")] ∧
      after.values.rows.map (·.timeMs) = [4, 7] ∧ after.Retained settings (.atTime 9) := by
  intro settings e after
  have he : e.Reachable := ⟨settings, none, ⟨settings, none, .empty⟩, _, rfl, rfl⟩
  have hbefore : e.store.reports.rows.map (·.name) = [none, none, some "old", some "young"] := by
    decide +kernel
  have hafter : after.reports.rows.map (fun r => (r.kind, r.endMs, r.name)) =
      [(.hourly, some 9, none), (.daily, none, none), (.session, none, some "young")] := by
    decide +kernel
  have hvalues : after.values.rows.map (·.timeMs) = [4, 7] := by decide +kernel
  have hok : (e.collect (.atTime 9) "x" default).result.isOk = true := by decide +kernel
  have hsettings : e.settings = settings :=
    Engine.run_settings Store.empty_consistent (by simp [Call.settings?])
  refine ⟨hbefore, hafter, hvalues, ?_⟩
  -- nothing more is to be computed
  clear hbefore hafter hvalues
  rw [← hsettings]
  clear_value e
  obtain ⟨report, hresult⟩ := exists_of_isOk hok
  exact collect_retains he hresult

end Engine

end Telemetry
