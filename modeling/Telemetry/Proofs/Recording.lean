import Telemetry.Proofs.Frames

/-!
# Recording values

A report holds one series of timed values for each name, in the order in which they were recorded.
Recording a value adds it at the end of the series of its name and leaves every other series as it
was; a value that is no number adds nothing.
-/

namespace Telemetry

namespace Store

def metric? (s : Store) (reportId : Int) (name : String) : Option MetricRow :=
  s.metrics.rows.find? (·.isNamed reportId name)

/-- The values of a report's metric of a name, by id. -/
def seriesOf (s : Store) (reportId : Int) (name : String) : List TimedValue :=
  (s.metric? reportId name).elim [] fun m => s.timedOf m.id

variable {s s' : Store}

theorem of_metric? {reportId : Int} {name : String} {m : MetricRow}
    (h : s.metric? reportId name = some m) :
    m ∈ s.metrics.rows ∧ m.reportId = reportId ∧ m.spec.eventName = name := by
  have hnamed := List.find?_some h
  simp only [MetricRow.isNamed, Bool.and_eq_true, beq_iff_eq] at hnamed
  exact ⟨List.mem_of_find?_eq_some h, hnamed⟩

/-- A metric is found by its report and its name. -/
theorem Consistent.metric?_eq (hs : s.Consistent) {m : MetricRow} (hm : m ∈ s.metrics.rows) :
    s.metric? m.reportId m.spec.eventName = some m := by
  have hnamed : m.isNamed m.reportId m.spec.eventName = true := by simp [MetricRow.isNamed]
  have hsome := List.find?_isSome.2 ⟨m, hm, hnamed⟩
  obtain ⟨x, hx⟩ := Option.isSome_iff_exists.1 hsome
  rw [metric?, hx, hs.named_eq (List.mem_of_find?_eq_some hx) hm (List.find?_some hx) hnamed]

theorem Consistent.seriesOf_eq (hs : s.Consistent) {m : MetricRow} (hm : m ∈ s.metrics.rows) :
    s.seriesOf m.reportId m.spec.eventName = s.timedOf m.id := by
  rw [seriesOf, hs.metric?_eq hm]
  rfl

theorem metric?_of_seriesOf (s : Store) {id : Int} {name : String} (h : s.seriesOf id name ≠ []) :
    ∃ m, s.metric? id name = some m ∧ m ∈ s.metrics.rows ∧ m.reportId = id ∧
      s.seriesOf id name = s.timedOf m.id := by
  rw [seriesOf] at h ⊢
  cases hm : s.metric? id name with
  | none =>
    rw [hm] at h
    exact absurd rfl h
  | some m =>
    obtain ⟨hmem, hid, -⟩ := of_metric? hm
    exact ⟨m, rfl, hmem, hid, rfl⟩

theorem metric?_eq_head? (reportId : Int) (name : String) :
    s.metric? reportId name =
      ((s.metricRowsOf reportId).filter (·.spec.eventName == name)).head? := by
  rw [← filter_metrics, List.head?_filter]
  rfl

theorem SameReport.metric?_eq {id : Int} (h : SameReport id s s') (name : String) :
    s'.metric? id name = s.metric? id name := by
  rw [metric?_eq_head?, metric?_eq_head?, h.metrics]

theorem SameReport.seriesOf_eq {id : Int} (h : SameReport id s s') (name : String) :
    s'.seriesOf id name = s.seriesOf id name := by
  rw [seriesOf, seriesOf, h.metric?_eq]
  cases hm : s.metric? id name with
  | none => rfl
  | some m =>
    obtain ⟨hmem, hid, -⟩ := of_metric? hm
    rw [Option.elim_some, Option.elim_some, timedOf, h.values m (mem_metricRowsOf.2 ⟨hmem, hid⟩),
      timedOf]

/-! ### Putting a metric -/

theorem Consistent.valuesOf_nextId (hs : s.Consistent) : s.valuesOf s.metrics.nextId = [] := by
  refine List.filter_eq_nil_iff.2 fun v hv hid => ?_
  obtain ⟨m, hm, hmv⟩ := hs.valueOwned v hv
  have hlt := hs.metricsNumbered.lt_nextId hm
  rw [← beq_iff_eq.1 hid, ← hmv] at hlt
  exact lt_irrefl _ hlt

theorem putMetric_metric? (hs : s.Consistent) {reportId id : Int} {spec : MetricSpec}
    (h : s.putMetric reportId spec = .ok (id, s')) {reportId' : Int} {name : String}
    (hother : ¬(reportId' = reportId ∧ name = spec.eventName)) :
    s'.metric? reportId' name = s.metric? reportId' name := by
  have hnot : ∀ id, (⟨id, reportId, spec⟩ : MetricRow).isNamed reportId' name = false := by
    intro id
    rw [MetricRow.isNamed, Bool.and_eq_false_iff, beq_eq_false_iff_ne, beq_eq_false_iff_ne]
    by_contra hboth
    rw [not_or, not_not, not_not] at hboth
    exact hother ⟨hboth.1.symm, hboth.2.symm⟩
  unfold metric?
  rw [← List.head?_filter, ← List.head?_filter]
  congr 1
  rcases putMetric_eq_ok hs.undamaged h with ⟨-, -, rfl⟩ | ⟨m, hm, -, ⟨-, rfl⟩ | rfl⟩
  · exact Table.filter_append (hnot _)
  · rfl
  · obtain ⟨hmem, hreport, hname⟩ := of_metric? hm
    refine Table.filter_update fun x hx hid => ?_
    obtain rfl := hs.metric_eq hx hmem (beq_iff_eq.1 hid)
    refine ⟨?_, by simpa [hreport] using hnot x.id⟩
    simpa [MetricRow.isNamed, hreport, hname] using hnot x.id

/-- Putting a metric changes no series. -/
theorem putMetric_seriesOf (hs : s.Consistent) {reportId id : Int} {spec : MetricSpec}
    (howner : ∃ r ∈ s.reports.rows, r.id = reportId) (hname : spec.eventName ≠ "")
    (h : s.putMetric reportId spec = .ok (id, s')) (reportId' : Int) (name : String) :
    s'.seriesOf reportId' name = s.seriesOf reportId' name := by
  obtain ⟨hsteps, -, hvalues, hm⟩ :=
    Transaction.putMetric_steps .everything hs howner trivial hname h
  by_cases hself : reportId' = reportId ∧ name = spec.eventName
  · obtain ⟨rfl, rfl⟩ := hself
    rw [(hsteps.consistent hs).seriesOf_eq hm, seriesOf]
    rcases putMetric_eq_ok hs.undamaged h with ⟨hnone, rfl, rfl⟩ | ⟨m, hsome, rfl, -⟩
    · rw [metric?, hnone]
      change (s.valuesOf s.metrics.nextId).map _ = _
      rw [hs.valuesOf_nextId]
      rfl
    · rw [metric?, hsome, timedOf, valuesOf, hvalues]
      rfl
  · rw [seriesOf, seriesOf, putMetric_metric? hs h hself]
    unfold timedOf valuesOf
    rw [hvalues]

/-- The metrics of a report after one was put: that one, and others that were there. -/
theorem putMetric_names (hs : s.Undamaged) {reportId id : Int} {spec : MetricSpec}
    (h : s.putMetric reportId spec = .ok (id, s')) :
    ∀ m ∈ s'.metricRowsOf reportId,
      m.spec.eventName = spec.eventName ∨ m ∈ s.metricRowsOf reportId := by
  intro x hx
  obtain ⟨hx, hreport⟩ := mem_metricRowsOf.1 hx
  rcases putMetric_eq_ok hs h with ⟨-, -, rfl⟩ | ⟨m, hm, -, ⟨-, rfl⟩ | rfl⟩
  · rcases List.mem_append.1 hx with hx | hx
    · exact .inr (mem_metricRowsOf.2 ⟨hx, hreport⟩)
    · obtain rfl := List.mem_singleton.1 hx
      exact .inl rfl
  · exact .inr (mem_metricRowsOf.2 ⟨hx, hreport⟩)
  · obtain ⟨a, ha, rfl⟩ := List.mem_map.1 hx
    split
    · exact .inl rfl
    · next hsel =>
      rw [if_neg hsel] at hreport
      exact .inr (mem_metricRowsOf.2 ⟨ha, hreport⟩)

end Store

/-! ### Recording -/

namespace Transaction

variable {s s' : Store}

/-- What a recorded value adds to its series. -/
def recorded (t : Int) (value : SampleValue) : List TimedValue :=
  if value.isNaN then [] else [⟨t, value.kept⟩]

theorem insertValue_seriesOf (hs : s.Consistent) {m : MetricRow} (hm : m ∈ s.metrics.rows)
    {version : Nat} {t : Int} {value : SampleValue} {result : Option Int}
    (h : Yields (insertValue m.id version t value) s result s') :
    result.isSome = !value.isNaN ∧
      s'.seriesOf m.reportId m.spec.eventName =
        s.seriesOf m.reportId m.spec.eventName ++ recorded t value ∧
      ∀ reportId name, ¬(reportId = m.reportId ∧ name = m.spec.eventName) →
        s'.seriesOf reportId name = s.seriesOf reportId name := by
  obtain ⟨u, s₁, hused, h⟩ := yields_bind.1 h
  obtain ⟨kept, rfl⟩ := looks_useKept _ _ _ _ s u s₁ hused
  rcases Store.insertValue_eq_ok (yields_update.1 h) with
    ⟨hnan, rfl, rfl⟩ | ⟨hvalue, rfl, rfl⟩
  · refine ⟨by simp [hnan], ?_, fun _ _ _ => rfl⟩
    rw [recorded, if_pos hnan, List.append_nil]
    rfl
  · refine ⟨by simp [hvalue], ?_, fun reportId name hother => ?_⟩
    · -- the metric is found as before, with one value more
      have hfound := hs.metric?_eq hm
      rw [hs.seriesOf_eq hm]
      change ((s.metric? m.reportId m.spec.eventName).elim [] fun m => _) = _
      rw [hfound, recorded, if_neg (by simp [hvalue])]
      simp [Store.timedOf, Store.valuesOf, Table.append, ValueRow.timed]
    · change ((s.metric? reportId name).elim [] fun x => _) = _
      rw [Store.seriesOf]
      cases hx : s.metric? reportId name with
      | none => rfl
      | some x =>
        obtain ⟨hxm, rfl, rfl⟩ := Store.of_metric? hx
        have hne : m.id ≠ x.id := fun heq => by
          obtain rfl := hs.metric_eq hm hxm heq
          exact hother ⟨rfl, rfl⟩
        have hvalues : (s.values.append fun id => ⟨id, m.id, version, t, value.kept⟩).rows.filter
            (·.metricId == x.id) = s.valuesOf x.id :=
          Table.filter_append (beq_false_of_ne hne)
        rw [Option.elim_some, Option.elim_some, Store.timedOf, Store.timedOf, ← hvalues]
        rfl

/-- Recording adds to one series and changes no other. -/
theorem record_seriesOf (hs : s.Consistent) {reportId t : Int} {spec : MetricSpec} {version : Nat}
    {value : SampleValue} {result : Option Int} (howner : ∃ r ∈ s.reports.rows, r.id = reportId)
    (hname : spec.eventName ≠ "") (h : Yields (record reportId spec version t value) s result s') :
    result.isSome = !value.isNaN ∧
      s'.seriesOf reportId spec.eventName = s.seriesOf reportId spec.eventName ++ recorded t value ∧
      ∀ reportId' name, ¬(reportId' = reportId ∧ name = spec.eventName) →
        s'.seriesOf reportId' name = s.seriesOf reportId' name := by
  obtain ⟨id, s₁, hput, h⟩ := yields_bind.1 h
  have hput := yields_update.1 hput
  obtain ⟨hsteps, -, -, hm⟩ := putMetric_steps .everything hs howner trivial hname hput
  have hsame := Store.putMetric_seriesOf hs howner hname hput
  obtain ⟨hresult, hself, hother⟩ :=
    insertValue_seriesOf (m := ⟨id, reportId, spec⟩) (hsteps.consistent hs) hm h
  refine ⟨hresult, ?_, fun reportId' name hne => ?_⟩
  · rw [hself, hsame]
  · rw [hother reportId' name hne, hsame]

/-- The metrics of a report after recording: the one that was recorded, and others that were
there. -/
theorem record_names (hs : s.Consistent) {reportId t : Int} {spec : MetricSpec} {version : Nat}
    {value : SampleValue} {result : Option Int} (howner : ∃ r ∈ s.reports.rows, r.id = reportId)
    (hname : spec.eventName ≠ "") (h : Yields (record reportId spec version t value) s result s') :
    (∃ m ∈ s'.metricRowsOf reportId, m.spec = spec) ∧ ∀ m ∈ s'.metricRowsOf reportId,
      m.spec.eventName = spec.eventName ∨ m ∈ s.metricRowsOf reportId := by
  obtain ⟨id, s₁, hput, h⟩ := yields_bind.1 h
  have hput := yields_update.1 hput
  obtain ⟨-, -, -, hm⟩ := putMetric_steps .everything hs howner trivial hname hput
  have hmetrics : s'.metrics = s₁.metrics := by
    obtain ⟨u, s₂, hused, h⟩ := yields_bind.1 h
    obtain ⟨kept, rfl⟩ := looks_useKept _ _ _ _ s₁ u s₂ hused
    rcases Store.insertValue_eq_ok (yields_update.1 h) with ⟨-, -, rfl⟩ | ⟨-, -, rfl⟩
    · rfl
    · rfl
  have hrows : s'.metricRowsOf reportId = s₁.metricRowsOf reportId := by
    rw [Store.metricRowsOf, hmetrics, Store.metricRowsOf]
  rw [hrows]
  exact ⟨⟨_, Store.mem_metricRowsOf.2 ⟨hm, rfl⟩, rfl⟩, Store.putMetric_names hs.undamaged hput⟩

/-- Recording a value leaves no metric without one. -/
theorem record_filled (hs : s.Consistent) {reportId t : Int} {spec : MetricSpec} {version : Nat}
    {value : SampleValue} {result : Option Int} (howner : ∃ r ∈ s.reports.rows, r.id = reportId)
    (hname : spec.eventName ≠ "") (hvalue : value.isNaN = false) (hfilled : s.Filled reportId)
    (h : Yields (record reportId spec version t value) s result s') : s'.Filled reportId := by
  obtain ⟨hsteps, -⟩ := record_steps .everything hs howner trivial hname h
  obtain ⟨-, hself, hother⟩ := record_seriesOf hs howner hname h
  obtain ⟨-, hnames⟩ := record_names hs howner hname h
  intro m hm hempty
  have hseries : s'.seriesOf reportId m.spec.eventName = [] := by
    obtain ⟨hmem, rfl⟩ := Store.mem_metricRowsOf.1 hm
    rw [(hsteps.consistent hs).seriesOf_eq hmem, Store.timedOf, hempty, List.map_nil]
  by_cases hsame : m.spec.eventName = spec.eventName
  · rw [hsame, hself, recorded, if_neg (by simp [hvalue])] at hseries
    simp at hseries
  · -- another metric was there before, with its values
    have hbefore := (hnames m hm).resolve_left hsame
    rw [hother reportId _ fun hboth => hsame hboth.2] at hseries
    obtain ⟨hmem, rfl⟩ := Store.mem_metricRowsOf.1 hbefore
    rw [hs.seriesOf_eq hmem, Store.timedOf, List.map_eq_nil_iff] at hseries
    exact hfilled m hbefore hseries

end Transaction

end Telemetry
