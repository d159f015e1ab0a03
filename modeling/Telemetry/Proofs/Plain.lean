import Telemetry.Engine.Collect

/-!
# Undamaged stores

A store to which nothing was done from outside is what its rows say.  No cell is odd, no table is
gone and no action is refused, so every look at it is a look at its rows and every change fails only
where the store is only read or has no id left.
-/

namespace Telemetry

/-- Nothing was done to the store from outside. -/
def Store.Undamaged (s : Store) : Prop := s.damage = Damage.none

/-- A step that succeeds is what follows it. -/
theorem bind_eq_ok {ε α β : Type} {x : Except ε α} {f : α → Except ε β} {b : β} :
    x >>= f = .ok b ↔ ∃ a, x = .ok a ∧ f a = .ok b := by
  rcases x with e | a
  · change Except.error e = Except.ok b ↔ _
    simp
  · change f a = Except.ok b ↔ _
    simp

namespace Store

variable {s s' : Store}

/-! ### Looking at rows -/

theorem need_eq_ok (h : s.Undamaged) (tables : List TableName) (step : StorageStep) :
    s.need tables step = .ok () := by
  rw [Undamaged] at h
  simp [need, h, Damage.none]

theorem testReport_eq (h : s.Undamaged) (plain : ReportRow → Bool) (odd : ReportCells → Bool) :
    s.testReport plain odd = plain := by
  rw [Undamaged] at h
  funext r
  simp [testReport, test, oddCells?, h, Damage.none]

theorem testMetric_eq (h : s.Undamaged) (plain : MetricRow → Bool) (odd : MetricCells → Bool) :
    s.testMetric plain odd = plain := by
  rw [Undamaged] at h
  funext m
  simp [testMetric, test, oddCells?, h, Damage.none]

theorem testValue_eq (h : s.Undamaged) (plain : ValueRow → Bool) (odd : ValueCells → Bool) :
    s.testValue plain odd = plain := by
  rw [Undamaged] at h
  funext v
  simp [testValue, test, oddCells?, h, Damage.none]

theorem readReport_eq (h : s.Undamaged) (step : StorageStep) :
    s.readReport step = Except.ok := by
  rw [Undamaged] at h
  funext r
  simp [readReport, oddCells?, h, Damage.none]

theorem readMetric_eq (h : s.Undamaged) (step : StorageStep) :
    s.readMetric step = Except.ok := by
  rw [Undamaged] at h
  funext m
  simp [readMetric, oddCells?, h, Damage.none]

theorem readValue_eq (h : s.Undamaged) (step : StorageStep) (v : ValueRow) :
    s.readValue step v = .ok (some v) := by
  rw [Undamaged] at h
  simp [readValue, oddCells?, h, Damage.none]

theorem mapM_ok {ε α : Type} (xs : List α) :
    xs.mapM (Except.ok : α → Except ε α) = .ok xs := by
  induction xs with
  | nil => rfl
  | cons x xs ih =>
    rw [List.mapM_cons, ih]
    rfl

/-! ### Reports -/

theorem openReport?_eq (h : s.Undamaged) (kind : ReportKind) (name : Option String) :
    s.openReport? kind name = .ok (s.reports.rows.find? (·.isOpenAs kind name)) := by
  unfold openReport?
  rw [testReport_eq h, readReport_eq h]
  refine bind_eq_ok.2 ⟨(), need_eq_ok h _ _, ?_⟩
  cases s.reports.rows.find? (·.isOpenAs kind name) <;> rfl

theorem endedReports_eq (h : s.Undamaged) (kind : ReportKind) :
    s.endedReports kind =
      .ok ((s.reports.rows.filter (·.isEnded kind)).mergeSort ReportRow.precedes) := by
  unfold endedReports
  rw [need_eq_ok h, testReport_eq h, readReport_eq h, mapM_ok]
  rfl

theorem sessionsAt_eq (h : s.Undamaged) (t : Int) :
    s.sessionsAt t = (s.reports.rows.filter (·.isSessionAt t)).map (·.id) := by
  unfold sessionsAt
  rw [testReport_eq h]

theorem startReport_eq_ok {kind : ReportKind} {name : Option String} {t id : Int}
    {version : Option String} (h : s.startReport kind name t version = .ok (id, s')) :
    id = s.reports.nextId ∧
      s' = { s with
        reports := s.reports.append fun id => ⟨id, kind, name, t, none, version⟩ } := by
  unfold startReport at h
  simp only [bind_eq_ok] at h
  obtain ⟨-, -, -, -, h⟩ := h
  cases h
  exact ⟨rfl, rfl⟩

/-- What `openOrStart` can do: find the open report, or start one where none is open. -/
theorem openOrStart_eq_ok (hs : s.Undamaged) {kind : ReportKind} {name : Option String} {t id : Int}
    {version : Option String} (h : s.openOrStart kind name t version = .ok (id, s')) :
    (∃ r, s.reports.rows.find? (·.isOpenAs kind name) = some r ∧ id = r.id ∧ s' = s) ∨
    (s.reports.rows.find? (·.isOpenAs kind name) = none ∧ id = s.reports.nextId ∧
      s' = { s with
        reports := s.reports.append fun id => ⟨id, kind, name, t, none, version⟩ }) := by
  unfold openOrStart at h
  rw [openReport?_eq hs, bind_eq_ok] at h
  obtain ⟨r?, hr, h⟩ := h
  cases hr
  cases hfind : s.reports.rows.find? (·.isOpenAs kind name) with
  | some r =>
    rw [hfind] at h
    cases h
    exact .inl ⟨r, rfl, rfl, rfl⟩
  | none =>
    rw [hfind] at h
    exact .inr ⟨rfl, startReport_eq_ok h⟩

theorem endSelected_eq_ok (hs : s.Undamaged) {selected : ReportRow → Bool} {t : Int}
    {step : StorageStep} (h : s.endSelected selected t step = .ok s') :
    s' = { s with reports := s.reports.update selected fun r => { r with endMs := some t } } := by
  unfold endSelected at h
  rw [need_eq_ok hs] at h
  simp only [bind_eq_ok] at h
  obtain ⟨-, -, -, -, h⟩ := h
  cases h
  rw [Undamaged] at hs
  simp [hs, Damage.none]

theorem endOpen_eq_ok (hs : s.Undamaged) {kind : ReportKind} {name : Option String} {t : Int}
    (h : s.endOpen kind name t = .ok s') :
    (s.reports.rows.find? (·.isOpenAs kind name) = none ∧ s' = s) ∨
    (∃ r, s.reports.rows.find? (·.isOpenAs kind name) = some r ∧
      s' = { s with reports :=
        s.reports.update (fun x => x.id == r.id) fun x => { x with endMs := some t } }) := by
  unfold endOpen at h
  rw [openReport?_eq hs, bind_eq_ok] at h
  obtain ⟨r?, hr, h⟩ := h
  cases hr
  cases hfind : s.reports.rows.find? (·.isOpenAs kind name) with
  | none =>
    rw [hfind] at h
    cases h
    exact .inl ⟨rfl, rfl⟩
  | some r =>
    rw [hfind] at h
    exact .inr ⟨r, rfl, endSelected_eq_ok hs h⟩

/-! ### Metrics -/

theorem belongsTo_eq (h : s.Undamaged) (reportId : Int) :
    s.belongsTo reportId = fun m => m.reportId == reportId := testMetric_eq h _ _

theorem isValueOf_eq (h : s.Undamaged) (metricIds : List Int) :
    s.isValueOf metricIds = fun v => metricIds.contains v.metricId := testValue_eq h _ _

theorem metricIdsOf_eq (h : s.Undamaged) (reportId : Int) :
    s.metricIdsOf reportId = (s.metrics.rows.filter (·.reportId == reportId)).map (·.id) := by
  unfold metricIdsOf
  rw [belongsTo_eq h]

theorem findMetric?_eq (h : s.Undamaged) (reportId : Int) (name : String) :
    s.findMetric? reportId name = .ok (s.metrics.rows.find? (·.isNamed reportId name)) := by
  unfold findMetric?
  rw [testMetric_eq h, readMetric_eq h]
  refine bind_eq_ok.2 ⟨(), need_eq_ok h _ _, ?_⟩
  simp only
  cases s.metrics.rows.find? (·.isNamed reportId name) <;> rfl

theorem metricsOf_eq (h : s.Undamaged) (reportId : Int) :
    s.metricsOf reportId = .ok (s.metrics.rows.filter (·.reportId == reportId)) := by
  unfold metricsOf
  rw [readMetric_eq h, mapM_ok, belongsTo_eq h]

theorem carriedMetricsOf_eq (h : s.Undamaged) (reportId : Int) :
    s.carriedMetricsOf reportId =
      .ok (s.metrics.rows.filter fun m => m.reportId == reportId && m.spec.carryOver) := by
  unfold carriedMetricsOf
  rw [readMetric_eq h, mapM_ok, belongsTo_eq h, testMetric_eq h]

/-- What `putMetric` can do: change the metric of that name in place, or add one. -/
theorem putMetric_eq_ok (hs : s.Undamaged) {reportId id : Int} {spec : MetricSpec}
    (h : s.putMetric reportId spec = .ok (id, s')) :
    (s.metrics.rows.find? (·.isNamed reportId spec.eventName) = none ∧ id = s.metrics.nextId ∧
      s' = { s with metrics := s.metrics.append fun id => ⟨id, reportId, spec⟩ }) ∨
    (∃ m, s.metrics.rows.find? (·.isNamed reportId spec.eventName) = some m ∧ id = m.id ∧
      (m.spec = spec ∧ s' = s ∨
        s' = { s with metrics := s.metrics.update (·.id == m.id) fun _ => { m with spec } })) := by
  unfold putMetric at h
  rw [findMetric?_eq hs, bind_eq_ok] at h
  obtain ⟨m?, hm, h⟩ := h
  cases hm
  cases hfind : s.metrics.rows.find? (·.isNamed reportId spec.eventName) with
  | none =>
    rw [hfind] at h
    simp only [bind_eq_ok] at h
    obtain ⟨-, -, -, -, h⟩ := h
    cases h
    exact .inl ⟨rfl, rfl, rfl⟩
  | some m =>
    rw [hfind] at h
    refine .inr ⟨m, rfl, ?_⟩
    simp only at h
    split at h
    · next hsame =>
      cases h
      exact ⟨rfl, .inl ⟨hsame, rfl⟩⟩
    · simp only [bind_eq_ok] at h
      obtain ⟨-, -, h⟩ := h
      cases h
      rw [Undamaged] at hs
      exact ⟨rfl, .inr (by simp [hs, Damage.none])⟩

/-! ### Values -/

/-- What `insertValue` can do: use up an id, or add a value. -/
theorem insertValue_eq_ok {metricId t : Int} {version : Nat} {value : SampleValue}
    {result : Option Int} (h : s.insertValue metricId version t value = .ok (result, s')) :
    (value.isNaN = true ∧ result = none ∧ s' = { s with values := s.values.skip }) ∨
    (value.isNaN = false ∧ result = some s.values.nextId ∧
      s' = { s with
        values := s.values.append fun id => ⟨id, metricId, version, t, value.kept⟩ }) := by
  unfold insertValue at h
  simp only [bind_eq_ok] at h
  obtain ⟨-, -, -, -, -, -, h⟩ := h
  split at h
  · next hnan =>
    cases h
    exact .inl ⟨hnan, rfl, rfl⟩
  · next hnan =>
    cases h
    exact .inr ⟨by simpa using hnan, rfl, rfl⟩

/-! ### Removing rows -/

theorem removeValues_eq_ok {selected : ValueRow → Bool} {step : StorageStep}
    (h : s.removeValues selected step = .ok s') :
    s' = { s with values := s.values.remove selected } := by
  unfold removeValues at h
  simp only [bind_eq_ok] at h
  obtain ⟨-, -, -, -, h⟩ := h
  cases h
  rfl

theorem removeMetrics_eq_ok {selected : MetricRow → Bool} {step : StorageStep}
    (h : s.removeMetrics selected step = .ok s') :
    s' = { s with metrics := s.metrics.remove selected } := by
  unfold removeMetrics at h
  simp only [bind_eq_ok] at h
  obtain ⟨-, -, h⟩ := h
  cases h
  rfl

theorem removeReports_eq_ok {selected : ReportRow → Bool} {step : StorageStep}
    (h : s.removeReports selected step = .ok s') :
    s' = { s with reports := s.reports.remove selected } := by
  unfold removeReports at h
  simp only [bind_eq_ok] at h
  obtain ⟨-, -, h⟩ := h
  cases h
  rfl

theorem deleteReport_eq_ok (hs : s.Undamaged) {id : Int} (h : s.deleteReport id = .ok s') :
    s' = { s with
      values := s.values.remove fun v =>
        ((s.metrics.rows.filter (·.reportId == id)).map (·.id)).contains v.metricId
      metrics := s.metrics.remove (·.reportId == id)
      reports := s.reports.remove (·.id == id) } := by
  unfold deleteReport at h
  simp only [bind_eq_ok] at h
  obtain ⟨s₁, h₁, -, -, s₂, h₂, -, -, h₃⟩ := h
  obtain rfl := removeValues_eq_ok h₁
  obtain rfl := removeMetrics_eq_ok h₂
  obtain rfl := removeReports_eq_ok h₃
  rw [isValueOf_eq hs, metricIdsOf_eq hs, belongsTo_eq (by exact hs)]

theorem deleteOrphanReports_eq_ok (hs : s.Undamaged) {cutoff : Int}
    (h : s.deleteOrphanReports cutoff = .ok s') :
    s' = { s with reports := s.reports.remove fun r =>
      !s.metrics.rows.any (·.reportId == r.id) && r.startsBefore cutoff } := by
  unfold deleteOrphanReports at h
  simp only [bind_eq_ok] at h
  obtain ⟨-, -, h⟩ := h
  obtain rfl := removeReports_eq_ok h
  rw [testReport_eq hs]
  simp only [belongsTo_eq hs]

theorem deleteOrphanMetrics_eq_ok (hs : s.Undamaged) (h : s.deleteOrphanMetrics = .ok s') :
    s' = { s with metrics := s.metrics.remove fun m =>
      !s.values.rows.any (·.metricId == m.id) } := by
  unfold deleteOrphanMetrics at h
  simp only [bind_eq_ok] at h
  obtain ⟨-, -, h⟩ := h
  obtain rfl := removeMetrics_eq_ok h
  simp only [isValueOf_eq hs, List.contains_cons, List.contains_nil, Bool.or_false]

theorem deleteValuesBefore_eq_ok (hs : s.Undamaged) {reportId cutoff : Int}
    (h : s.deleteValuesBefore reportId cutoff = .ok s') :
    s' = { s with values := s.values.remove fun v => decide (v.timeMs < cutoff)
      && ((s.metrics.rows.filter (·.reportId == reportId)).map (·.id)).contains v.metricId } := by
  unfold deleteValuesBefore at h
  obtain rfl := removeValues_eq_ok h
  rw [testValue_eq hs, isValueOf_eq hs, metricIdsOf_eq hs]

end Store

end Telemetry
