import Mathlib.Logic.Relation
import Telemetry.Proofs.Consistency

/-!
# Steps of a store

Everything that the engine does to a store is a chain of small steps: a report is started or ended, a
metric is added or given other attributes, a value is added or an id used up, rows are removed.
`Store.Step` lists them, each with what holds where it is taken.  A step keeps a store consistent,
and it leaves alone every report outside its scope.
-/

namespace Telemetry

/-- Which reports a chain of steps may change, and which kinds of reports it may start. -/
structure Scope where
  touches : Int → Prop
  starts : ReportKind → Prop

/-- One change of a store. -/
inductive Store.Step (scope : Scope) (s : Store) : Store → Prop
  | keep (kept : List KeptQuery) : Step scope s { s with kept }
  | start {kind : ReportKind} {name : Option String} (t : Int) (version : Option String)
      (hscope : scope.starts kind) (hname : kind.Admits name)
      (hfree : ∀ r ∈ s.reports.rows, r.isOpenAs kind name = false) :
      Step scope s
        { s with reports := s.reports.append fun id => ⟨id, kind, name, t, none, version⟩ }
  | finish {selected : ReportRow → Bool} (t : Int)
      (h : ∀ r ∈ s.reports.rows, selected r = true →
        scope.touches r.id ∧ r.kind ≠ .daily ∧ r.endMs = none) :
      Step scope s
        { s with reports := s.reports.update selected fun r => { r with endMs := some t } }
  | newMetric {reportId : Int} {spec : MetricSpec} (hscope : scope.touches reportId)
      (howner : ∃ r ∈ s.reports.rows, r.id = reportId)
      (hfree : ∀ m ∈ s.metrics.rows, m.isNamed reportId spec.eventName = false)
      (hname : spec.eventName ≠ "") :
      Step scope s { s with metrics := s.metrics.append fun id => ⟨id, reportId, spec⟩ }
  | setMetric {m : MetricRow} {spec : MetricSpec} (hscope : scope.touches m.reportId)
      (hm : m ∈ s.metrics.rows) (hname : spec.eventName = m.spec.eventName) :
      Step scope s
        { s with metrics := s.metrics.update (fun x => x.id == m.id) fun _ => { m with spec } }
  | addValue {m : MetricRow} (version : Nat) (t : Int) {value : SampleValue}
      (hscope : scope.touches m.reportId) (hm : m ∈ s.metrics.rows)
      (hvalue : value.isNaN = false) :
      Step scope s
        { s with values := s.values.append fun id => ⟨id, m.id, version, t, value.kept⟩ }
  | skipValue : Step scope s { s with values := s.values.skip }
  | removeValues {selected : ValueRow → Bool}
      (h : ∀ v ∈ s.values.rows, selected v = true →
        ∃ m ∈ s.metrics.rows, m.id = v.metricId ∧ scope.touches m.reportId) :
      Step scope s { s with values := s.values.remove selected }
  | removeMetrics {selected : MetricRow → Bool}
      (h : ∀ m ∈ s.metrics.rows, selected m = true →
        scope.touches m.reportId ∧ ∀ v ∈ s.values.rows, v.metricId ≠ m.id) :
      Step scope s { s with metrics := s.metrics.remove selected }
  | removeReports {selected : ReportRow → Bool}
      (h : ∀ r ∈ s.reports.rows, selected r = true →
        scope.touches r.id ∧ ∀ m ∈ s.metrics.rows, m.reportId ≠ r.id) :
      Step scope s { s with reports := s.reports.remove selected }

/-- A chain of changes. -/
def Store.Steps (scope : Scope) : Store → Store → Prop := Relation.ReflTransGen (Store.Step scope)

namespace Store

variable {scope scope' : Scope} {s s' s'' : Store}

theorem Steps.refl : Steps scope s s := Relation.ReflTransGen.refl

theorem Steps.trans (h : Steps scope s s') (h' : Steps scope s' s'') : Steps scope s s'' :=
  Relation.ReflTransGen.trans h h'

theorem Step.steps (h : Step scope s s') : Steps scope s s' := Relation.ReflTransGen.single h

/-- A wider scope allows all that a narrower one does. -/
theorem Step.mono (h : Step scope s s') (htouches : ∀ id, scope.touches id → scope'.touches id)
    (hstarts : ∀ kind, scope.starts kind → scope'.starts kind) : Step scope' s s' := by
  cases h with
  | keep kept => exact .keep kept
  | start t version hscope hname hfree => exact .start t version (hstarts _ hscope) hname hfree
  | finish t h => exact .finish t fun r hr hsel => (h r hr hsel).imp_left (htouches _)
  | newMetric hscope howner hfree hname =>
    exact .newMetric (htouches _ hscope) howner hfree hname
  | setMetric hscope hm hname => exact .setMetric (htouches _ hscope) hm hname
  | addValue version t hscope hm hvalue =>
    exact .addValue version t (htouches _ hscope) hm hvalue
  | skipValue => exact .skipValue
  | removeValues h =>
    exact .removeValues fun v hv hsel => (h v hv hsel).imp fun m hm =>
      ⟨hm.1, hm.2.1, htouches _ hm.2.2⟩
  | removeMetrics h => exact .removeMetrics fun m hm hsel => (h m hm hsel).imp_left (htouches _)
  | removeReports h => exact .removeReports fun r hr hsel => (h r hr hsel).imp_left (htouches _)

theorem Steps.mono (h : Steps scope s s') (htouches : ∀ id, scope.touches id → scope'.touches id)
    (hstarts : ∀ kind, scope.starts kind → scope'.starts kind) : Steps scope' s s' := by
  induction h with
  | refl => exact .refl
  | tail _ hstep ih => exact ih.trans (hstep.mono htouches hstarts).steps

/-! ### Steps keep a store consistent -/

/-- What is kept of a value is as it is kept. -/
theorem isKept_kept {value : SampleValue} (h : value.isNaN = false) : value.kept.IsKept := by
  have hzero : (0.0 : Float).isNaN = false := by decide
  have hsame : ((0.0 : Float) == 0.0) = true := by decide
  match value with
  | .number x =>
    by_cases hx : (x == 0.0) = true
    · have hkept : (SampleValue.number x).kept = .number 0.0 :=
        congrArg SampleValue.number (if_pos hx)
      rw [hkept]
      exact ⟨hzero, congrArg SampleValue.number (if_pos hsame)⟩
    · have hkept : (SampleValue.number x).kept = .number x := congrArg SampleValue.number (if_neg hx)
      rw [hkept]
      exact ⟨h, hkept⟩
  | .bool _ => exact ⟨rfl, rfl⟩
  | .string _ => exact ⟨rfl, rfl⟩

/-- A metric of a new name does not take one that is there. -/
theorem oneNamed_append {t : Table MetricRow} {reportId : Int} {spec : MetricSpec}
    (h : ∀ reportId name, t.rows.countP (·.isNamed reportId name) ≤ 1)
    (hfree : ∀ m ∈ t.rows, m.isNamed reportId spec.eventName = false) (reportId' : Int)
    (name : String) :
    (t.append fun id => ⟨id, reportId, spec⟩).rows.countP (·.isNamed reportId' name) ≤ 1 := by
  simp only [Table.append, List.countP_append, List.countP_singleton]
  by_cases hnew : reportId = reportId' ∧ spec.eventName = name
  · obtain ⟨rfl, rfl⟩ := hnew
    have hnone : t.rows.countP (·.isNamed reportId spec.eventName) = 0 :=
      List.countP_eq_zero.2 fun m hm => by simp [hfree m hm]
    rw [hnone]
    split <;> omega
  · have hother : (reportId == reportId' && spec.eventName == name) = false := by
      simpa using hnew
    have hone := h reportId' name
    simpa [MetricRow.isNamed, hother] using hone

/-- A metric that keeps its name does not take another one. -/
theorem oneNamed_update {t : Table MetricRow} {m : MetricRow} {spec : MetricSpec}
    (h : ∀ reportId name, t.rows.countP (·.isNamed reportId name) ≤ 1)
    (hsame : ∀ x ∈ t.rows, (x.id == m.id) = true → x = m)
    (hname : spec.eventName = m.spec.eventName) (reportId : Int) (name : String) :
    (t.update (fun x => x.id == m.id) fun _ => { m with spec }).rows.countP
      (·.isNamed reportId name) ≤ 1 := by
  have hone := h reportId name
  simp only [Table.update, List.countP_map]
  rwa [List.countP_congr]
  intro x hx
  rw [Function.comp_apply]
  split
  · next hid =>
    rw [hsame x hx hid]
    simp [MetricRow.isNamed, hname]
  · rfl

namespace Consistent

theorem start (hs : s.Consistent) {kind : ReportKind} {name : Option String} (t : Int)
    (version : Option String) (hname : kind.Admits name)
    (hfree : ∀ r ∈ s.reports.rows, r.isOpenAs kind name = false) :
    Consistent
      { s with reports := s.reports.append fun id => ⟨id, kind, name, t, none, version⟩ } := by
  refine { hs with
    reportsNumbered := by dsimp only; exact hs.reportsNumbered.append fun _ => rfl
    oneOpen := ?_
    named := ?_
    dailyOpen := ?_
    metricOwned := ?_ }
  · intro kind' name'
    simp only [Table.append, List.countP_append, List.countP_singleton]
    by_cases hnew : kind = kind' ∧ name = name'
    · obtain ⟨rfl, rfl⟩ := hnew
      have hnone : s.reports.rows.countP (·.isOpenAs kind name) = 0 :=
        List.countP_eq_zero.2 fun r hr => by simp [hfree r hr]
      rw [hnone]
      split <;> omega
    · have hother : (kind == kind' && name == name') = false := by
        simpa using hnew
      have hone := hs.oneOpen kind' name'
      simpa [ReportRow.isOpenAs, hother] using hone
  · intro r hr
    rcases List.mem_append.1 hr with hr | hr
    · exact hs.named r hr
    · obtain rfl := List.mem_singleton.1 hr
      exact hname
  · intro r hr hdaily
    rcases List.mem_append.1 hr with hr | hr
    · exact hs.dailyOpen r hr hdaily
    · obtain rfl := List.mem_singleton.1 hr
      rfl
  · intro m hm
    obtain ⟨r, hr, hid⟩ := hs.metricOwned m hm
    exact ⟨r, List.mem_append_left _ hr, hid⟩

theorem finish (hs : s.Consistent) {selected : ReportRow → Bool} (t : Int)
    (h : ∀ r ∈ s.reports.rows, selected r = true → r.kind ≠ .daily) :
    Consistent
      { s with reports := s.reports.update selected fun r => { r with endMs := some t } } := by
  refine { hs with
    reportsNumbered := hs.reportsNumbered.update fun _ _ _ => rfl
    oneOpen := ?_
    named := ?_
    dailyOpen := ?_
    metricOwned := ?_ }
  · intro kind name
    refine le_trans ?_ (hs.oneOpen kind name)
    simp only [Table.update, List.countP_map]
    refine List.countP_mono_left fun r _ hopen => ?_
    rw [Function.comp_apply] at hopen
    split at hopen
    · simp [ReportRow.isOpenAs] at hopen
    · exact hopen
  · intro r hr
    obtain ⟨a, ha, rfl⟩ := List.mem_map.1 hr
    split
    · exact hs.named a ha
    · exact hs.named a ha
  · intro r hr hdaily
    obtain ⟨a, ha, rfl⟩ := List.mem_map.1 hr
    split at hdaily
    · next hsel => exact (h a ha hsel hdaily).elim
    · next hsel =>
      rw [if_neg hsel]
      exact hs.dailyOpen a ha hdaily
  · intro m hm
    obtain ⟨r, hr, hid⟩ := hs.metricOwned m hm
    refine ⟨_, List.mem_map.2 ⟨r, hr, rfl⟩, ?_⟩
    split
    · exact hid
    · exact hid

theorem newMetric (hs : s.Consistent) {reportId : Int} {spec : MetricSpec}
    (howner : ∃ r ∈ s.reports.rows, r.id = reportId)
    (hfree : ∀ m ∈ s.metrics.rows, m.isNamed reportId spec.eventName = false)
    (hname : spec.eventName ≠ "") :
    Consistent { s with metrics := s.metrics.append fun id => ⟨id, reportId, spec⟩ } := by
  refine { hs with
    metricsNumbered := by dsimp only; exact hs.metricsNumbered.append fun _ => rfl
    metricOwned := ?_
    metricNamed := ?_
    oneNamed := oneNamed_append hs.oneNamed hfree
    valueOwned := ?_ }
  · intro m hm
    rcases List.mem_append.1 hm with hm | hm
    · exact hs.metricOwned m hm
    · obtain rfl := List.mem_singleton.1 hm
      exact howner
  · intro m hm
    rcases List.mem_append.1 hm with hm | hm
    · exact hs.metricNamed m hm
    · obtain rfl := List.mem_singleton.1 hm
      exact hname
  · intro v hv
    obtain ⟨m, hm, hid⟩ := hs.valueOwned v hv
    exact ⟨m, List.mem_append_left _ hm, hid⟩

theorem setMetric (hs : s.Consistent) {m : MetricRow} {spec : MetricSpec}
    (hm : m ∈ s.metrics.rows) (hname : spec.eventName = m.spec.eventName) :
    Consistent
      { s with metrics := s.metrics.update (fun x => x.id == m.id) fun _ => { m with spec } } := by
  -- the row that is changed is `m` itself
  have hsame : ∀ x ∈ s.metrics.rows, (x.id == m.id) = true → x = m := by
    intro x hx hid
    exact hs.metric_eq hx hm (by simpa using hid)
  refine { hs with
    metricsNumbered := hs.metricsNumbered.update fun x hx hid => ?_
    metricOwned := ?_
    metricNamed := ?_
    oneNamed := oneNamed_update hs.oneNamed hsame hname
    valueOwned := ?_ }
  · rw [hsame x hx hid]
    rfl
  · intro x hx
    obtain ⟨a, ha, rfl⟩ := List.mem_map.1 hx
    split
    · exact hs.metricOwned m hm
    · exact hs.metricOwned a ha
  · intro x hx
    obtain ⟨a, ha, rfl⟩ := List.mem_map.1 hx
    split
    · simpa [hname] using hs.metricNamed m hm
    · exact hs.metricNamed a ha
  · intro v hv
    obtain ⟨x, hx, hid⟩ := hs.valueOwned v hv
    refine ⟨_, List.mem_map.2 ⟨x, hx, rfl⟩, ?_⟩
    split
    · next hxm =>
      rw [← hid, hsame x hx hxm]
    · exact hid

theorem addValue (hs : s.Consistent) {m : MetricRow} (version : Nat) (t : Int)
    {value : SampleValue} (hm : m ∈ s.metrics.rows) (hvalue : value.isNaN = false) :
    Consistent
      { s with values := s.values.append fun id => ⟨id, m.id, version, t, value.kept⟩ } := by
  refine { hs with
    valuesNumbered := by dsimp only; exact hs.valuesNumbered.append fun _ => rfl
    valueOwned := ?_
    valueKept := ?_ }
  · intro v hv
    rcases List.mem_append.1 hv with hv | hv
    · exact hs.valueOwned v hv
    · obtain rfl := List.mem_singleton.1 hv
      exact ⟨m, hm, rfl⟩
  · intro v hv
    rcases List.mem_append.1 hv with hv | hv
    · exact hs.valueKept v hv
    · obtain rfl := List.mem_singleton.1 hv
      exact isKept_kept hvalue

theorem removeValues (hs : s.Consistent) (selected : ValueRow → Bool) :
    Consistent { s with values := s.values.remove selected } :=
  { hs with
    valuesNumbered := hs.valuesNumbered.remove selected
    valueOwned := fun v hv => hs.valueOwned v (List.mem_filter.1 hv).1
    valueKept := fun v hv => hs.valueKept v (List.mem_filter.1 hv).1 }

theorem removeMetrics (hs : s.Consistent) {selected : MetricRow → Bool}
    (h : ∀ m ∈ s.metrics.rows, selected m = true → ∀ v ∈ s.values.rows, v.metricId ≠ m.id) :
    Consistent { s with metrics := s.metrics.remove selected } := by
  refine { hs with
    metricsNumbered := hs.metricsNumbered.remove selected
    metricOwned := fun m hm => hs.metricOwned m (List.mem_filter.1 hm).1
    metricNamed := fun m hm => hs.metricNamed m (List.mem_filter.1 hm).1
    oneNamed := fun reportId name =>
      le_trans (List.filter_sublist.countP_le) (hs.oneNamed reportId name)
    valueOwned := ?_ }
  intro v hv
  obtain ⟨m, hm, hid⟩ := hs.valueOwned v hv
  refine ⟨m, List.mem_filter.2 ⟨hm, ?_⟩, hid⟩
  cases hsel : selected m with
  | false => rfl
  | true => exact (h m hm hsel v hv hid.symm).elim

theorem removeReports (hs : s.Consistent) {selected : ReportRow → Bool}
    (h : ∀ r ∈ s.reports.rows, selected r = true → ∀ m ∈ s.metrics.rows, m.reportId ≠ r.id) :
    Consistent { s with reports := s.reports.remove selected } := by
  refine { hs with
    reportsNumbered := hs.reportsNumbered.remove selected
    oneOpen := fun kind name =>
      le_trans (List.filter_sublist.countP_le) (hs.oneOpen kind name)
    named := fun r hr => hs.named r (List.mem_filter.1 hr).1
    dailyOpen := fun r hr => hs.dailyOpen r (List.mem_filter.1 hr).1
    metricOwned := ?_ }
  intro m hm
  obtain ⟨r, hr, hid⟩ := hs.metricOwned m hm
  refine ⟨r, List.mem_filter.2 ⟨hr, ?_⟩, hid⟩
  cases hsel : selected r with
  | false => rfl
  | true => exact (h r hr hsel m hm hid.symm).elim

end Consistent

theorem Step.consistent (h : Step scope s s') (hs : s.Consistent) : s'.Consistent := by
  cases h with
  | keep kept => exact hs.of_eq rfl rfl rfl rfl
  | start t version _ hname hfree => exact hs.start t version hname hfree
  | finish t h => exact hs.finish t fun r hr hsel => (h r hr hsel).2.1
  | newMetric _ howner hfree hname => exact hs.newMetric howner hfree hname
  | setMetric _ hm hname => exact hs.setMetric hm hname
  | addValue version t _ hm hvalue => exact hs.addValue version t hm hvalue
  | skipValue => exact { hs with valuesNumbered := hs.valuesNumbered.skip }
  | removeValues _ => exact hs.removeValues _
  | removeMetrics h => exact hs.removeMetrics fun m hm hsel => (h m hm hsel).2
  | removeReports h => exact hs.removeReports fun r hr hsel => (h r hr hsel).2

theorem Steps.consistent (h : Steps scope s s') (hs : s.Consistent) : s'.Consistent := by
  induction h with
  | refl => exact hs
  | tail _ hstep ih => exact hstep.consistent ih

/-! ### Steps do not change what may be written -/

theorem Step.readOnly_eq (h : Step scope s s') : s'.readOnly = s.readOnly := by
  cases h <;> rfl

theorem Steps.readOnly_eq (h : Steps scope s s') : s'.readOnly = s.readOnly := by
  induction h with
  | refl => rfl
  | tail _ hstep ih => exact hstep.readOnly_eq.trans ih

end Store

end Telemetry
