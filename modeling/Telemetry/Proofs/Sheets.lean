import Telemetry.Proofs.Recording
import Telemetry.Proofs.Removal
import Telemetry.Proofs.Settling
import Telemetry.Proofs.Summaries

/-!
# Sheets

A sheet is a report as it can be seen from outside: its kind, name and times, and its metrics with
their values by time.  It has no ids.  Everything that is reported of a store is a function of its
sheets, since the hourly accumulators follow one another: all that one holds was there before
anything of the next.
-/

namespace Telemetry

/-- What is known of a metric, and its values by time. -/
structure Track where
  spec : MetricSpec
  values : List TimedValue

def Track.isNamed (name : String) (t : Track) : Bool := t.spec.eventName == name

theorem Track.isNamed_mk (name : String) (spec : MetricSpec) (values : List TimedValue) :
    isNamed name ⟨spec, values⟩ = (spec.eventName == name) := rfl

/-- A report without its id. -/
def ReportRow.unnumbered (r : ReportRow) : ReportRow := { r with id := 0 }

/-- A report with its metrics, but for all ids. -/
structure Sheet where
  header : ReportRow
  tracks : List Track

/-! ### Changes of sheets -/

/-- Adds values to the metric of a name, which is there then with these attributes. -/
def Track.put (spec : MetricSpec) (added : List TimedValue) (tracks : List Track) : List Track :=
  if tracks.any (Track.isNamed spec.eventName) then
    tracks.map fun t =>
      if t.isNamed spec.eventName then ⟨spec, TimedValue.byTime (t.values ++ added)⟩ else t
  else tracks ++ [⟨spec, TimedValue.byTime added⟩]

namespace Sheet

def record (spec : MetricSpec) (t : Int) (value : SampleValue) (x : Sheet) : Sheet :=
  { x with tracks := Track.put spec (Transaction.recorded t value) x.tracks }

def track? (x : Sheet) (name : String) : Option Track := x.tracks.find? (Track.isNamed name)

/-- Records a value in all sheets of some kind. -/
def recordWhere (p : ReportRow → Bool) (spec : MetricSpec) (t : Int) (value : SampleValue)
    (xs : List Sheet) : List Sheet :=
  xs.map fun x => if p x.header then x.record spec t value else x

/-- Ends all sheets of some kind. -/
def endWhere (p : ReportRow → Bool) (t : Int) (xs : List Sheet) : List Sheet :=
  xs.map fun x => if p x.header then { x with header := { x.header with endMs := some t } } else x

/-- Starts a report, unless one of its kind and name is open. -/
def startIn (kind : ReportKind) (name : Option String) (t : Int) (version : Option String)
    (xs : List Sheet) : List Sheet :=
  if xs.any (·.header.isOpenAs kind name) then xs
  else xs ++ [⟨⟨0, kind, name, t, none, version⟩, []⟩]

end Sheet

/-! ### The sheets of a store -/

namespace Store

def trackOf (s : Store) (m : MetricRow) : Track :=
  ⟨m.spec, TimedValue.byTime (s.timedOf m.id)⟩

def tracksOf (s : Store) (id : Int) : List Track := (s.metricRowsOf id).map s.trackOf

def sheetOf (s : Store) (r : ReportRow) : Sheet := ⟨r.unnumbered, s.tracksOf r.id⟩

def sheets (s : Store) : List Sheet := s.reports.rows.map s.sheetOf

/-- Of two hourly accumulators the earlier one has ended, and what it holds was there first. -/
structure Sequential (s : Store) : Prop where
  leads : ∀ a ∈ s.reports.rows, ∀ b ∈ s.reports.rows, a.kind = .hourly → b.kind = .hourly →
    a.id < b.id → ∀ m ∈ s.metrics.rows, m.reportId = a.id →
      ∀ n ∈ s.metrics.rows, n.reportId = b.id → s.Leads m n
  openLast : ∀ a ∈ s.reports.rows, ∀ b ∈ s.reports.rows, a.kind = .hourly → b.kind = .hourly →
    b.endMs = none → a.id ≤ b.id

/-- The store can be relied on and be written, and these are its sheets. -/
structure Shows (s : Store) (xs : List Sheet) : Prop where
  consistent : s.Consistent
  writable : s.readOnly = false
  sequential : s.Sequential
  sheets : s.sheets = xs

variable {s s' : Store} {xs : List Sheet}

theorem empty_sequential : Store.empty.Sequential where
  leads := by simp [Store.empty, Table.empty]
  openLast := by simp [Store.empty, Table.empty]

theorem empty_shows : Store.empty.Shows [] := ⟨empty_consistent, rfl, empty_sequential, rfl⟩

theorem SameReport.tracksOf_eq {id : Int} (h : SameReport id s s') :
    s'.tracksOf id = s.tracksOf id := by
  rw [tracksOf, h.metrics, tracksOf]
  refine List.map_congr_left fun m hm => ?_
  rw [trackOf, timedOf, h.values m hm, trackOf, timedOf]

theorem SameReport.sheetOf_eq {r : ReportRow} (h : SameReport r.id s s') :
    s'.sheetOf r = s.sheetOf r := by
  rw [sheetOf, h.tracksOf_eq, sheetOf]

/-- The metrics of a report as they are found by name. -/
theorem Consistent.tracksOf_eq (hs : s.Consistent) (id : Int) :
    s.tracksOf id = ((s.metricRowsOf id).map (·.spec)).map fun spec =>
      ⟨spec, TimedValue.byTime (s.seriesOf id spec.eventName)⟩ := by
  rw [tracksOf, List.map_map]
  refine List.map_congr_left fun m hm => ?_
  obtain ⟨hmem, rfl⟩ := mem_metricRowsOf.1 hm
  rw [trackOf, Function.comp_apply, hs.seriesOf_eq hmem]

/-- A property of sheets that only looks at their headers is one of the reports. -/
theorem filter_sheets (s : Store) {p : ReportRow → Bool} (hp : ∀ r, p r.unnumbered = p r) :
    s.sheets.filter (fun x => p x.header) = (s.reports.rows.filter p).map s.sheetOf := by
  rw [sheets, List.filter_map]
  congr 1
  exact List.filter_congr fun r _ => hp r

theorem find?_sheets (s : Store) {p : ReportRow → Bool} (hp : ∀ r, p r.unnumbered = p r) :
    s.sheets.find? (fun x => p x.header) = (s.reports.rows.find? p).map s.sheetOf := by
  rw [← List.head?_filter, ← List.head?_filter, filter_sheets s hp, List.head?_map]

/-! ### Rows that were there -/

/-- Nothing has to be shown of rows that were there, however they have changed otherwise. -/
theorem Sequential.of_rows (hq : s.Sequential)
    (hreports : ∀ r ∈ s'.reports.rows, ∃ x ∈ s.reports.rows, x.id = r.id ∧ x.kind = r.kind ∧
      (r.endMs = none → x.endMs = none))
    (hmetrics : ∀ m ∈ s'.metrics.rows, ∃ x ∈ s.metrics.rows, x.id = m.id ∧ x.reportId = m.reportId)
    (hvalues : ∀ v ∈ s'.values.rows, v ∈ s.values.rows) : s'.Sequential := by
  constructor
  · intro a ha b hb hak hbk hlt m hm hma n hn hnb
    obtain ⟨a', ha', haid, hakind, -⟩ := hreports a ha
    obtain ⟨b', hb', hbid, hbkind, -⟩ := hreports b hb
    obtain ⟨x, hx, hxid, hxr⟩ := hmetrics m hm
    obtain ⟨y, hy, hyid, hyr⟩ := hmetrics n hn
    have hleads := hq.leads a' ha' b' hb' (hakind.trans hak) (hbkind.trans hbk) (by omega) x hx
      (by omega) y hy (by omega)
    constructor
    · rw [← hxid, ← hyid]
      exact hleads.metric
    · intro v hv w hw
      obtain ⟨hv, hvid⟩ := mem_valuesOf.1 hv
      obtain ⟨hw, hwid⟩ := mem_valuesOf.1 hw
      exact hleads.values v (mem_valuesOf.2 ⟨hvalues v hv, hvid.trans hxid.symm⟩)
        w (mem_valuesOf.2 ⟨hvalues w hw, hwid.trans hyid.symm⟩)
  · intro a ha b hb hak hbk hopen
    obtain ⟨a', ha', haid, hakind, -⟩ := hreports a ha
    obtain ⟨b', hb', hbid, hbkind, hbopen⟩ := hreports b hb
    have hle := hq.openLast a' ha' b' hb' (hakind.trans hak) (hbkind.trans hbk) (hbopen hopen)
    omega

theorem SeenAs.sequential (h : s.SeenAs s') (hq : s.Sequential) : s'.Sequential := by
  obtain ⟨kept, rfl⟩ := h
  exact hq.of_rows (fun r hr => ⟨r, hr, rfl, rfl, id⟩) (fun m hm => ⟨m, hm, rfl, rfl⟩)
    fun v hv => hv

theorem Shows.seenAs (h : s.Shows xs) (hseen : s.SeenAs s') : s'.Shows xs := by
  have hs' := hseen.consistent h.consistent
  have hq' := hseen.sequential h.sequential
  obtain ⟨kept, rfl⟩ := hseen
  exact ⟨hs', h.writable, hq', h.sheets⟩

/-! ### Starting reports -/

theorem Consistent.tracksOf_nextId (hs : s.Consistent) : s.tracksOf s.reports.nextId = [] := by
  have hnone : s.metricRowsOf s.reports.nextId = [] := by
    refine List.filter_eq_nil_iff.2 fun m hm hid => ?_
    obtain ⟨r, hr, hrm⟩ := hs.metricOwned m hm
    have hlt := hs.reportsNumbered.lt_nextId hr
    rw [← beq_iff_eq.1 hid, ← hrm] at hlt
    exact lt_irrefl _ hlt
  rw [tracksOf, hnone, List.map_nil]

theorem Sequential.start (hq : s.Sequential) (hs : s.Consistent) {kind : ReportKind}
    {name : Option String} (hname : kind.Admits name)
    (hfree : ∀ r ∈ s.reports.rows, r.isOpenAs kind name = false) (t : Int)
    (version : Option String) :
    Sequential
      { s with reports := s.reports.append fun id => ⟨id, kind, name, t, none, version⟩ } := by
  have hnext : ∀ r ∈ s.reports.rows, r.id < s.reports.nextId :=
    fun r hr => hs.reportsNumbered.lt_nextId hr
  have hnone : ∀ m ∈ s.metrics.rows, m.reportId ≠ s.reports.nextId := by
    intro m hm hid
    obtain ⟨r, hr, hrm⟩ := hs.metricOwned m hm
    exact ne_of_lt (hnext r hr) (hrm.trans hid)
  constructor
  · intro a ha b hb hak hbk hlt m hm hma n hn hnb
    rcases List.mem_append.1 ha with ha | ha
    · rcases List.mem_append.1 hb with hb | hb
      · have hleads := hq.leads a ha b hb hak hbk hlt m hm hma n hn hnb
        exact ⟨hleads.metric, hleads.values⟩
      · obtain rfl := List.mem_singleton.1 hb
        exact absurd hnb (hnone n hn)
    · obtain rfl := List.mem_singleton.1 ha
      exact absurd hma (hnone m hm)
  · -- no second hourly accumulator is started
    have hother : kind = .hourly → ∀ b ∈ s.reports.rows, b.kind = .hourly → b.endMs ≠ none := by
      rintro rfl b hb hbk hopen
      have hbname : b.name = none := hs.unnamed hb (by simp [hbk])
      obtain rfl : name = none := hname
      have hbfree := hfree b hb
      simp [ReportRow.isOpenAs, hbk, hbname, hopen] at hbfree
    intro a ha b hb hak hbk hopen
    rcases List.mem_append.1 hb with hb | hb
    · rcases List.mem_append.1 ha with ha | ha
      · exact hq.openLast a ha b hb hak hbk hopen
      · obtain rfl := List.mem_singleton.1 ha
        exact absurd hopen (hother hak b hb hbk)
    · obtain rfl := List.mem_singleton.1 hb
      rcases List.mem_append.1 ha with ha | ha
      · exact (hnext a ha).le
      · obtain rfl := List.mem_singleton.1 ha
        exact le_rfl

theorem Shows.start (h : s.Shows xs) {kind : ReportKind} {name : Option String}
    (hname : kind.Admits name) (hfree : ∀ r ∈ s.reports.rows, r.isOpenAs kind name = false) (t : Int)
    (version : Option String) :
    Shows { s with reports := s.reports.append fun id => ⟨id, kind, name, t, none, version⟩ }
      (xs ++ [⟨⟨0, kind, name, t, none, version⟩, []⟩]) := by
  refine ⟨h.consistent.start t version hname hfree, h.writable,
    h.sequential.start h.consistent hname hfree t version, ?_⟩
  have hnew := h.consistent.tracksOf_nextId
  refine List.map_append.trans ?_
  rw [← h.sheets]
  exact congrArg (fun tracks => s.sheets ++ [(⟨⟨0, kind, name, t, none, version⟩, tracks⟩ : Sheet)]) hnew

/-! ### Ending and removing reports -/

theorem Shows.endWhere (h : s.Shows xs) {selected p : ReportRow → Bool} (t : Int)
    (hselected : ∀ r ∈ s.reports.rows, selected r = p r) (hp : ∀ r, p r.unnumbered = p r)
    (hs' : Consistent
      { s with reports := s.reports.update selected fun r => { r with endMs := some t } }) :
    Shows { s with reports := s.reports.update selected fun r => { r with endMs := some t } }
      (Sheet.endWhere p t xs) := by
  refine ⟨hs', h.writable, h.sequential.of_rows (fun r hr => ?_)
    (fun m hm => ⟨m, hm, rfl, rfl⟩) (fun v hv => hv), ?_⟩
  · obtain ⟨x, hx, rfl⟩ := List.mem_map.1 hr
    refine ⟨x, hx, ?_⟩
    split
    · exact ⟨rfl, rfl, fun hend => by cases hend⟩
    · exact ⟨rfl, rfl, id⟩
  · rw [← h.sheets, Sheet.endWhere, Store.sheets, Store.sheets, List.map_map]
    refine List.map_map.trans (List.map_congr_left fun r hr => ?_)
    have hheader : p (s.sheetOf r).header = selected r := (hp r).trans (hselected r hr).symm
    rw [Function.comp_apply, Function.comp_apply, hheader]
    split
    · rfl
    · rfl

theorem Consistent.without (hs : s.Consistent) (ids : List Int) : (s.without ids).Consistent := by
  have hsteps : Steps .everything s (s.without ids) := by
    refine (Step.removeValues fun v _ hsel => ?_).steps.trans
      ((Step.removeMetrics fun m hm hsel => ⟨trivial, fun v hv hvm => ?_⟩).steps.trans
        (Step.removeReports fun r _ hsel => ⟨trivial, fun m hm hmr => ?_⟩).steps)
    · obtain ⟨m, hm, hid, -⟩ := ownedBy_iff.1 hsel
      exact ⟨m, hm, hid, trivial⟩
    · obtain ⟨-, hkept⟩ := List.mem_filter.1 hv
      rw [Bool.not_eq_true', ← Bool.not_eq_true, ownedBy_iff] at hkept
      exact hkept ⟨m, hm, hvm.symm, List.contains_iff_mem.1 hsel⟩
    · obtain ⟨-, hkept⟩ := List.mem_filter.1 hm
      have hgone : ids.contains m.reportId = true := hmr ▸ hsel
      rw [Bool.not_eq_true'] at hkept
      exact Bool.false_ne_true (hkept.symm.trans hgone)
  exact hsteps.consistent hs

theorem Shows.without (h : s.Shows xs) {ids : List Int} {p : ReportRow → Bool}
    (hids : ∀ r ∈ s.reports.rows, r.id ∈ ids ↔ p r = true) (hp : ∀ r, p r.unnumbered = p r) :
    (s.without ids).Shows (xs.filter fun x => !p x.header) := by
  refine ⟨h.consistent.without ids, h.writable, h.sequential.of_rows
    (fun r hr => ⟨r, (mem_reports_without.1 hr).1, rfl, rfl, id⟩)
    (fun m hm => ⟨m, (mem_metrics_without.1 hm).1, rfl, rfl⟩)
    (fun v hv => (mem_values_without.1 hv).1), ?_⟩
  have hrows : (s.without ids).reports.rows = s.reports.rows.filter fun r => !p r := by
    refine List.filter_congr fun r hr => ?_
    rw [Bool.eq_iff_iff, Bool.not_eq_true', Bool.not_eq_true', ← Bool.not_eq_true,
      ← Bool.not_eq_true, List.contains_iff_mem, hids r hr]
  rw [← h.sheets, filter_sheets s (p := fun r => !p r) fun r => congrArg not (hp r), Store.sheets,
    hrows]
  refine List.map_congr_left fun r hr => ?_
  rw [← hrows] at hr
  exact (h.consistent.sameReport_without (mem_reports_without.1 hr).2).sheetOf_eq

/-! ### Recording values -/

/-- Nothing is recorded for an hourly accumulator that has ended. -/
def TakesIn (s : Store) (id : Int) : Prop :=
  ∀ r ∈ s.reports.rows, r.id = id → r.kind = .hourly → r.endMs = none

theorem Sequential.newMetric (hq : s.Sequential) (hs : s.Consistent) {reportId : Int}
    (htakes : s.TakesIn reportId) (spec : MetricSpec) :
    Sequential { s with metrics := s.metrics.append fun id => ⟨id, reportId, spec⟩ } := by
  refine ⟨fun a ha b hb hak hbk hlt m hm hma n hn hnb => ?_, hq.openLast⟩
  have hnone : ∀ v : ValueRow, v ∉ s.valuesOf s.metrics.nextId := by
    rw [hs.valuesOf_nextId]
    exact fun v hv => by cases hv
  rcases List.mem_append.1 hm with hm | hm
  · rcases List.mem_append.1 hn with hn | hn
    · have hleads := hq.leads a ha b hb hak hbk hlt m hm hma n hn hnb
      exact ⟨hleads.metric, hleads.values⟩
    · obtain rfl := List.mem_singleton.1 hn
      exact ⟨hs.metricsNumbered.lt_nextId hm, fun v _ w hw => absurd hw (hnone w)⟩
  · -- the earlier one has ended, and nothing is added to it
    obtain rfl := List.mem_singleton.1 hm
    exact absurd (hq.openLast b hb a ha hbk hak (htakes a ha hma.symm hak)) (not_le_of_gt hlt)

theorem Sequential.setMetric (hq : s.Sequential) (hs : s.Consistent) {m : MetricRow}
    (hm : m ∈ s.metrics.rows) (spec : MetricSpec) :
    Sequential
      { s with metrics := s.metrics.update (·.id == m.id) fun _ => { m with spec } } := by
  refine hq.of_rows (fun r hr => ⟨r, hr, rfl, rfl, id⟩) (fun n hn => ?_) fun v hv => hv
  obtain ⟨x, hx, rfl⟩ := List.mem_map.1 hn
  refine ⟨x, hx, ?_⟩
  split
  · next hid =>
    obtain rfl := hs.metric_eq hx hm (beq_iff_eq.1 hid)
    exact ⟨rfl, rfl⟩
  · exact ⟨rfl, rfl⟩

theorem Sequential.addValue (hq : s.Sequential) (hs : s.Consistent) {m : MetricRow}
    (hm : m ∈ s.metrics.rows) (htakes : s.TakesIn m.reportId) (version : Nat) (t : Int)
    (value : SampleValue) :
    Sequential { s with values := s.values.append fun id => ⟨id, m.id, version, t, value⟩ } := by
  refine ⟨fun a ha b hb hak hbk hlt x hx hxa y hy hyb => ?_, hq.openLast⟩
  have hleads := hq.leads a ha b hb hak hbk hlt x hx hxa y hy hyb
  refine ⟨hleads.metric, fun v hv w hw => ?_⟩
  obtain ⟨hv, hvid⟩ := mem_valuesOf.1 hv
  obtain ⟨hw, hwid⟩ := mem_valuesOf.1 hw
  rcases List.mem_append.1 hv with hv | hv
  · rcases List.mem_append.1 hw with hw | hw
    · exact hleads.values v (mem_valuesOf.2 ⟨hv, hvid⟩) w (mem_valuesOf.2 ⟨hw, hwid⟩)
    · obtain rfl := List.mem_singleton.1 hw
      exact hs.valuesNumbered.lt_nextId hv
  · obtain rfl := List.mem_singleton.1 hv
    obtain rfl := hs.metric_eq hm hx hvid
    exact absurd (hq.openLast b hb a ha hbk hak (htakes a ha hxa.symm hak)) (not_le_of_gt hlt)

theorem Sequential.skipValue (hq : s.Sequential) :
    Sequential { s with values := s.values.skip } :=
  hq.of_rows (fun r hr => ⟨r, hr, rfl, rfl, id⟩) (fun m hm => ⟨m, hm, rfl, rfl⟩) fun _ hv => hv

end Store

namespace Transaction

variable {s s' : Store}

theorem record_sequential (hq : s.Sequential) (hs : s.Consistent) {reportId t : Int}
    {spec : MetricSpec} {version : Nat} {value : SampleValue} {result : Option Int}
    (howner : ∃ r ∈ s.reports.rows, r.id = reportId) (hname : spec.eventName ≠ "")
    (htakes : s.TakesIn reportId) (h : Yields (record reportId spec version t value) s result s') :
    s'.Sequential := by
  obtain ⟨id, s₁, hput, h⟩ := yields_bind.1 h
  have hput := yields_update.1 hput
  obtain ⟨hsteps, hreports, -, hm⟩ := putMetric_steps .everything hs howner trivial hname hput
  have hs₁ := hsteps.consistent hs
  have hq₁ : s₁.Sequential := by
    rcases Store.putMetric_eq_ok hs.undamaged hput with ⟨-, -, rfl⟩ | ⟨m, hfind, -, ⟨-, rfl⟩ | rfl⟩
    · exact hq.newMetric hs htakes spec
    · exact hq
    · exact hq.setMetric hs (List.mem_of_find?_eq_some hfind) spec
  obtain ⟨u, s₂, hused, h⟩ := yields_bind.1 h
  have hseen := looks_useKept _ _ _ _ s₁ u s₂ hused
  have hq₂ := hseen.sequential hq₁
  have hs₂ := hseen.consistent hs₁
  obtain ⟨kept, rfl⟩ := hseen
  rcases Store.insertValue_eq_ok (yields_update.1 h) with ⟨-, -, rfl⟩ | ⟨-, -, rfl⟩
  · exact hq₂.skipValue
  · refine hq₂.addValue hs₂ hm ?_ version t value.kept
    rw [Store.TakesIn, hreports]
    exact htakes

/-- What is known of the metrics of a report after recording. -/
theorem record_specs (hs : s.Consistent) {reportId t : Int} {spec : MetricSpec} {version : Nat}
    {value : SampleValue} {result : Option Int}
    (h : Yields (record reportId spec version t value) s result s') :
    (s'.metricRowsOf reportId).map (·.spec) =
      if (s.metricRowsOf reportId).any (·.spec.eventName == spec.eventName) then
        (s.metricRowsOf reportId).map fun m =>
          if m.spec.eventName == spec.eventName then spec else m.spec
      else (s.metricRowsOf reportId).map (·.spec) ++ [spec] := by
  obtain ⟨id, s₁, hput, h⟩ := yields_bind.1 h
  have hmetrics : s'.metrics = s₁.metrics := by
    obtain ⟨u, s₂, hused, h⟩ := yields_bind.1 h
    obtain ⟨kept, rfl⟩ := looks_useKept _ _ _ _ s₁ u s₂ hused
    rcases Store.insertValue_eq_ok (yields_update.1 h) with ⟨-, -, rfl⟩ | ⟨-, -, rfl⟩
    · rfl
    · rfl
  have hrows : s'.metricRowsOf reportId = s₁.metricRowsOf reportId := by
    rw [Store.metricRowsOf, hmetrics, Store.metricRowsOf]
  rw [hrows]
  have hnamed : ∀ m ∈ s.metricRowsOf reportId,
      m.isNamed reportId spec.eventName = (m.spec.eventName == spec.eventName) := by
    intro m hm
    simp [MetricRow.isNamed, (Store.mem_metricRowsOf.1 hm).2]
  rcases Store.putMetric_eq_ok hs.undamaged (yields_update.1 hput) with
    ⟨hnone, rfl, rfl⟩ | ⟨m, hfind, rfl, hcases⟩
  · have hany : (s.metricRowsOf reportId).any (·.spec.eventName == spec.eventName) = false := by
      refine List.any_eq_false.2 fun m hm => ?_
      rw [← hnamed m hm]
      exact List.find?_eq_none.1 hnone m (Store.mem_metricRowsOf.1 hm).1
    rw [hany, if_neg Bool.false_ne_true]
    simp [Store.metricRowsOf, Table.append]
  · obtain ⟨hm, hreport, hname⟩ := Store.of_metric? hfind
    have hown : m ∈ s.metricRowsOf reportId := Store.mem_metricRowsOf.2 ⟨hm, hreport⟩
    have hany : (s.metricRowsOf reportId).any (·.spec.eventName == spec.eventName) = true :=
      List.any_eq_true.2 ⟨m, hown, beq_iff_eq.2 hname⟩
    -- the metric of this name is this one
    have hself : ∀ x ∈ s.metricRowsOf reportId, (x.id == m.id) =
        (x.spec.eventName == spec.eventName) := by
      intro x hx
      rw [Bool.eq_iff_iff, beq_iff_eq, ← hnamed x hx]
      constructor
      · intro hid
        rw [hs.metric_eq (Store.mem_metricRowsOf.1 hx).1 hm hid]
        exact List.find?_some hfind
      · intro hx'
        rw [hs.named_eq (Store.mem_metricRowsOf.1 hx).1 hm hx' (List.find?_some hfind)]
    rw [hany, if_pos rfl]
    rcases hcases with ⟨hsame, rfl⟩ | rfl
    · refine List.map_congr_left fun x hx => ?_
      split
      · next hx' =>
        rw [← hself x hx, beq_iff_eq] at hx'
        rw [hs.metric_eq (Store.mem_metricRowsOf.1 hx).1 hm hx', hsame]
      · rfl
    · have hrows : ((s.metrics.update (·.id == m.id) fun _ => { m with spec }).rows.filter
          fun x => x.reportId == reportId) = (s.metricRowsOf reportId).map fun x =>
            if x.id == m.id then { m with spec } else x := by
        rw [Table.update, List.filter_map]
        congr 1
        refine List.filter_congr fun x hx => ?_
        rw [Function.comp_apply]
        split
        · next hid => rw [hs.metric_eq hx hm (beq_iff_eq.1 hid)]
        · rfl
      rw [Store.metricRowsOf, hrows, List.map_map]
      refine List.map_congr_left fun x hx => ?_
      rw [Function.comp_apply, hself x hx]
      split
      · rfl
      · rfl

/-- The metrics of a report after recording. -/
theorem record_tracks (hs : s.Consistent) {reportId t : Int} {spec : MetricSpec} {version : Nat}
    {value : SampleValue} {result : Option Int} (howner : ∃ r ∈ s.reports.rows, r.id = reportId)
    (hname : spec.eventName ≠ "") (h : Yields (record reportId spec version t value) s result s') :
    s'.tracksOf reportId = Track.put spec (recorded t value) (s.tracksOf reportId) := by
  obtain ⟨hsteps, -⟩ := record_steps .everything hs howner trivial hname h
  obtain ⟨-, hself, hother⟩ := record_seriesOf hs howner hname h
  have hspecs := record_specs hs h
  rw [(hsteps.consistent hs).tracksOf_eq, hspecs, hs.tracksOf_eq, Track.put, List.any_map]
  have hany : (s.metricRowsOf reportId).any (·.spec.eventName == spec.eventName) =
      ((s.metricRowsOf reportId).map (·.spec)).any (Track.isNamed spec.eventName ∘ fun x =>
        (⟨x, TimedValue.byTime (s.seriesOf reportId x.eventName)⟩ : Track)) := by
    rw [List.any_map]
    rfl
  rw [← hany]
  split
  · rw [List.map_map, List.map_map, List.map_map]
    refine List.map_congr_left fun m _ => ?_
    rw [Function.comp_apply, Function.comp_apply, Function.comp_apply, Track.isNamed_mk]
    by_cases hm : (m.spec.eventName == spec.eventName) = true
    · rw [if_pos hm, if_pos hm, hself, TimedValue.byTime_append, beq_iff_eq.1 hm]
    · rw [if_neg hm, if_neg hm, hother reportId _ fun hsame => hm (beq_iff_eq.2 hsame.2)]
  · next hnone =>
    rw [List.map_append, List.map_singleton, hself]
    have hempty : s.seriesOf reportId spec.eventName = [] := by
      have hfilter : (s.metricRowsOf reportId).filter (·.spec.eventName == spec.eventName) = [] := by
        rw [Bool.not_eq_true, List.any_eq_false] at hnone
        exact List.filter_eq_nil_iff.2 hnone
      rw [Store.seriesOf, Store.metric?_eq_head?, hfilter]
      rfl
    rw [hempty, List.nil_append]
    refine congrArg (· ++ _) (List.map_congr_left fun x hx => ?_)
    obtain ⟨m, hm, rfl⟩ := List.mem_map.1 hx
    rw [hother reportId _ fun hsame => hnone (List.any_eq_true.2 ⟨m, hm, beq_iff_eq.2 hsame.2⟩)]

/-- Recording changes one report and no other. -/
structure RecordsIn (reportId : Int) (spec : MetricSpec) (t : Int) (value : SampleValue)
    (s s' : Store) : Prop where
  consistent : s'.Consistent
  writable : s'.readOnly = false
  sequential : s'.Sequential
  reports : s'.reports = s.reports
  tracks : s'.tracksOf reportId = Track.put spec (recorded t value) (s.tracksOf reportId)
  others : ∀ r ∈ s.reports.rows, r.id ≠ reportId → Store.SameReport r.id s s'

theorem RecordsIn.sheetOf_eq {reportId t : Int} {spec : MetricSpec} {value : SampleValue}
    (h : RecordsIn reportId spec t value s s') {r : ReportRow} (hr : r ∈ s.reports.rows) :
    s'.sheetOf r =
      if r.id = reportId then (s.sheetOf r).record spec t value else s.sheetOf r := by
  split
  · next hid =>
    rw [Store.sheetOf, hid, h.tracks, ← hid]
    rfl
  · next hid => exact (h.others r hr hid).sheetOf_eq

theorem record_settles (hs : s.Consistent) (hwritable : s.readOnly = false)
    (hq : s.Sequential) {reportId t : Int} {spec : MetricSpec} {version : Nat}
    {value : SampleValue} (howner : ∃ r ∈ s.reports.rows, r.id = reportId)
    (hname : spec.eventName ≠ "") (htakes : s.TakesIn reportId) :
    Settles (record reportId spec version t value) s fun _ s' =>
      RecordsIn reportId spec t value s s' := by
  have hfails : Settles (record reportId spec version t value) s fun _ _ => True := by
    refine settles_bind (settles_update
      (Store.failsFull_putMetric hs.undamaged hwritable _ _) fun id s₁ hput => ?_)
    obtain ⟨hsteps, -⟩ := putMetric_steps .everything hs howner trivial hname hput
    have hs₁ := (hsteps.consistent hs).undamaged
    refine settles_bind (settles_useKept hs₁ fun s₂ hseen => ?_)
    have hwritable₂ := (hseen.readOnly_eq.trans hsteps.readOnly_eq).trans hwritable
    exact settles_update (Store.failsFull_insertValue (hseen.undamaged hs₁) hwritable₂ _ _ _ _)
      fun _ _ _ => trivial
  refine hfails.and_yields.imp fun result s' hrecord => ?_
  obtain ⟨hsteps, hreports⟩ := record_steps .everything hs howner trivial hname hrecord.2
  refine ⟨hsteps.consistent hs, hsteps.readOnly_eq.trans hwritable,
    record_sequential hq hs howner hname htakes hrecord.2, hreports,
    record_tracks hs howner hname hrecord.2, fun r hr hid => ?_⟩
  obtain ⟨hsteps, -⟩ :=
    record_steps ⟨(· = reportId), fun _ => False⟩ hs howner rfl hname hrecord.2
  exact hsteps.sameReport hs ⟨r, hr, rfl⟩ hid

end Transaction

end Telemetry
