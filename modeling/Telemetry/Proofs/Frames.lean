import Telemetry.Proofs.Runs

/-!
# What steps leave alone

A report is seen through its row, its metrics and their values.  Steps outside whose scope it is
leave all of that as it was.  The stages of a collection after the hourly one leave an open hourly
accumulator alone, as long as each of its metrics has a value.
-/

namespace Telemetry

theorem filter_filter_of_imp {α : Type} {l : List α} {p q : α → Bool}
    (h : ∀ x ∈ l, p x = true → q x = true) : (l.filter q).filter p = l.filter p := by
  rw [List.filter_filter]
  refine List.filter_congr fun x hx => ?_
  rw [Bool.and_eq_left_iff_imp]
  exact h x hx

/-! ### Tables -/

namespace Table

variable {α : Type} {t : Table α} {p selected : α → Bool}

theorem filter_update {change : α → α}
    (h : ∀ r ∈ t.rows, selected r = true → p r = false ∧ p (change r) = false) :
    (t.update selected change).rows.filter p = t.rows.filter p := by
  obtain ⟨rows, lastId⟩ := t
  change (rows.map fun r => if selected r then change r else r).filter p = rows.filter p
  induction rows with
  | nil => rfl
  | cons r rows ih =>
    rw [List.map_cons, List.filter_cons, List.filter_cons, ih fun r' hr' => h r' (by simp [hr'])]
    by_cases hsel : selected r = true
    · obtain ⟨hbefore, hafter⟩ := h r (by simp) hsel
      simp [hsel, hbefore, hafter]
    · simp [hsel]

theorem filter_remove (h : ∀ r ∈ t.rows, p r = true → selected r = false) :
    (t.remove selected).rows.filter p = t.rows.filter p :=
  filter_filter_of_imp fun r hr hp => by rw [h r hr hp, Bool.not_false]

theorem filter_append [Identified α] {row : Int → α} (h : p (row t.nextId) = false) :
    (t.append row).rows.filter p = t.rows.filter p := by
  change (t.rows ++ [row t.nextId]).filter p = t.rows.filter p
  simp [h]

end Table

/-! ### One report -/

namespace Store

/-- The metrics of a report, by id. -/
def metricRowsOf (s : Store) (reportId : Int) : List MetricRow :=
  s.metrics.rows.filter fun m => m.reportId == reportId

def valuesOf (s : Store) (metricId : Int) : List ValueRow :=
  s.values.rows.filter fun v => v.metricId == metricId

/-- The values of a metric with their times, by id. -/
def timedOf (s : Store) (metricId : Int) : List TimedValue := (s.valuesOf metricId).map (·.timed)

theorem mem_metricRowsOf {s : Store} {reportId : Int} {m : MetricRow} :
    m ∈ s.metricRowsOf reportId ↔ m ∈ s.metrics.rows ∧ m.reportId = reportId := by
  simp [metricRowsOf]

theorem mem_valuesOf {s : Store} {metricId : Int} {v : ValueRow} :
    v ∈ s.valuesOf metricId ↔ v ∈ s.values.rows ∧ v.metricId = metricId := by
  simp [valuesOf]

theorem filter_metrics (s : Store) (reportId : Int) (p : MetricRow → Bool) :
    s.metrics.rows.filter (fun m => m.reportId == reportId && p m) =
      (s.metricRowsOf reportId).filter p := by
  rw [metricRowsOf, List.filter_filter]
  exact List.filter_congr fun m _ => Bool.and_comm _ _

theorem Consistent.metricRowsOf_distinct {s : Store} (hs : s.Consistent)
    (reportId : Int) :
    (s.metricRowsOf reportId).Pairwise fun a b => a.spec.eventName ≠ b.spec.eventName := by
  refine (hs.metricUnique.filter _).imp_of_mem fun {a b} ha hb hne heq => hne ⟨?_, heq⟩
  exact (mem_metricRowsOf.1 ha).2.trans (mem_metricRowsOf.1 hb).2.symm

/-- A report is as it was, with its metrics and their values. -/
structure SameReport (id : Int) (s s' : Store) : Prop where
  rows : s'.reports.rows.filter (·.id == id) = s.reports.rows.filter (·.id == id)
  metrics : s'.metricRowsOf id = s.metricRowsOf id
  values : ∀ m ∈ s.metricRowsOf id, s'.valuesOf m.id = s.valuesOf m.id

namespace SameReport

variable {id : Int} {s s' s'' : Store}

theorem refl (id : Int) (s : Store) : SameReport id s s := ⟨rfl, rfl, fun _ _ => rfl⟩

theorem trans (h : SameReport id s s') (h' : SameReport id s' s'') : SameReport id s s'' where
  rows := h'.rows.trans h.rows
  metrics := h'.metrics.trans h.metrics
  values := fun m hm => (h'.values m (h.metrics ▸ hm)).trans (h.values m hm)

theorem mem_reports (h : SameReport id s s') {r : ReportRow} (hid : r.id = id) :
    r ∈ s'.reports.rows ↔ r ∈ s.reports.rows := by
  have hmem : r ∈ s'.reports.rows.filter (·.id == id) ↔ r ∈ s.reports.rows.filter (·.id == id) := by
    rw [h.rows]
  simpa [hid] using hmem

end SameReport

variable {scope : Scope} {s s' : Store}

theorem Step.sameReport (h : Step scope s s') (hs : s.Consistent) {id : Int}
    (hr : ∃ r ∈ s.reports.rows, r.id = id) (hid : ¬scope.touches id) : SameReport id s s' := by
  -- a metric that belongs to a report in the scope does not belong to this one
  have hother : ∀ {m x : MetricRow}, m ∈ s.metrics.rows → scope.touches m.reportId →
      x ∈ s.metricRowsOf id → x.id ≠ m.id := by
    intro m x hm htouches hx heq
    obtain ⟨hx, hxid⟩ := mem_metricRowsOf.1 hx
    obtain rfl := hs.metric_eq hx hm heq
    exact hid (hxid ▸ htouches)
  cases h with
  | keep kept => exact ⟨rfl, rfl, fun _ _ => rfl⟩
  | start t version _ _ _ =>
    refine ⟨Table.filter_append ?_, rfl, fun _ _ => rfl⟩
    obtain ⟨r, hr, rfl⟩ := hr
    exact beq_false_of_ne (ne_of_gt (hs.reportsNumbered.lt_nextId hr))
  | finish t h =>
    refine ⟨Table.filter_update fun r hr hsel => ?_, rfl, fun _ _ => rfl⟩
    have hne : r.id ≠ id := fun heq => hid (heq ▸ (h r hr hsel).1)
    exact ⟨beq_false_of_ne hne, beq_false_of_ne hne⟩
  | newMetric hscope _ _ _ =>
    refine ⟨rfl, Table.filter_append ?_, fun _ _ => rfl⟩
    exact beq_false_of_ne fun heq => hid (heq ▸ hscope)
  | @setMetric m spec hscope hm _ =>
    have hne : m.reportId ≠ id := fun heq => hid (heq ▸ hscope)
    refine ⟨rfl, Table.filter_update fun x hx hsel => ?_, fun _ _ => rfl⟩
    obtain rfl := hs.metric_eq hx hm (beq_iff_eq.1 hsel)
    exact ⟨beq_false_of_ne hne, beq_false_of_ne hne⟩
  | addValue version t hscope hm _ =>
    refine ⟨rfl, rfl, fun x hx => Table.filter_append ?_⟩
    exact beq_false_of_ne (hother hm hscope hx).symm
  | skipValue => exact ⟨rfl, rfl, fun _ _ => rfl⟩
  | removeValues h =>
    refine ⟨rfl, rfl, fun x hx => Table.filter_remove fun v hv hvx => ?_⟩
    by_contra hsel
    obtain ⟨m, hm, hmv, htouches⟩ := h v hv (by simpa using hsel)
    exact hother hm htouches hx ((beq_iff_eq.1 hvx).symm.trans hmv.symm)
  | removeMetrics h =>
    refine ⟨rfl, Table.filter_remove fun m hm hreport => ?_, fun _ _ => rfl⟩
    by_contra hsel
    exact hid (beq_iff_eq.1 hreport ▸ (h m hm (by simpa using hsel)).1)
  | removeReports h =>
    refine ⟨Table.filter_remove fun r hr hrid => ?_, rfl, fun _ _ => rfl⟩
    by_contra hsel
    exact hid (beq_iff_eq.1 hrid ▸ (h r hr (by simpa using hsel)).1)

theorem Steps.sameReport (h : Steps scope s s') (hs : s.Consistent) {id : Int}
    (hr : ∃ r ∈ s.reports.rows, r.id = id) (hid : ¬scope.touches id) : SameReport id s s' := by
  induction h with
  | refl => exact .refl id s
  | @tail s₁ s₂ hsteps hstep ih =>
    obtain ⟨r, hr, hrid⟩ := hr
    exact ih.trans (hstep.sameReport (Steps.consistent hsteps hs)
      ⟨r, (ih.mem_reports hrid).2 hr, hrid⟩ hid)

/-! ### No open report -/

/-- No report of a kind is open. -/
def NoneOpen (kind : ReportKind) (s : Store) : Prop :=
  ∀ r ∈ s.reports.rows, r.kind = kind → r.endMs ≠ none

theorem Step.noneOpen (h : Step scope s s') {kind : ReportKind} (hs : s.NoneOpen kind)
    (hstarts : ¬scope.starts kind) : s'.NoneOpen kind := by
  cases h with
  | start t version hscope _ _ =>
    intro r hr hkind
    rcases List.mem_append.1 hr with hr | hr
    · exact hs r hr hkind
    · obtain rfl := List.mem_singleton.1 hr
      exact absurd (hkind ▸ hscope) hstarts
  | finish t _ =>
    intro r hr hkind
    obtain ⟨a, ha, rfl⟩ := List.mem_map.1 hr
    split at hkind
    · next hsel => simp [hsel]
    · next hsel =>
      rw [if_neg hsel]
      exact hs a ha hkind
  | removeReports _ => exact fun r hr => hs r (List.mem_filter.1 hr).1
  | keep | newMetric | setMetric | addValue | skipValue | removeValues | removeMetrics => exact hs

theorem Steps.noneOpen (h : Steps scope s s') {kind : ReportKind} (hs : s.NoneOpen kind)
    (hstarts : ¬scope.starts kind) : s'.NoneOpen kind := by
  induction h with
  | refl => exact hs
  | tail _ hstep ih => exact hstep.noneOpen ih hstarts

/-! ### Settled accumulators -/

/-- Each metric of the report has a value. -/
def Filled (s : Store) (reportId : Int) : Prop :=
  ∀ m ∈ s.metricRowsOf reportId, s.valuesOf m.id ≠ []

/-- An open hourly accumulator that has metrics, each with a value. -/
structure Settled (id : Int) (s : Store) : Prop where
  report : ∃ r ∈ s.reports.rows, r.id = id ∧ r.kind = .hourly ∧ r.endMs = none
  metric : s.metricRowsOf id ≠ []
  filled : s.Filled id

theorem Settled.of_same {id : Int} (hset : Settled id s) (h : SameReport id s s') :
    Settled id s' where
  report := by
    obtain ⟨r, hr, hid, hopen⟩ := hset.report
    exact ⟨r, (h.mem_reports hid).2 hr, hid, hopen⟩
  metric := h.metrics ▸ hset.metric
  filled := by
    intro m hm
    rw [h.metrics] at hm
    rw [h.values m hm]
    exact hset.filled m hm

theorem Settled.exists_report {id : Int} (hset : Settled id s) : ∃ r ∈ s.reports.rows, r.id = id :=
  hset.report.imp fun _ hr => ⟨hr.1, hr.2.1⟩

theorem Settled.open_of_id {id : Int} (hset : Settled id s) (hs : s.Consistent) {r : ReportRow}
    (hr : r ∈ s.reports.rows) (hid : r.id = id) : r.kind = .hourly ∧ r.endMs = none := by
  obtain ⟨x, hx, hxid, hopen⟩ := hset.report
  rwa [hs.report_eq hr hx (hid.trans hxid.symm)]

end Store

/-- All reports but one, and no report is started. -/
def Scope.except (id : Int) : Scope := ⟨fun n => n ≠ id, fun _ => False⟩

theorem Store.Steps.sameReport_except {id : Int} {s s' : Store} (h : Steps (.except id) s s')
    (hs : s.Consistent) (hr : ∃ r ∈ s.reports.rows, r.id = id) : SameReport id s s' :=
  h.sameReport hs hr fun hne => hne rfl

/-- The stages after the hourly one leave a settled accumulator alone. -/
theorem Collecting.others_sameReport {settings : Settings} {request : CollectRequest}
    {hourly : MetricReport} {path : Option Path} {p p' : Progress} {report : CustomReport}
    (hs : p.store.Consistent) {id : Int} (hset : Store.Settled id p.store)
    (h : Yields (others settings request hourly path) p report p') :
    Store.SameReport id p.store p'.store := by
  obtain ⟨daily, p₁, hdaily, h⟩ := yields_bind.1 h
  obtain ⟨sessions, p₂, hsessions, h⟩ := yields_bind.1 h
  obtain ⟨u, p₃, hrun, h⟩ := yields_bind.1 h
  obtain ⟨-, rfl⟩ := yields_pure.1 h
  obtain ⟨s, hretain, rfl⟩ := yields_run.1 hrun
  -- a report that is not an open hourly one is another one
  have hother : ∀ {s : Store} {r : ReportRow}, s.Consistent → Store.Settled id s →
      r ∈ s.reports.rows → (r.kind ≠ .hourly ∨ r.endMs ≠ none) → r.id ≠ id := by
    intro s r hs hset hr hnot hid
    obtain ⟨hkind, hend⟩ := hset.open_of_id hs hr hid
    exact hnot.elim (· hkind) (· hend)
  have hsteps₁ : Store.Steps (.except id) p.store p₁.store := by
    refine daily_steps _ hs (fun r hr hended => hother hs hset hr (.inr ?_)) hdaily
    exact (ReportRow.isEnded_iff.1 hended).2
  have hs₁ := hsteps₁.consistent hs
  have hsame₁ := hsteps₁.sameReport_except hs hset.exists_report
  have hset₁ := hset.of_same hsame₁
  have hsteps₂ : Store.Steps (.except id) p₁.store p₂.store :=
    sessions_steps _ hs₁ (fun r hr hkind => hother hs₁ hset₁ hr (.inl (by simp [hkind]))) hsessions
  have hs₂ := hsteps₂.consistent hs₁
  have hsame₂ := hsteps₂.sameReport_except hs₁ hset₁.exists_report
  have hset₂ := hset₁.of_same hsame₂
  have hsteps₃ : Store.Steps (.except id) p₂.store s := by
    refine retain_steps _ hs₂ (fun r hr hkind => hother hs₂ hset₂ hr (.inl (by simp [hkind])))
      ⟨fun m hm hnone hid => ?_, fun r hr hnone hid => ?_⟩ hretain
    · obtain ⟨v, hv⟩ := List.exists_mem_of_ne_nil _
        (hset₂.filled m (Store.mem_metricRowsOf.2 ⟨hm, hid⟩))
      obtain ⟨hv, hvm⟩ := Store.mem_valuesOf.1 hv
      exact hnone v hv hvm
    · obtain ⟨m, hm⟩ := List.exists_mem_of_ne_nil _ hset₂.metric
      obtain ⟨hm, hmid⟩ := Store.mem_metricRowsOf.1 hm
      exact hnone m hm (hmid.trans hid.symm)
  exact (hsame₁.trans hsame₂).trans (hsteps₃.sameReport_except hs₂ hset₂.exists_report)

/-- The stages after the hourly one open no accumulator. -/
theorem Collecting.others_noneOpen {settings : Settings} {request : CollectRequest}
    {hourly : MetricReport} {path : Option Path} {p p' : Progress} {report : CustomReport}
    (hs : p.store.Consistent) {kind : ReportKind} (hnone : p.store.NoneOpen kind)
    (h : Yields (others settings request hourly path) p report p') : p'.store.NoneOpen kind :=
  (others_steps ⟨fun _ => True, fun _ => False⟩ hs (fun _ => trivial) h).noneOpen hnone id

end Telemetry
