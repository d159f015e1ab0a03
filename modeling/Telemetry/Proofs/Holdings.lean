import Telemetry.Proofs.Accumulating
import Telemetry.Proofs.Queries

/-!
# What reports hold

What a report holds is told here row by row, whatever the ids are: its metrics in their order, with
their attributes and with all their values, and each value with its version.  Of a metric that is
carried over the successor holds the latest value alone, unless that is too old.  So what has been
carried over is carried over as it is: doing so again at the same time changes nothing.
-/

namespace Telemetry

/-- What a value says, whatever its id and its metric. -/
structure Reading where
  version : Nat
  timeMs : Int
  value : SampleValue

def ValueRow.reading (v : ValueRow) : Reading := ⟨v.version, v.timeMs, v.value⟩

/-- A metric with its values, whatever their ids. -/
structure Holding where
  spec : MetricSpec
  readings : List Reading

/-- An open report with what it holds, whatever its id. -/
structure OpenReport where
  name : Option String
  startMs : Int
  softwareVersion : Option String
  holdings : List Holding

namespace Store

def holdingOf (s : Store) (m : MetricRow) : Holding := ⟨m.spec, (s.valuesOf m.id).map (·.reading)⟩

/-- The metrics of a report with their values, by id. -/
def holdings (s : Store) (reportId : Int) : List Holding :=
  (s.metricRowsOf reportId).map s.holdingOf

/-- What the open hourly accumulator holds. -/
def hourlyHoldings (s : Store) : List Holding := s.hourly?.elim [] fun r => s.holdings r.id

/-- The open reports of a kind, by id. -/
def openReports (s : Store) (kind : ReportKind) : List OpenReport :=
  (s.reports.rows.filter fun r => r.kind == kind && r.endMs.isNone).map fun r =>
    ⟨r.name, r.startMs, r.softwareVersion, s.holdings r.id⟩

/-- The latest value of a metric up to a time. -/
def latestRow? (s : Store) (id t : Int) : Option ValueRow :=
  match (s.valuesOf id).filter fun v => decide (v.timeMs ≤ t) with
  | [] => none
  | v :: vs => some (vs.foldl s.later v)

/-- What the successor is to hold of a metric that is carried over. -/
def carriedHolding? (s : Store) (maxAge now : Int) (m : MetricRow) : Option Holding :=
  ((s.latestRow? m.id now).filter fun v => decide (now - v.timeMs ≤ maxAge)).map fun v =>
    ⟨m.spec, [v.reading]⟩

/-- What the successor of the open hourly accumulator is to hold. -/
def carriedHoldings (s : Store) (maxAge now : Int) : List Holding :=
  s.hourly?.elim [] fun r =>
    ((s.metricRowsOf r.id).filter (·.spec.carryOver)).filterMap (s.carriedHolding? maxAge now)

variable {s s' : Store} {id t maxAge now : Int} {m : MetricRow} {v : ValueRow}

/-! ### The latest value -/

theorem foldl_later_mem (s : Store) (rows : List ValueRow) :
    ∀ v, rows.foldl s.later v ∈ v :: rows := by
  induction rows with
  | nil => exact fun v => List.mem_singleton_self v
  | cons x rows ih =>
    intro v
    rcases List.mem_cons.1 (ih (s.later v x)) with heq | hmem
    · rw [List.foldl_cons, heq]
      unfold later
      split <;> simp
    · exact List.mem_cons_of_mem _ (List.mem_cons_of_mem _ hmem)

theorem of_latestRow? (h : s.latestRow? id t = some v) : v ∈ s.valuesOf id ∧ v.timeMs ≤ t := by
  unfold latestRow? at h
  split at h
  · cases h
  next x rows hrows =>
  cases h
  have hmem := s.foldl_later_mem rows x
  rw [← hrows, List.mem_filter, decide_eq_true_eq] at hmem
  exact hmem

theorem latestRow?_singleton (h : s.valuesOf id = [v]) (ht : v.timeMs ≤ t) :
    s.latestRow? id t = some v := by
  have hrows : [v].filter (fun v => decide (v.timeMs ≤ t)) = [v] :=
    List.filter_cons_of_pos (decide_eq_true ht)
  rw [latestRow?, h, hrows]
  rfl

theorem SameReport.latestRow?_eq (h : SameReport id s s') (hs : s.Undamaged) (hs' : s'.Undamaged)
    (hm : m ∈ s.metricRowsOf id) (t : Int) : s'.latestRow? m.id t = s.latestRow? m.id t := by
  have hlater : s'.later = s.later := by
    funext a b
    rw [later, later, precedes_eq hs, precedes_eq hs']
  rw [latestRow?, latestRow?, h.values m hm, hlater]

/-! ### Reports that stay as they are -/

theorem SameReport.holdings_eq (h : SameReport id s s') : s'.holdings id = s.holdings id := by
  rw [holdings, holdings, h.metrics]
  refine List.map_congr_left fun m hm => ?_
  rw [holdingOf, holdingOf, h.values m hm]

theorem SameReport.carriedHolding?_eq (h : SameReport id s s') (hs : s.Undamaged)
    (hs' : s'.Undamaged) (hm : m ∈ s.metricRowsOf id) (maxAge now : Int) :
    s'.carriedHolding? maxAge now m = s.carriedHolding? maxAge now m := by
  rw [carriedHolding?, carriedHolding?, h.latestRow?_eq hs hs' hm]

/-! ### Carrying over -/

theorem carriedHolding?_of_old (h : ∀ v, s.latestRow? m.id now = some v → maxAge < now - v.timeMs) :
    s.carriedHolding? maxAge now m = none := by
  rw [carriedHolding?, Option.map_eq_none_iff, Option.filter_eq_none_iff]
  exact fun v hv hyoung => absurd (of_decide_eq_true hyoung) (not_le_of_gt (h v hv))

theorem carriedHolding?_of_young (h : s.latestRow? m.id now = some v)
    (hage : ¬maxAge < now - v.timeMs) :
    s.carriedHolding? maxAge now m = some ⟨m.spec, [v.reading]⟩ := by
  have hyoung : decide (now - v.timeMs ≤ maxAge) = true := decide_eq_true (not_lt.1 hage)
  rw [carriedHolding?, h, Option.filter_some, if_pos hyoung, Option.map_some]

/-- Something is carried over as one value that is not too old. -/
theorem of_carriedHolding? {x : Holding} (h : s.carriedHolding? maxAge now m = some x) :
    x.spec = m.spec ∧ ∃ v, x.readings = [v] ∧ v.timeMs ≤ now ∧ now - v.timeMs ≤ maxAge := by
  obtain ⟨v, hv, rfl⟩ := Option.map_eq_some_iff.1 h
  obtain ⟨hv, hage⟩ := Option.filter_eq_some_iff.1 hv
  exact ⟨rfl, v.reading, rfl, (of_latestRow? hv).2, of_decide_eq_true hage⟩

/-- One value that is not too old is carried over as it is. -/
theorem carriedHolding?_of_single {w : Reading} (h : (s.holdingOf m).readings = [w])
    (htime : w.timeMs ≤ now) (hage : now - w.timeMs ≤ maxAge) :
    s.carriedHolding? maxAge now m = some (s.holdingOf m) := by
  obtain ⟨v, hv, rfl⟩ := List.map_eq_singleton_iff.1 h
  rw [carriedHolding?_of_young (latestRow?_singleton hv htime) (not_lt.2 hage), holdingOf, hv]
  rfl

theorem mem_carriedHoldings {x : Holding} (h : x ∈ s.carriedHoldings maxAge now) :
    x.spec.carryOver = true ∧
      ∃ v, x.readings = [v] ∧ v.timeMs ≤ now ∧ now - v.timeMs ≤ maxAge := by
  unfold carriedHoldings at h
  cases hopen : s.hourly? with
  | none =>
    rw [hopen] at h
    cases h
  | some r =>
    rw [hopen, Option.elim_some] at h
    obtain ⟨m, hm, hx⟩ := List.mem_filterMap.1 h
    obtain ⟨hspec, hreadings⟩ := of_carriedHolding? hx
    exact ⟨hspec ▸ (List.mem_filter.1 hm).2, hreadings⟩

/-- What has been carried over is carried over as it is. -/
theorem carriedHoldings_again (h : s'.hourlyHoldings = s.carriedHoldings maxAge now) :
    s'.carriedHoldings maxAge now = s'.hourlyHoldings := by
  rw [carriedHoldings, hourlyHoldings]
  rw [hourlyHoldings] at h
  cases hopen : s'.hourly? with
  | none => rfl
  | some r =>
    rw [hopen, Option.elim_some] at h
    have hcarried : ∀ m ∈ s'.metricRowsOf r.id, m.spec.carryOver = true ∧
        s'.carriedHolding? maxAge now m = some (s'.holdingOf m) := by
      intro m hm
      have hmem : s'.holdingOf m ∈ s.carriedHoldings maxAge now := h ▸ List.mem_map_of_mem hm
      obtain ⟨hcarry, v, hv, htime, hage⟩ := mem_carriedHoldings hmem
      exact ⟨hcarry, carriedHolding?_of_single hv htime hage⟩
    rw [Option.elim_some, Option.elim_some, holdings,
      List.filter_eq_self.2 fun m hm => (hcarried m hm).1, ← List.filterMap_eq_map]
    exact List.filterMap_congr fun m hm => (hcarried m hm).2

end Store

/-! ### Recording -/

namespace Transaction

variable {s s' : Store}

theorem latestUpTo_eq_latestRow? (hs : s.Undamaged) {id t : Int} {v? : Option ValueRow}
    (h : Yields (latestUpTo id t) s v? s') : v? = s.latestRow? id t := by
  obtain ⟨hlatest, -⟩ := yields_query.1 h
  have hadmits : s.admits ⟨[id], none, none, t, false⟩ =
      ValueQuery.admits ⟨[id], none, none, t, false⟩ := Store.testValue_eq hs _ _
  have hrows : s.values.rows.filter (ValueQuery.admits ⟨[id], none, none, t, false⟩) =
      (s.valuesOf id).filter fun v => decide (v.timeMs ≤ t) := by
    rw [Store.filter_admits s rfl]
    simp [ValueQuery.admitsTime]
  unfold Store.latestValue? at hlatest
  rw [Store.need_eq_ok hs, hadmits, hrows] at hlatest
  unfold Store.latestRow?
  cases hvalues : (s.valuesOf id).filter fun v => decide (v.timeMs ≤ t) with
  | nil =>
    rw [hvalues] at hlatest
    cases hlatest
    rfl
  | cons v rows =>
    rw [hvalues] at hlatest
    have hlatest : s.readValue .findLatest (rows.foldl s.later v) = .ok v? := hlatest
    rw [Store.readValue_eq hs, Except.ok.injEq] at hlatest
    exact hlatest.symm

/-- A value of a name that the report does not have yet is recorded as a metric and a value. -/
theorem record_adds (hs : s.Consistent) {reportId t : Int} {spec : MetricSpec} {version : Nat}
    {value : SampleValue} {result : Option Int}
    (hfree : ∀ x ∈ s.metricRowsOf reportId, x.spec.eventName ≠ spec.eventName)
    (hvalue : value.IsKept) (h : Yields (record reportId spec version t value) s result s') :
    s'.reports = s.reports ∧
      s'.metrics.rows = s.metrics.rows ++ [⟨s.metrics.nextId, reportId, spec⟩] ∧
      s'.values.rows =
        s.values.rows ++ [⟨s.values.nextId, s.metrics.nextId, version, t, value⟩] := by
  obtain ⟨metricId, s₁, hput, h⟩ := yields_bind.1 h
  obtain ⟨u, s₂, hused, h⟩ := yields_bind.1 h
  rcases Store.putMetric_eq_ok hs.undamaged (yields_update.1 hput) with
    ⟨-, rfl, rfl⟩ | ⟨m, hm, -⟩
  · obtain ⟨kept, rfl⟩ := looks_useKept _ _ _ _ _ u s₂ hused
    rcases Store.insertValue_eq_ok (yields_update.1 h) with ⟨hnan, -⟩ | ⟨-, -, rfl⟩
    · rw [hvalue.isNaN] at hnan
      cases hnan
    · refine ⟨rfl, rfl, ?_⟩
      rw [hvalue.kept]
      rfl
  · obtain ⟨hmem, hreport, hname⟩ := Store.of_metric? hm
    exact absurd hname (hfree m (Store.mem_metricRowsOf.2 ⟨hmem, hreport⟩))

/-- What the report holds then ends with this one value. -/
theorem record_holds (hs : s.Consistent) {reportId t : Int} {spec : MetricSpec} {version : Nat}
    {value : SampleValue} {result : Option Int}
    (hfree : ∀ x ∈ s.metricRowsOf reportId, x.spec.eventName ≠ spec.eventName)
    (hvalue : value.IsKept) (h : Yields (record reportId spec version t value) s result s') :
    s'.holdings reportId = s.holdings reportId ++ [⟨spec, [⟨version, t, value⟩]⟩] := by
  obtain ⟨-, hmetrics, hvalues⟩ := record_adds hs hfree hvalue h
  have hrows : s'.metricRowsOf reportId =
      s.metricRowsOf reportId ++ [⟨s.metrics.nextId, reportId, spec⟩] := by
    rw [Store.metricRowsOf, hmetrics, List.filter_append, List.filter_cons_of_pos (by simp)]
    rfl
  have hold : ∀ m ∈ s.metricRowsOf reportId, s'.valuesOf m.id = s.valuesOf m.id := by
    intro m hm
    have hlt := hs.metricsNumbered.lt_nextId (Store.mem_metricRowsOf.1 hm).1
    have hne : (s.metrics.nextId == m.id) = false := beq_false_of_ne (ne_of_gt hlt)
    simp [Store.valuesOf, hvalues, hne]
  have hnew : s'.valuesOf s.metrics.nextId =
      [⟨s.values.nextId, s.metrics.nextId, version, t, value⟩] := by
    rw [Store.valuesOf, hvalues, List.filter_append, List.filter_cons_of_pos (by simp)]
    change s.valuesOf s.metrics.nextId ++ _ = _
    rw [hs.valuesOf_nextId]
    rfl
  rw [Store.holdings, hrows, List.map_append, List.map_singleton, Store.holdings]
  congr 1
  · exact List.map_congr_left fun m hm => by rw [Store.holdingOf, Store.holdingOf, hold m hm]
  · rw [Store.holdingOf, hnew]
    rfl

end Transaction

end Telemetry
