import Telemetry.Proofs.Accumulating
import Telemetry.Proofs.Queries

/-!
# Carrying over

A collection ends the hourly accumulator and starts a successor for the metrics that it carries over.
What the successor holds is told here name by name: of each metric that is carried over its latest
value, unless that is too old, and nothing else.
-/

namespace Telemetry

namespace Store

/-- What is carried over of a metric: its latest value, unless that is too old. -/
def carriedOf (s : Store) (maxAge now : Int) (m : MetricRow) : Option TimedValue :=
  (TimedValue.newest? ((s.timedOf m.id).filter fun v => decide (v.timeMs ≤ now))).filter fun v =>
    decide (now - v.timeMs ≤ maxAge)

/-- What is carried over of a name from the open hourly accumulator. -/
def carried? (s : Store) (maxAge now : Int) (name : String) : Option TimedValue :=
  ((s.hourlyMetric? name).filter (·.spec.carryOver)).bind (s.carriedOf maxAge now)

variable {s s' : Store}

theorem isKept_of_mem_timedOf (hs : s.Consistent) {id : Int} {v : TimedValue}
    (h : v ∈ s.timedOf id) : v.value.IsKept := by
  obtain ⟨row, hrow, rfl⟩ := List.mem_map.1 h
  exact hs.valueKept row (mem_valuesOf.1 hrow).1

end Store

namespace Transaction

variable {s s' : Store}

theorem latestUpTo_eq (hs : s.Consistent) {id t : Int} {v? : Option ValueRow}
    (h : Yields (latestUpTo id t) s v? s') :
    s = s' ∧ v?.map (·.timed) =
      TimedValue.newest? ((s.timedOf id).filter fun v => decide (v.timeMs ≤ t)) := by
  obtain ⟨hlatest, rfl⟩ := yields_query.1 h
  obtain ⟨w?, hw, hnewest⟩ := Store.latestValue?_eq hs (q := ⟨[id], none, none, t, false⟩) rfl
  rw [hw, Except.ok.injEq] at hlatest
  subst hlatest
  refine ⟨rfl, hnewest.trans ?_⟩
  simp [ValueQuery.admitsTime]

end Transaction

/-! ### Metric by metric -/

/-- An accumulator that is open was started now, and each of its metrics has a value. -/
def Store.SucceededAt (s : Store) (now : Int) : Prop :=
  ∀ r, s.hourly? = some r → r.startMs = now ∧ Store.Settled r.id s

/-- The report is there and has ended. -/
def Store.HasEnded (id : Int) (s : Store) : Prop := ∃ r ∈ s.reports.rows, r.id = id ∧ r.endMs ≠ none

theorem Store.HasEnded.of_same {id : Int} {s s' : Store} (h : HasEnded id s)
    (hsame : SameReport id s s') : HasEnded id s' := by
  obtain ⟨r, hr, hid, hend⟩ := h
  exact ⟨r, (hsame.mem_reports hid).2 hr, hid, hend⟩

namespace Collecting

variable {s s' : Store}

theorem carry_record (hs : s.Consistent) {r : ReportRow} (hopen : s.hourly? = some r)
    (hfilled : s.Filled r.id) {spec : MetricSpec} (hname : spec.eventName ≠ "") {v : ValueRow}
    (hkept : v.value.IsKept) {result : Option Int}
    (h : Yields (Transaction.record r.id spec v.version v.timeMs v.value) s result s') :
    s'.Consistent ∧ s'.hourly? = some r ∧ Store.Settled r.id s' ∧
      (∀ name, s'.hourlySeries name =
        s.hourlySeries name ++ if name = spec.eventName then [v.timed] else []) ∧
      ∀ id, (∃ x ∈ s.reports.rows, x.id = id) → id ≠ r.id → Store.SameReport id s s' := by
  obtain ⟨hr, hkind, -, hend⟩ := Store.of_hourly? hopen
  have howner : ∃ x ∈ s.reports.rows, x.id = r.id := ⟨r, hr, rfl⟩
  obtain ⟨hsteps, hreports⟩ :=
    Transaction.record_steps ⟨fun id => id = r.id, fun _ => False⟩ hs howner rfl hname h
  obtain ⟨hopen', -, hseries⟩ := Transaction.record_hourly hs hopen hname h
  obtain ⟨⟨m, hm, -⟩, -⟩ := Transaction.record_names hs howner hname h
  refine ⟨hsteps.consistent hs, hopen', ⟨⟨r, hreports ▸ hr, rfl, hkind, hend⟩,
    List.ne_nil_of_mem hm, Transaction.record_filled hs howner hname hkept.isNaN hfilled h⟩,
    fun name => ?_, fun id hid hne => hsteps.sameReport hs hid hne⟩
  have hrecorded : Transaction.recorded v.timeMs v.value = [v.timed] := by
    simp [Transaction.recorded, hkept.isNaN, hkept.kept, ValueRow.timed]
  rw [hseries, hrecorded]

/-- What is carried over of the metrics in a list. -/
def carriedAmong (s : Store) (maxAge now : Int) (ms : List MetricRow) (name : String) :
    Option TimedValue :=
  (ms.find? (·.spec.eventName == name)).bind (s.carriedOf maxAge now)

theorem carriedAmong_cons {maxAge now : Int} {m : MetricRow} {ms : List MetricRow}
    (hdistinct : ∀ x ∈ ms, m.spec.eventName ≠ x.spec.eventName) (name : String) :
    (carriedAmong s maxAge now (m :: ms) name).toList =
      (if name = m.spec.eventName then (s.carriedOf maxAge now m).toList else []) ++
        (carriedAmong s maxAge now ms name).toList := by
  unfold carriedAmong
  by_cases hname : name = m.spec.eventName
  · have hnone : ms.find? (·.spec.eventName == name) = none := by
      refine List.find?_eq_none.2 fun x hx => ?_
      have hne := hdistinct x hx
      simpa [hname] using hne.symm
    rw [hnone, List.find?_cons_of_pos (by simp [hname]), if_pos hname]
    simp
  · rw [List.find?_cons_of_neg (by simpa using Ne.symm hname), if_neg hname, List.nil_append]

theorem carriedAmong_congr {maxAge now : Int} {id : Int} {ms : List MetricRow}
    (hms : ∀ m ∈ ms, m ∈ s.metricRowsOf id) (h : Store.SameReport id s s') (name : String) :
    carriedAmong s' maxAge now ms name = carriedAmong s maxAge now ms name := by
  unfold carriedAmong
  cases hfind : ms.find? (·.spec.eventName == name) with
  | none => rfl
  | some m =>
    have hvalues := h.values m (hms m (List.mem_of_find?_eq_some hfind))
    rw [Option.bind_some, Option.bind_some, Store.carriedOf, Store.timedOf, hvalues]
    rfl

/-- A value is recorded in the successor, which is not the report that has ended. -/
theorem carry_into {now id : Int} {s₁ s₂ : Store} {r : ReportRow} {spec : MetricSpec}
    {v : ValueRow} {result : Option Int} (hended : Store.HasEnded id s)
    (hsame₁ : Store.SameReport id s s₁) (hs₁ : s₁.Consistent) (hopen : s₁.hourly? = some r)
    (hstart : r.startMs = now) (hfilled : s₁.Filled r.id) (hname : spec.eventName ≠ "")
    (hkept : v.value.IsKept)
    (h : Yields (Transaction.record r.id spec v.version v.timeMs v.value) s₁ result s₂) :
    s₂.Consistent ∧ s₂.hourly? = some r ∧ s₂.SucceededAt now ∧ Store.SameReport id s s₂ ∧
      ∀ name, s₂.hourlySeries name =
        s₁.hourlySeries name ++ if name = spec.eventName then [v.timed] else [] := by
  obtain ⟨hs₂, hopen₂, hset₂, hseries₂, hsame₂⟩ := carry_record hs₁ hopen hfilled hname hkept h
  obtain ⟨x, hx, hxid, hxend⟩ := hended.of_same hsame₁
  obtain ⟨hr, -, -, hend⟩ := Store.of_hourly? hopen
  have hne : id ≠ r.id := by
    intro heq
    rw [hs₁.report_eq hx hr (hxid.trans heq)] at hxend
    exact hxend hend
  refine ⟨hs₂, hopen₂, fun y hy => ?_, hsame₁.trans (hsame₂ id ⟨x, hx, hxid⟩ hne), hseries₂⟩
  rw [hopen₂, Option.some.injEq] at hy
  exact hy ▸ ⟨hstart, hset₂⟩

/-- The successor was there, or is started without metrics. -/
theorem successor_open {version : Option String} {now id id' : Int} {s₁ : Store}
    (hs : s.Consistent) (hended : Store.HasEnded id s) (hsucc : s.SucceededAt now)
    (h : s.hourly?.map (·.id) = some id' ∧ s₁ = s ∨ s.hourly?.map (·.id) = none ∧
      Yields (Transaction.openOrStart .hourly none now version) s id' s₁) :
    ∃ r, s₁.hourly? = some r ∧ r.id = id' ∧ s₁.Consistent ∧ r.startMs = now ∧ s₁.Filled r.id ∧
      Store.SameReport id s s₁ ∧ ∀ name, s₁.hourlySeries name = s.hourlySeries name := by
  rcases h with ⟨hid, rfl⟩ | ⟨hnone, hstarted⟩
  · obtain ⟨r, hopen, hid⟩ := Option.map_eq_some_iff.1 hid
    obtain ⟨hstart, hset⟩ := hsucc r hopen
    exact ⟨r, hopen, hid, hs, hstart, hset.filled, .refl id s₁, fun _ => rfl⟩
  · have hopen : s.hourly? = none := Option.map_eq_none_iff.1 hnone
    obtain ⟨hs₁, ⟨r, hopen₁, rfl, hstart⟩, hempty, hsame⟩ :=
      Transaction.openOrStart_hourly hs hopen hstarted
    refine ⟨r, hopen₁, rfl, hs₁, hstart, by simp [Store.Filled, hempty],
      hsame id (hended.imp fun _ hr => ⟨hr.1, hr.2.1⟩), fun name => ?_⟩
    rw [Store.hourlySeries, hopen₁, Store.hourlySeries, hopen, Option.elim_some,
      Option.elim_none, Store.seriesOf, Store.metric?_eq_head?, hempty]
    rfl

/-- Of one metric the successor takes up what is carried over, whoever started it. -/
theorem carry_step {settings : Settings} {version : Option String} {now id : Int} {m : MetricRow}
    {ms : List MetricRow} {u : Unit} (hs : s.Consistent) (hended : Store.HasEnded id s)
    (hm : m ∈ s.metricRowsOf id) (hsucc : s.SucceededAt now)
    (h : Yields (carry settings version now (s.hourly?.map (·.id)) (m :: ms)) s u s') :
    ∃ s₂, Yields (carry settings version now (s₂.hourly?.map (·.id)) ms) s₂ u s' ∧
      s₂.Consistent ∧ s₂.SucceededAt now ∧ Store.SameReport id s s₂ ∧
      ∀ name, s₂.hourlySeries name = s.hourlySeries name ++
        if name = m.spec.eventName then
          (s.carriedOf settings.retention.carryOverMaxAge now m).toList
        else [] := by
  have hname : m.spec.eventName ≠ "" := hs.metricNamed m (Store.mem_metricRowsOf.1 hm).1
  obtain ⟨v?, hlatest, hcases⟩ := carry_cases h
  obtain ⟨-, hnewest⟩ := Transaction.latestUpTo_eq hs hlatest
  have hcarried : s.carriedOf settings.retention.carryOverMaxAge now m =
      (v?.map (·.timed)).filter fun v =>
        decide (now - v.timeMs ≤ settings.retention.carryOverMaxAge) := by
    rw [Store.carriedOf, hnewest]
  rcases hcases with ⟨hold, h⟩ | ⟨v, id', s₁, s₂, result, rfl, hfresh, hsuccessor, hrecord, h⟩
  · refine ⟨s, h, hs, hsucc, .refl id s, fun name => ?_⟩
    have hnone : s.carriedOf settings.retention.carryOverMaxAge now m = none := by
      rw [hcarried, Option.filter_eq_none_iff]
      rintro _ hv hrecent
      obtain ⟨v, rfl, rfl⟩ := Option.map_eq_some_iff.1 hv
      exact not_le.2 (hold v rfl) (of_decide_eq_true hrecent)
    simp [hnone]
  have hrecent : now - v.timed.timeMs ≤ settings.retention.carryOverMaxAge := not_lt.1 hfresh
  have hkept : v.value.IsKept := Store.isKept_of_mem_timedOf hs
    (List.mem_filter.1 (TimedValue.newest?_mem hnewest.symm)).1
  rw [hcarried, Option.map_some, Option.filter_some, if_pos (decide_eq_true hrecent)]
  obtain ⟨r, hopen₁, rfl, hs₁, hstart, hfilled, hsame₁, hseries₁⟩ :=
    successor_open hs hended hsucc hsuccessor
  obtain ⟨hs₂, hopen₂, hsucc₂, hsame₂, hseries₂⟩ :=
    carry_into hended hsame₁ hs₁ hopen₁ hstart hfilled hname hkept hrecord
  refine ⟨s₂, ?_, hs₂, hsucc₂, hsame₂, fun name => ?_⟩
  · rw [hopen₂]
    exact h
  · rw [hseries₂, hseries₁]
    rfl

theorem carry_series {settings : Settings} {version : Option String} {now id : Int}
    (ms : List MetricRow) :
    ∀ {s s' : Store} {u : Unit}, s.Consistent → Store.HasEnded id s →
      (∀ m ∈ ms, m ∈ s.metricRowsOf id) →
      ms.Pairwise (fun a b => a.spec.eventName ≠ b.spec.eventName) → s.SucceededAt now →
      Yields (carry settings version now (s.hourly?.map (·.id)) ms) s u s' →
      s'.Consistent ∧ s'.SucceededAt now ∧ ∀ name, s'.hourlySeries name =
        s.hourlySeries name ++
          (carriedAmong s settings.retention.carryOverMaxAge now ms name).toList := by
  induction ms with
  | nil =>
    intro s s' u hs _ _ _ hsucc h
    obtain ⟨-, rfl⟩ := yields_pure.1 h
    exact ⟨hs, hsucc, fun name => (List.append_nil _).symm⟩
  | cons m ms ih =>
    intro s s' u hs hended hms hdistinct hsucc h
    rw [List.pairwise_cons] at hdistinct
    have hms' : ∀ m ∈ ms, m ∈ s.metricRowsOf id := fun m' hm' => hms m' (by simp [hm'])
    obtain ⟨s₁, h₁, hs₁, hsucc₁, hsame, hseries₁⟩ :=
      carry_step hs hended (hms m (by simp)) hsucc h
    obtain ⟨hs', hsucc', hseries⟩ := ih hs₁ (hended.of_same hsame)
      (fun m hm => hsame.metrics ▸ hms' m hm) hdistinct.2 hsucc₁ h₁
    refine ⟨hs', hsucc', fun name => ?_⟩
    rw [hseries, hseries₁, carriedAmong_congr hms' hsame, carriedAmong_cons hdistinct.1,
      List.append_assoc]

/-- The metric of a name among those that are carried over. -/
theorem find_carried (hs : s.Consistent) (id : Int) (name : String) :
    (s.metrics.rows.filter fun m => m.reportId == id && m.spec.carryOver).find?
      (·.spec.eventName == name) = (s.metric? id name).filter (·.spec.carryOver) := by
  cases hfind : (s.metrics.rows.filter fun m => m.reportId == id && m.spec.carryOver).find?
      (·.spec.eventName == name) with
  | none =>
    cases hmetric : s.metric? id name with
    | none => rfl
    | some m =>
      obtain ⟨hm, hid, hname⟩ := Store.of_metric? hmetric
      have hnot := List.find?_eq_none.1 hfind m
      simpa [Option.filter, hm, hid, hname] using hnot
  | some m =>
    have hm := List.mem_of_find?_eq_some hfind
    have hname : m.spec.eventName = name := by simpa using List.find?_some hfind
    obtain ⟨hmem, hcarried⟩ := List.mem_filter.1 hm
    simp only [Bool.and_eq_true, beq_iff_eq] at hcarried
    rw [← hname, ← hcarried.1, hs.metric?_eq hmem]
    simp [Option.filter, hcarried.2]

/-- What the successor of an ended accumulator holds. -/
theorem carryOver_series {settings : Settings} {version : Option String} {now id : Int} {u : Unit}
    (hs : s.Consistent) (hended : Store.HasEnded id s) (hnone : s.hourly? = none)
    (h : Yields (carryOver settings version id now) s u s') :
    s'.Consistent ∧ s'.SucceededAt now ∧ ∀ name, s'.hourlySeries name =
      (((s.metric? id name).filter (·.spec.carryOver)).bind
        (s.carriedOf settings.retention.carryOverMaxAge now)).toList := by
  obtain ⟨v, s₁, hused, h⟩ := yields_bind.1 h
  obtain ⟨kept, rfl⟩ := Transaction.looks_useKept _ _ _ _ s v s₁ hused
  obtain ⟨rows, s₂, hlook, h⟩ := yields_bind.1 h
  obtain ⟨hrows, rfl⟩ := Transaction.yields_query.1 hlook
  have hs₁ : Store.Consistent { s with kept } := hs.of_eq rfl rfl rfl rfl
  rw [Store.carriedMetricsOf_eq hs₁.undamaged, Except.ok.injEq] at hrows
  subst hrows
  have hopen : Store.hourly? { s with kept } = none := hnone
  have hrows := s.filter_metrics id (·.spec.carryOver)
  have hdistinct : (s.metrics.rows.filter fun m => m.reportId == id && m.spec.carryOver).Pairwise
      fun a b => a.spec.eventName ≠ b.spec.eventName :=
    hrows ▸ (hs.metricRowsOf_distinct id).filter _
  have hms : ∀ m ∈ s.metrics.rows.filter (fun m => m.reportId == id && m.spec.carryOver),
      m ∈ s.metricRowsOf id := hrows ▸ fun m hm => List.mem_of_mem_filter hm
  have hsucc : Store.SucceededAt { s with kept } now := by
    intro r hr
    rw [hopen] at hr
    cases hr
  obtain ⟨hs', hsucc', hseries⟩ :=
    carry_series _ hs₁ (by exact hended) hms hdistinct hsucc (by rw [hopen]; exact h)
  refine ⟨hs', hsucc', fun name => ?_⟩
  rw [hseries, Store.hourlySeries, hopen, Option.elim_none, List.nil_append, ← find_carried hs]
  rfl

end Collecting

/-! ### Whole collections -/

theorem Store.Consistent.ended_noneOpen {s : Store} (hs : s.Consistent) {r : ReportRow}
    (hopen : s.hourly? = some r) (now : Int) : (s.ended r.id now).NoneOpen .hourly := by
  intro x hx hkind hend
  obtain ⟨a, ha, rfl⟩ := List.mem_map.1 hx
  split at hend
  · cases hend
  · next hne =>
    rw [if_neg hne] at hkind
    rw [hs.hourly?_eq ha hkind hend, Option.some.injEq] at hopen
    exact hne (by simp [hopen])

/-- Once it is reported on, the accumulator has ended and none is open. -/
theorem Collecting.reportHourly_ended {settings : Settings} {request : CollectRequest}
    {exportName : String} {p p' : Progress} {r : ReportRow} {report : MetricReport}
    {path : Option Path} (hs : p.store.Consistent) (hopen : p.store.hourly? = some r)
    (h : Yields (reportHourly settings request exportName r) p (report, path) p') :
    (p.store.ended r.id request.nowMs).SeenAs p'.store ∧ p'.store.Consistent ∧
      Store.HasEnded r.id p'.store ∧ p'.store.hourly? = none := by
  obtain ⟨hr, hkind, -, hend⟩ := Store.of_hourly? hopen
  obtain ⟨summary, s₁, s₂, hseen₁, hsummary, -, hseen₂⟩ := reportHourly_cases hs.undamaged h
  have hs₀ := (Store.ended_steps .everything hs hr trivial (by simp [hkind]) hend
    request.nowMs).consistent hs
  have hseen := hseen₁.trans ((looks_summarize _ _ _ _ _ _ _ hsummary).trans hseen₂)
  refine ⟨hseen, hseen.consistent hs₀, ?_⟩
  obtain ⟨kept, hp'⟩ := hseen
  rw [hp']
  exact ⟨⟨_, List.mem_map.2 ⟨r, hr, rfl⟩, by simp⟩,
    (hs.ended_noneOpen hopen request.nowMs).hourly?_eq⟩

/-- After the hourly stage the open accumulator, if there is one, holds what was carried over. -/
theorem Collecting.hourly_series {settings : Settings} {version : Option String}
    {request : CollectRequest} {exportName : String} {p p' : Progress} {report : MetricReport}
    {path : Option Path} (hs : p.store.Consistent)
    (h : Yields (hourly settings version request exportName) p (report, path) p') :
    p'.store.SucceededAt request.nowMs ∧ ∀ name, p'.store.hourlySeries name =
      (p.store.carried? settings.retention.carryOverMaxAge request.nowMs name).toList := by
  rcases hourly_cases hs h with ⟨hnone, rfl, -⟩ | ⟨r, p₁, hopen, hreport, hcarry⟩
  · have hnone : p'.store.hourly? = none := hnone
    refine ⟨fun r hr => ?_, fun name => ?_⟩
    · rw [hnone] at hr
      cases hr
    · rw [Store.hourlySeries, Store.carried?, Store.hourlyMetric?, hnone]
      rfl
  · have hopen : p.store.hourly? = some r := hopen
    obtain ⟨⟨kept, hp₁⟩, hs₁, hended, hnone⟩ := reportHourly_ended hs hopen hreport
    obtain ⟨-, hsucc, hseries⟩ := carryOver_series hs₁ hended hnone hcarry
    refine ⟨hsucc, fun name => ?_⟩
    rw [hseries, Store.carried?, Store.hourlyMetric?, hopen, Option.bind_some, hp₁]
    rfl

/-- What the hourly stage leaves open stays open and as it is until the end of the collection. -/
theorem Engine.collect_hourly {e : Engine} (hs : e.store.Consistent) {request : CollectRequest}
    {exportName : String} {files : Files} {report : CustomReport}
    (h : (e.collect request exportName files).result = .ok report) :
    ∃ hourly path p,
      Yields (Collecting.hourly e.settings e.softwareVersion request exportName)
        ⟨e.store, files, []⟩ (hourly, path) p ∧
      (e.collect request exportName files).engine.store.Consistent ∧
      (e.collect request exportName files).engine.store.hourly? = p.store.hourly? ∧
      ∀ r, p.store.hourly? = some r →
        Store.SameReport r.id p.store (e.collect request exportName files).engine.store := by
  obtain ⟨_, hourly, path, p₁, p₂, -, hhourly, hothers, heq⟩ | ⟨err, s, herr, -⟩ :=
    collect_cases hs.undamaged request exportName files
  swap
  · rw [herr] at h
    cases h
  have hs₁ := (Collecting.hourly_steps hs hhourly).consistent hs
  have hs₂ := (Collecting.others_steps .everything hs₁ (fun _ => trivial) hothers).consistent hs₁
  rw [heq, withStore_eq hs₂.undamaged]
  have hsame : ∀ r, p₁.store.hourly? = some r → Store.SameReport r.id p₁.store p₂.store :=
    fun r hopen => Collecting.others_sameReport hs₁
      ((Collecting.hourly_series hs hhourly).1 r hopen).2 hothers
  refine ⟨hourly, path, p₁, hhourly, hs₂, ?_, hsame⟩
  cases hopen : p₁.store.hourly? with
  | some r => exact (hsame r hopen).hourly?_eq hs₂ hopen
  | none => exact (Collecting.others_noneOpen hs₁ (hs₁.noneOpen hopen) hothers).hourly?_eq

/-- After a collection the open accumulator, if there is one, was started by it and holds what was
carried over. -/
theorem Engine.collect_series {e : Engine} (hs : e.store.Consistent) {request : CollectRequest}
    {exportName : String} {files : Files} {report : CustomReport}
    (h : (e.collect request exportName files).result = .ok report) :
    (e.collect request exportName files).engine.store.Consistent ∧
      (∀ r, (e.collect request exportName files).engine.store.hourly? = some r →
        r.startMs = request.nowMs) ∧
      ∀ name, (e.collect request exportName files).engine.store.hourlySeries name =
        (e.store.carried? e.settings.retention.carryOverMaxAge request.nowMs name).toList := by
  obtain ⟨hourly, path, p, hhourly, hs', hopen, hsame⟩ := collect_hourly hs h
  obtain ⟨hsucc, hseries⟩ := Collecting.hourly_series hs hhourly
  refine ⟨hs', fun r hr => (hsucc r (hopen ▸ hr)).1, fun name => ?_⟩
  rw [← hseries name, Store.hourlySeries, Store.hourlySeries, hopen]
  cases hr : p.store.hourly? with
  | none => rfl
  | some r => exact (hsame r hr).seriesOf_eq name

end Telemetry
